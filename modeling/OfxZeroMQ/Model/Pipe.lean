import Mathlib.Logic.Function.Basic
import OfxZeroMQ.Foundation.Channel

/-!
# Pipes

Two sockets, or a socket and a session, are connected by a pair of `zmq::pipe_t`. Each of the two
writes one queue and reads the other one, and sends commands to the other one's thread. An
operation is `none` where it fails an assertion or uses what was deallocated.

The watermarks stay what `pipepair` made them: nothing here calls `hiccup`, `set_hwms`,
`set_hwms_boost`, `send_hwms_to_peer` or `send_stats_to_peer`, and none of the commands that these
send is on its way.
-/
namespace OfxZeroMQ

open Foundation

/-- `msg_t`, as far as a pipe looks at it. -/
inductive PipeMsg (α : Type) where
  | msg (body : α) (more routingId credential : Bool)
  | delimiter
deriving DecidableEq

namespace PipeMsg

variable {α : Type}

def more : PipeMsg α → Bool
  | msg _ more _ _ => more
  | delimiter => false

def isCredential : PipeMsg α → Bool
  | msg _ _ _ credential => credential
  | delimiter => false

def isDelimiter : PipeMsg α → Bool
  | msg _ _ _ _ => false
  | delimiter => true

/-- Whether the message ends one that the watermarks count. -/
def counts : PipeMsg α → Bool
  | msg _ more routingId _ => !more && !routingId
  | delimiter => false

end PipeMsg

inductive PipeState where
  | active
  | delimiterReceived
  | waitingForDelimiter
  | termAckSent
  | termReqSent1
  | termReqSent2
deriving DecidableEq

inductive PipeCommand where
  | activateRead
  | activateWrite (msgsRead : Nat)
  | pipeTerm
  | pipeTermAck
deriving DecidableEq

structure Pipe where
  inActive : Bool
  outActive : Bool
  hwm : Nat
  lwm : Nat
  msgsRead : Nat
  msgsWritten : Nat
  peersMsgsRead : Nat
  state : PipeState
  delay : Bool
  -- `_out_pipe` is not null
  outPipe : Bool
  /-- The pipe was deallocated, and its inbound queue with it. -/
  gone : Bool

/-- `INT_MAX` -/
def intMax : Nat := 2147483647

/-- Watermarks are `int`s. Where `hwm + 1` overflows, the low watermark is negative, and as good as
none. -/
def computeLwm (hwm : Nat) : Nat := if hwm < intMax then (hwm + 1) / 2 else 0

def Pipe.initial (inhwm outhwm : Nat) : Pipe :=
  ⟨true, true, outhwm, computeLwm inhwm, 0, 0, 0, .active, true, true, false⟩

def Pipe.checkHwm (p : Pipe) : Bool :=
  !decide (0 < p.hwm ∧ p.hwm ≤ p.msgsWritten - p.peersMsgsRead)

def Pipe.countRead {α : Type} (p : Pipe) (m : PipeMsg α) : Nat :=
  if m.counts then p.msgsRead + 1 else p.msgsRead

/-- What a pipe works with. -/
structure PipeEnd (α : Type) where
  pipe : Pipe
  inpipe : Channel (PipeMsg α)
  -- there is none when the other pipe has deallocated it
  outpipe : Option (Channel (PipeMsg α))
  -- the commands for the other pipe
  sent : List PipeCommand
  /-- the messages that were written, apart from one that is to be continued -/
  accepted : List (PipeMsg α)
  /-- the messages that were taken from the inbound queue -/
  received : List (PipeMsg α)

namespace PipeEnd

variable {α : Type}

def send (e : PipeEnd α) (command : PipeCommand) : PipeEnd α :=
  { e with sent := e.sent ++ [command] }

/-! ### Reading -/

def processDelimiter (e : PipeEnd α) : Option (PipeEnd α) :=
  match e.pipe.state with
  | .active => some { e with pipe := { e.pipe with state := .delimiterReceived } }
  | .waitingForDelimiter =>
    let e := { e with pipe := { e.pipe with outPipe := false, state := .termAckSent } }
    some (e.send .pipeTermAck)
  | _ => none

/-- The loop that passes over credentials, with the messages it takes. -/
def take : List (PipeMsg α) → List (PipeMsg α) × Option (PipeMsg α) × List (PipeMsg α)
  | [] => ([], none, [])
  | m :: ms =>
    if m.isCredential then
      let (passed, found, rest) := take ms
      (m :: passed, found, rest)
    else ([m], some m, ms)

def canRead (p : Pipe) : Bool :=
  p.inActive && (p.state == .active || p.state == .waitingForDelimiter)

def checkRead (e : PipeEnd α) : Option (Bool × PipeEnd α) :=
  if !canRead e.pipe then some (false, e)
  else match e.inpipe.sent with
  | [] =>
    some (false,
      { e with pipe := { e.pipe with inActive := false }, inpipe := e.inpipe.checkRead.2 })
  | m :: _ =>
    if m.isDelimiter then
      let e := { e with inpipe := e.inpipe.read.2, received := e.received ++ [m] }
      e.processDelimiter.map fun e => (false, e)
    else some (true, e)

def read (e : PipeEnd α) : Option (Option (PipeMsg α) × PipeEnd α) :=
  if !canRead e.pipe then some (none, e)
  else
    let (taken, found, rest) := take e.inpipe.sent
    let e := { e with received := e.received ++ taken }
    match found with
    | none =>
      let inpipe := { e.inpipe with sent := rest, asleep := true }
      some (none, { e with pipe := { e.pipe with inActive := false }, inpipe := inpipe })
    | some m =>
      let e := { e with inpipe := { e.inpipe with sent := rest } }
      if m.isDelimiter then e.processDelimiter.map fun e => (none, e)
      else
        let msgsRead := e.pipe.countRead m
        let e := { e with pipe := { e.pipe with msgsRead := msgsRead } }
        if 0 < e.pipe.lwm ∧ msgsRead % e.pipe.lwm = 0 then
          some (some m, e.send (.activateWrite msgsRead))
        else some (some m, e)

/-! ### Writing -/

def checkWrite (e : PipeEnd α) : Bool × PipeEnd α :=
  if !e.pipe.outActive || e.pipe.state != .active then (false, e)
  else if !e.pipe.checkHwm then
    (false, { e with pipe := { e.pipe with outActive := false } })
  else (true, e)

/-- `_out_pipe` is used. -/
def withOutpipe (e : PipeEnd α) (f : Channel (PipeMsg α) → Option (PipeEnd α)) :
    Option (PipeEnd α) := if e.pipe.outPipe then e.outpipe.bind f else none

def write (e : PipeEnd α) (m : PipeMsg α) : Option (PipeEnd α) :=
  let (writable, e) := e.checkWrite
  if !writable then some e
  else e.withOutpipe fun ch =>
    some { e with
      outpipe := some (ch.write m m.more)
      accepted := if m.more then e.accepted else e.accepted ++ (ch.unfinished ++ [m])
      pipe := if m.counts then { e.pipe with msgsWritten := e.pipe.msgsWritten + 1 } else e.pipe }

/-- The loop takes back everything that is to be continued. -/
def rollback (e : PipeEnd α) : Option (PipeEnd α) :=
  if !e.pipe.outPipe then some e
  else e.withOutpipe fun ch =>
    if ch.unfinished.all PipeMsg.more then
      some { e with outpipe := some { ch with unfinished := [] } }
    else none

def flush (e : PipeEnd α) : Option (PipeEnd α) :=
  if e.pipe.state = .termAckSent || !e.pipe.outPipe then some e
  else e.withOutpipe fun ch =>
    let e := { e with outpipe := some ch.flush.2 }
    some (if ch.flush.1 then e else e.send .activateRead)

/-! ### Termination -/

/-- The branches of `terminate` before the delimiter is written; the flag tells whether it returns
there. -/
def terminateState (e : PipeEnd α) : Option (Bool × PipeEnd α) :=
  match e.pipe.state with
  | .termReqSent1 | .termReqSent2 | .termAckSent => some (true, e)
  | .active | .delimiterReceived =>
    let e := e.send .pipeTerm
    some (false, { e with pipe := { e.pipe with state := .termReqSent1 } })
  | .waitingForDelimiter =>
    if e.pipe.delay then some (false, e)
    else e.rollback.map fun e =>
      let e := { e with pipe := { e.pipe with outPipe := false } }
      let e := e.send .pipeTermAck
      (false, { e with pipe := { e.pipe with state := .termAckSent } })

/-- The delimiter is written whatever the watermarks say. -/
def writeDelimiter (e : PipeEnd α) : Option (PipeEnd α) :=
  if !e.pipe.outPipe then some e
  else
    e.rollback.bind fun e =>
      (e.withOutpipe fun ch =>
        some { e with
          outpipe := some (ch.write .delimiter false)
          accepted := e.accepted ++ (ch.unfinished ++ [.delimiter]) }).bind flush

def terminate (e : PipeEnd α) (delay : Bool) : Option (PipeEnd α) :=
  let e := { e with pipe := { e.pipe with delay := delay } }
  e.terminateState.bind fun (returns, e) =>
    if returns then some e
    else
      let e := { e with pipe := { e.pipe with outActive := false } }
      e.writeDelimiter

def setNodelay (e : PipeEnd α) : PipeEnd α := { e with pipe := { e.pipe with delay := false } }

/-! ### Commands -/

def processActivateRead (e : PipeEnd α) : PipeEnd α :=
  if !e.pipe.inActive &&
      (e.pipe.state == .active || e.pipe.state == .waitingForDelimiter) then
    { e with pipe := { e.pipe with inActive := true } }
  else e

def processActivateWrite (e : PipeEnd α) (msgsRead : Nat) : PipeEnd α :=
  let e := { e with pipe := { e.pipe with peersMsgsRead := msgsRead } }
  if !e.pipe.outActive && e.pipe.state == .active then
    { e with pipe := { e.pipe with outActive := true } }
  else e

def acknowledge (e : PipeEnd α) (state : PipeState) : PipeEnd α :=
  { e.send .pipeTermAck with pipe := { e.pipe with state := state, outPipe := false } }

def processPipeTerm (e : PipeEnd α) : Option (PipeEnd α) :=
  match e.pipe.state with
  | .active =>
    if e.pipe.delay then
      some { e with pipe := { e.pipe with state := .waitingForDelimiter } }
    else some (e.acknowledge .termAckSent)
  | .delimiterReceived => some (e.acknowledge .termAckSent)
  | .termReqSent1 => some (e.acknowledge .termReqSent2)
  | _ => none

/-- The pipe deallocates itself and its inbound queue. -/
def processPipeTermAck (e : PipeEnd α) : Option (PipeEnd α) :=
  let gone (e : PipeEnd α) : PipeEnd α := { e with pipe := { e.pipe with gone := true } }
  match e.pipe.state with
  | .termReqSent1 => some (gone (e.acknowledge .termReqSent1))
  | .termAckSent | .termReqSent2 => some (gone e)
  | _ => none

def process (e : PipeEnd α) : PipeCommand → Option (PipeEnd α)
  | .activateRead => some e.processActivateRead
  | .activateWrite msgsRead => some (e.processActivateWrite msgsRead)
  | .pipeTerm => e.processPipeTerm
  | .pipeTermAck => e.processPipeTermAck

end PipeEnd

/-- What the owner of a pipe calls. Calls that change the watermarks, and the `hiccup` of a session
that connects again, are not among these. -/
inductive PipeCall (α : Type) where
  | write (m : PipeMsg α)
  | flush
  | rollback
  | checkWrite
  | read
  | checkRead
  | terminate (delay : Bool)
  | setNodelay

/-- The delimiter is not for the owner to write. -/
def PipeEnd.call {α : Type} (e : PipeEnd α) : PipeCall α → Option (PipeEnd α)
  | .write m => if m.isDelimiter then some e else e.write m
  | .flush => e.flush
  | .rollback => e.rollback
  | .checkWrite => some e.checkWrite.2
  | .read => e.read.map Prod.snd
  | .checkRead => e.checkRead.map Prod.snd
  | .terminate delay => e.terminate delay
  | .setNodelay => some e.setNodelay

/-! ### A pair of pipes -/

structure PipePair (α : Type) where
  pipes : Bool → Pipe
  -- the queue that a pipe writes
  queues : Bool → Channel (PipeMsg α)
  -- the commands on their way to a pipe
  mail : Bool → List PipeCommand
  accepted : Bool → List (PipeMsg α)
  received : Bool → List (PipeMsg α)

inductive PipeAct (α : Type) where
  | call (call : PipeCall α)
  -- the thread takes the next command
  | command

namespace PipePair

variable {α : Type}

/-- `pipepair` -/
def initial (hwms : Bool → Nat) : PipePair α :=
  ⟨fun b => .initial (hwms !b) (hwms b), fun _ => .empty, fun _ => [], fun _ => [], fun _ => []⟩

def pipeEnd (s : PipePair α) (b : Bool) : PipeEnd α :=
  ⟨s.pipes b, s.queues !b, if (s.pipes !b).gone then none else some (s.queues b), [],
    s.accepted b, s.received b⟩

/-- A command for a pipe that was deallocated would be lost. -/
def put (s : PipePair α) (b : Bool) (mail : List PipeCommand) (e : PipeEnd α) :
    Option (PipePair α) :=
  if (s.pipes !b).gone ∧ e.sent ≠ [] then none
  else some {
    pipes := Function.update s.pipes b e.pipe
    queues := fun c => if c = b then e.outpipe.getD (s.queues b) else e.inpipe
    mail := fun c => if c = b then mail else s.mail (!b) ++ e.sent
    accepted := Function.update s.accepted b e.accepted
    received := Function.update s.received b e.received }

/-- Nothing is called of a pipe after `pipe_terminated`. -/
def act (s : PipePair α) (b : Bool) : PipeAct α → Option (PipePair α)
  | .command =>
    match s.mail b with
    | [] => some s
    | command :: mail =>
      if (s.pipes b).gone then none
      else ((s.pipeEnd b).process command).bind (s.put b mail)
  | .call call =>
    if (s.pipes b).gone then some s
    else ((s.pipeEnd b).call call).bind (s.put b (s.mail b))

def step (s : PipePair α) (event : Bool × PipeAct α) : Option (PipePair α) :=
  s.act event.1 event.2

end PipePair

end OfxZeroMQ
