import OfxZeroMQ.Foundation.Rotation
import OfxZeroMQ.Model.Pipe

/-!
# Many pipes

A socket takes messages of its pipes by fair queueing, and gives messages to them by load
balancing. An operation is `none` where it fails an assertion, uses a pipe that was deallocated, or
leaves the bounds of the array.

A pipe is empty when it is attached: no routing id and no probe message was written to it. The
threads at the other ends act as in `PipeAct`, so no watermark changes and no session hiccups its
pipe because it connects again.
-/
namespace OfxZeroMQ

open Foundation

/-- The pairs of pipes of a socket. The pipe `true` of a pair belongs to the socket. -/
abbrev Pipes (π α : Type) := π → Option (PipePair α)

namespace Pipes

variable {π α β : Type} [DecidableEq π]

def use (pipes : Pipes π α) (p : π) (f : PipeEnd α → Option (β × PipeEnd α)) :
    Option (β × Pipes π α) :=
  (pipes p).bind fun s =>
    if (s.pipes true).gone then none
    else (f (s.pipeEnd true)).bind fun (answer, e) =>
      (s.put true (s.mail true) e).map fun s => (answer, Function.update pipes p (some s))

def run (pipes : Pipes π α) (p : π) (f : PipeEnd α → Option (PipeEnd α)) : Option (Pipes π α) :=
  (pipes.use p fun e => (f e).map ((), ·)).map Prod.snd

end Pipes

/-- `pipe_t::write`, with its answer. -/
def PipeEnd.tryWrite {α : Type} (m : PipeMsg α) (e : PipeEnd α) : Option (Bool × PipeEnd α) :=
  (e.write m).map (e.checkWrite.1, ·)

/-! ### Fair queueing -/

structure Fq (π : Type) where
  -- `_pipes`, `_active` and `_current`
  pipes : Rotation π
  lastIn : Option π
  more : Bool

namespace Fq

variable {π α : Type} [DecidableEq π]

def empty : Fq π := ⟨.empty, none, false⟩

def attach (f : Fq π) (p : π) : Option (Fq π) :=
  if absent : p ∉ f.pipes.items then some { f with pipes := f.pipes.attach p absent } else none

def pipeTerminated (f : Fq π) (p : π) : Option (Fq π) :=
  if present : p ∈ f.pipes.items then
    some { f with
      pipes := f.pipes.remove p present
      lastIn := if f.lastIn = some p then none else f.lastIn }
  else none

def activated (f : Fq π) (p : π) : Option (Fq π) :=
  if inside : p ∈ f.pipes.items ∧ f.pipes.active < f.pipes.items.length then
    some { f with pipes := f.pipes.activate p inside.1 inside.2 }
  else none

/-- The loop of `recvpipe`. It goes on only when a pipe was deactivated. -/
def recvLoop : Nat → Fq π → Pipes π α → Option (Option (π × PipeMsg α) × Fq π × Pipes π α)
  | 0, f, pipes => some (none, f, pipes)
  | active + 1, f, pipes =>
    f.pipes.next.bind fun p =>
    (pipes.use p PipeEnd.read).bind fun (fetched, pipes) =>
    match fetched with
    | some m =>
      let f := { f with more := m.more }
      if f.more then some (some (p, m), f, pipes)
      else some (some (p, m), { f with lastIn := some p, pipes := f.pipes.advance }, pipes)
    | none =>
      if f.more then none
      else recvLoop active { f with pipes := f.pipes.deactivate } pipes

def recvpipe (f : Fq π) (pipes : Pipes π α) :
    Option (Option (π × PipeMsg α) × Fq π × Pipes π α) := recvLoop f.pipes.active f pipes

def hasInLoop : Nat → Fq π → Pipes π α → Option (Bool × Fq π × Pipes π α)
  | 0, f, pipes => some (false, f, pipes)
  | active + 1, f, pipes =>
    f.pipes.next.bind fun p =>
    (pipes.use p PipeEnd.checkRead).bind fun (found, pipes) =>
    if found then some (true, f, pipes)
    else hasInLoop active { f with pipes := f.pipes.deactivate } pipes

def hasIn (f : Fq π) (pipes : Pipes π α) : Option (Bool × Fq π × Pipes π α) :=
  if f.more then some (true, f, pipes) else hasInLoop f.pipes.active f pipes

end Fq

/-! ### Load balancing -/

structure Lb (π : Type) where
  -- `_pipes`, `_active` and `_current`
  pipes : Rotation π
  more : Bool
  dropping : Bool

/-- The results 0, with the pipe, and -1 and -2. -/
inductive SendResult (π : Type) where
  | sent (pipe : Option π)
  | again
  | lost

namespace Lb

variable {π α : Type} [DecidableEq π]

def empty : Lb π := ⟨.empty, false, false⟩

def attach (l : Lb π) (p : π) : Option (Lb π) :=
  if absent : p ∉ l.pipes.items then some { l with pipes := l.pipes.attach p absent } else none

def pipeTerminated (l : Lb π) (p : π) : Option (Lb π) :=
  if present : p ∈ l.pipes.items then
    let dropping := if l.pipes.slots.index p = l.pipes.current ∧ l.more then true else l.dropping
    some { l with dropping := dropping, pipes := l.pipes.remove p present }
  else none

def activated (l : Lb π) (p : π) : Option (Lb π) :=
  if inside : p ∈ l.pipes.items ∧ l.pipes.active < l.pipes.items.length then
    some { l with pipes := l.pipes.activate p inside.1 inside.2 }
  else none

/-- The loop of `sendpipe`. It goes on only when a pipe was deactivated. -/
def sendLoop (m : PipeMsg α) : Nat → Lb π → Pipes π α →
    Option (SendResult π × Lb π × Pipes π α)
  | 0, l, pipes => some (.again, l, pipes)
  | active + 1, l, pipes =>
    l.pipes.next.bind fun p =>
    (pipes.use p (PipeEnd.tryWrite m)).bind fun (written, pipes) =>
    if written then
      let l := { l with more := m.more }
      if l.more then some (.sent (some p), l, pipes)
      else (pipes.run p PipeEnd.flush).map fun pipes =>
        (.sent (some p), { l with pipes := l.pipes.advance }, pipes)
    else if l.more then
      (pipes.run p PipeEnd.rollback).map fun pipes =>
        (.lost, { l with dropping := m.more, more := false }, pipes)
    else sendLoop m active { l with pipes := l.pipes.deactivate } pipes

def sendpipe (l : Lb π) (pipes : Pipes π α) (m : PipeMsg α) :
    Option (SendResult π × Lb π × Pipes π α) :=
  if l.dropping then some (.sent none, { l with more := m.more, dropping := m.more }, pipes)
  else sendLoop m l.pipes.active l pipes

def hasOutLoop : Nat → Lb π → Pipes π α → Option (Bool × Lb π × Pipes π α)
  | 0, l, pipes => some (false, l, pipes)
  | active + 1, l, pipes =>
    l.pipes.next.bind fun p =>
    (pipes.use p fun e => some e.checkWrite).bind fun (writable, pipes) =>
    if writable then some (true, l, pipes)
    else hasOutLoop active { l with pipes := l.pipes.deactivate } pipes

def hasOut (l : Lb π) (pipes : Pipes π α) : Option (Bool × Lb π × Pipes π α) :=
  if l.more then some (true, l, pipes) else hasOutLoop l.pipes.active l pipes

end Lb

/-! ### A socket that does both -/

/-- What a pipe tells its socket. -/
inductive PipeEvent where
  | readActivated
  | writeActivated
  | pipeTerminated

/-- The call of `_sink` that goes with a command. -/
def PipeEnd.notifies {α : Type} (e : PipeEnd α) : PipeCommand → Option PipeEvent
  | .activateRead =>
    if !e.pipe.inActive &&
        (e.pipe.state == .active || e.pipe.state == .waitingForDelimiter) then
      some .readActivated
    else none
  | .activateWrite _ =>
    if !e.pipe.outActive && e.pipe.state == .active then some .writeActivated else none
  | .pipeTerm => none
  | .pipeTermAck => some .pipeTerminated

structure Dealer (π α : Type) where
  pipes : Pipes π α
  fq : Fq π
  lb : Lb π
  /-- what the application has received, and from which pipe -/
  received : List (π × PipeMsg α)
  /-- the parts of the message that the application is sending -/
  parts : List (PipeMsg α)
  /-- the messages that the application has sent, with the pipe that took the last part -/
  messages : List (Option π × List (PipeMsg α))

inductive DealerEvent (π α : Type) where
  | attach (p : π)
  | recv
  | hasIn
  | send (body : α) (more : Bool)
  | hasOut
  -- an endpoint is disconnected
  | terminate (p : π) (delay : Bool)
  -- the socket's thread takes the next command for a pipe
  | command (p : π)
  -- the thread at the other end
  | remote (p : π) (act : PipeAct α)

namespace Dealer

variable {π α : Type} [DecidableEq π]

def initial : Dealer π α := ⟨fun _ => none, .empty, .empty, [], [], []⟩

def attach (hwms : Bool → Nat) (s : Dealer π α) (p : π) : Option (Dealer π α) :=
  match s.pipes p with
  | some _ => some s
  | none =>
    (s.fq.attach p).bind fun fq => (s.lb.attach p).map fun lb =>
      { s with pipes := Function.update s.pipes p (some (.initial hwms)), fq := fq, lb := lb }

def recv (s : Dealer π α) : Option (Dealer π α) :=
  (s.fq.recvpipe s.pipes).map fun (found, fq, pipes) =>
    { s with pipes := pipes, fq := fq, received := s.received ++ found.toList }

def hasIn (s : Dealer π α) : Option (Dealer π α) :=
  (s.fq.hasIn s.pipes).map fun (_, fq, pipes) => { s with pipes := pipes, fq := fq }

def hasOut (s : Dealer π α) : Option (Dealer π α) :=
  (s.lb.hasOut s.pipes).map fun (_, lb, pipes) => { s with pipes := pipes, lb := lb }

/-- A part of a message was taken from the application. -/
def take (s : Dealer π α) (m : PipeMsg α) (pipe : Option π) : Dealer π α :=
  let parts := s.parts ++ [m]
  if m.more then { s with parts := parts }
  else { s with parts := [], messages := s.messages ++ [(pipe, parts)] }

def send (s : Dealer π α) (m : PipeMsg α) : Option (Dealer π α) :=
  (s.lb.sendpipe s.pipes m).map fun (result, lb, pipes) =>
    let s := { s with pipes := pipes, lb := lb }
    match result with
    | .sent pipe => s.take m pipe
    | .again => s
    | .lost => s.take m none

/-- Nothing is called of a pipe that is not attached. -/
def terminate (s : Dealer π α) (p : π) (delay : Bool) : Option (Dealer π α) :=
  match s.pipes p with
  | none => some s
  | some pair =>
    if (pair.pipes true).gone then some s
    else (s.pipes.run p (·.terminate delay)).map fun pipes => { s with pipes := pipes }

/-- `read_activated`, `write_activated` and `pipe_terminated` -/
def notified (s : Dealer π α) (p : π) : Option PipeEvent → Option (Dealer π α)
  | none => some s
  | some .readActivated => (s.fq.activated p).map fun fq => { s with fq := fq }
  | some .writeActivated => (s.lb.activated p).map fun lb => { s with lb := lb }
  | some .pipeTerminated =>
    (s.fq.pipeTerminated p).bind fun fq => (s.lb.pipeTerminated p).map fun lb =>
      { s with fq := fq, lb := lb }

def command (s : Dealer π α) (p : π) : Option (Dealer π α) :=
  match s.pipes p with
  | none => some s
  | some pair =>
    match pair.mail true with
    | [] => some s
    | command :: _ =>
      (pair.act true .command).bind fun next =>
        let s := { s with pipes := Function.update s.pipes p (some next) }
        s.notified p ((pair.pipeEnd true).notifies command)

def remote (s : Dealer π α) (p : π) (act : PipeAct α) : Option (Dealer π α) :=
  match s.pipes p with
  | none => some s
  | some pair => (pair.act false act).map fun next =>
    { s with pipes := Function.update s.pipes p (some next) }

/-- The watermarks of every pair of pipes are given. -/
def step (hwms : π → Bool → Nat) (s : Dealer π α) : DealerEvent π α → Option (Dealer π α)
  | .attach p => s.attach (hwms p) p
  | .recv => s.recv
  | .hasIn => s.hasIn
  | .send body more => s.send (.msg body more false false)
  | .hasOut => s.hasOut
  | .terminate p delay => s.terminate p delay
  | .command p => s.command p
  | .remote p act => s.remote p act

end Dealer

end OfxZeroMQ
