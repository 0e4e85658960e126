import OfxZeroMQ.Foundation.Lifetime
import OfxZeroMQ.Model.Socket

/-!
# Broker

The worker thread of `Broker` forwards messages between a router and a dealer socket, while
messages arrive at both and their peers come and go.
-/
namespace OfxZeroMQ

open Foundation Foundation.Framing

inductive Side where
  | router
  | dealer
deriving DecidableEq

def Side.other : Side → Side
  | router => dealer
  | dealer => router

/-- A socket of the broker, with the messages that have arrived at it and those the worker
has dequeued from it. -/
structure BrokerSocket where
  inbox : Inbox
  outbox : Outbox
  arrived : List MultipartMessage
  dequeued : List MultipartMessage

def BrokerSocket.fresh : BrokerSocket := ⟨⟨[], []⟩, .idle, [], []⟩

/-- Where the worker stands; the two inner loops are the same up to the side. -/
inductive BrokerPc where
  -- `while(is_running)`
  | top
  -- `while(socket.hasWaitingMessage())`
  | poll (source : Side)
  -- `source.receiveMultipart(m)`
  | receive (source : Side)
  -- `target.sendMultipart(std::move(m))`
  | send (source : Side)
  | sleep
  | finished
deriving DecidableEq

structure Broker where
  sockets : Side → BrokerSocket
  pc : BrokerPc
  -- the local variable of the loop body
  m : MultipartMessage
  isRunning : Bool

namespace Broker

def setup : Broker := ⟨fun _ => .fresh, .top, [], true⟩

def update (s : Broker) (side : Side) (socket : BrokerSocket) : Broker :=
  { s with sockets := Function.update s.sockets side socket }

inductive Event where
  -- a message of one frame or more arrives
  | arrival (side : Side) (first : Bytes) (others : List Bytes)
  -- the worker takes a step; `room i` is what the socket would answer to the `i`-th frame
  | worker (room : Nat → Bool)
  -- `~Broker`
  | stop

def arrive (s : Broker) (side : Side) (message : MultipartMessage) : Broker :=
  let socket := s.sockets side
  s.update side { socket with
    inbox := { socket.inbox with queue := socket.inbox.queue ++ mark message }
    arrived := socket.arrived ++ [message] }

/-- `0 < zmq::poll(&item, 1, 0)` -/
def hasWaitingMessage (s : Broker) (side : Side) : Bool := !(s.sockets side).inbox.queue.isEmpty

/-- The result of the call is ignored. -/
def receive (s : Broker) (source : Side) : Broker :=
  let socket := s.sockets source
  let received := socket.inbox.receiveMessage .default
  { s.update source { socket with
      inbox := received.inbox
      dequeued := socket.dequeued ++ [received.message] } with m := received.message }

/-- The result of the call is ignored; the message has been moved out of `m`. -/
def send (s : Broker) (source : Side) (room : Nat → Bool) : Broker :=
  let socket := s.sockets source.other
  let outbox := match socket.outbox.sendMultipart default room
      [⟨CppType.multipart.unspecialized, .rvalue, s.m⟩] with
    | .ok (_, outbox) => outbox
    | .error _ => socket.outbox
  { s.update source.other { socket with outbox := outbox } with m := [] }

def worker (s : Broker) (room : Nat → Bool) : Option Broker :=
  match s.pc with
  | .top => some { s with m := [], pc := if s.isRunning then .poll .router else .finished }
  | .poll source =>
    if s.hasWaitingMessage source then some { s with pc := .receive source }
    else match source with
      | .router => some { s with pc := .poll .dealer }
      | .dealer => some { s with pc := .sleep }
  | .receive source => some { s.receive source with pc := .send source }
  | .send source => some { s.send source room with pc := .poll source }
  | .sleep => some { s with pc := .top }
  | .finished => none

def step (s : Broker) : Event → Option Broker
  | .arrival side first others => some (s.arrive side (first :: others))
  | .worker room => s.worker room
  | .stop => some { s with isRunning := false }

/-! ### Lifetime -/

/-- A call of `setup`, which throws what either of its two binds throws. -/
inductive Setup where
  | routerThrows
  | dealerThrows
  | succeeds
deriving DecidableEq

def Setup.attempt : Setup → Lifetime.Attempt
  | routerThrows | dealerThrows => .fails
  | succeeds => .starts

/-- What a worker thread has for itself. -/
structure Thread where
  pc : BrokerPc
  m : MultipartMessage

structure Arrival where
  side : Side
  first : Bytes
  others : List Bytes

/-- `receiveMultipart` waits when another worker has taken the message. -/
def blocks (s : Broker) : Bool :=
  match s.pc with
  | .receive source => !s.hasWaitingMessage source
  | _ => false

/-- `setup` and the threads it starts; `is_running` and `is_finish` are the two flags. -/
def loop : Lifetime.Loop (Side → BrokerSocket) Thread (Nat → Bool) Arrival where
  stores := [.finished false, .running true]
  entry := ⟨.top, []⟩
  step isRunning sockets thread room :=
    let s : Broker := ⟨sockets, thread.pc, thread.m, isRunning⟩
    if s.blocks then none
    else (s.worker room).map fun t =>
      (t.sockets, if t.pc = .finished then none else some ⟨t.pc, t.m⟩)
  traffic sockets e :=
    ((⟨sockets, .top, [], true⟩ : Broker).arrive e.side (e.first :: e.others)).sockets

/-- A broker as it is constructed, with the flags uninitialized, and the calls of `setup` that
its owner will make. -/
def constructed (flags : Lifetime.Flags) (setups : List Setup) :
    Lifetime.State (Side → BrokerSocket) Thread :=
  Lifetime.initial flags (fun _ => .fresh) (setups.map Setup.attempt)

end Broker

end OfxZeroMQ
