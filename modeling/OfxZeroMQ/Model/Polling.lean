import OfxZeroMQ.Foundation.Transition
import OfxZeroMQ.Model.Socket

/-!
# Polling

`hasWaitingMessage` polls the socket and leaves the answer in `item.revents`, which
`getNextMessage` and `getNextMessages` look at. No other function touches it.
-/
namespace OfxZeroMQ

open Foundation.Framing

/-- The receiving side of a `Socket`. -/
structure Socket where
  inbox : Inbox
  -- whether `item.revents` has `ZMQ_POLLIN`
  revents : Bool
deriving DecidableEq

namespace Socket

/-- `Socket(int type)` -/
def fresh : Socket := ⟨⟨[], []⟩, false⟩

/-- `zmq::poll` resets `revents` and sets `ZMQ_POLLIN` if something is queued. A message that
arrives while the poll waits counts as one that came before. -/
def hasWaitingMessage (s : Socket) : Bool × Socket :=
  let queued := !s.inbox.queue.isEmpty
  (queued, { s with revents := queued })

/-- `receive(data)`; `flags` is what the local variable of `receive(Message &)` holds. -/
def receive (mem : Memory) (s : Socket) (flags : Flags) (data : Destination) :
    Except Stuck (Option Bool × Destination × Socket) := do
  let (result, data, inbox) ← s.inbox.receive mem flags data
  return (result, data, { s with inbox := inbox })

/-- `receive(MultipartMessage &, flags)` and `receiveMultipart(MultipartMessage &, flags)` -/
def receiveMessage (s : Socket) (flags : ReceiveFlag) :
    Option Bool × MultipartMessage × Socket :=
  let received := s.inbox.receiveMessage flags
  (received.returned, received.message, { s with inbox := received.inbox })

/-- `receiveMultipart(data ...)` -/
def receiveMultipart (mem : Memory) (s : Socket) (data : List Destination) :
    Except Stuck (Option Bool × List Destination × Socket) := do
  let (result, data, inbox) ← s.inbox.receiveMultipart mem data
  return (result, data, { s with inbox := inbox })

/-- `getNextMessage(data)` -/
def getNextMessage (mem : Memory) (s : Socket) (flags : Flags) (data : Destination) :
    Except Stuck (Option Bool × Destination × Socket) :=
  if data.type.isReceivable then
    if s.revents then s.receive mem flags data else .ok (some false, data, s)
  else .error .illFormed

/-- `getNextMessage(message)` of a `MultipartMessage` -/
def getNextMultipart (s : Socket) (message : MultipartMessage) :
    Option Bool × MultipartMessage × Socket :=
  if s.revents then s.receiveMessage .default else (some false, message, s)

/-- `getNextMessages(data ...)`; the result is converted to `std::size_t`. -/
def getNextMessages (mem : Memory) (s : Socket) (data : List Destination) :
    Except Stuck (Option Bool × List Destination × Socket) :=
  if receiveCompiles data then
    if s.revents then s.receiveMultipart mem data else .ok (some false, data, s)
  else .error .illFormed

end Socket

/-- What happens to a socket: a message arrives, or its owner calls a function. -/
inductive SocketEvent where
  | arrive (first : Bytes) (others : List Bytes)
  | hasWaitingMessage
  | receive (c : ReceiveCall)
  | receiveMessage (flags : ReceiveFlag)
  | receiveMultipart (c : MultipartCall)
  | getNextMessage (c : ReceiveCall)
  | getNextMultipart (message : MultipartMessage)
  | getNextMessages (c : MultipartCall)

namespace SocketEvent

/-- What a call returned and the socket, without what it wrote. -/
def withoutData {α : Type 1} :
    Except Stuck (Option Bool × α × Socket) → Except Stuck (Option Bool × Socket)
  | .ok (result, _, s) => .ok (result, s)
  | .error e => .error e

/-- What a call returned, `none` while it waits, and the socket after the event. -/
def outcome (s : Socket) : SocketEvent → Except Stuck (Option Bool × Socket)
  | arrive first others =>
    .ok (some true, { s with inbox := { s.inbox with
      queue := s.inbox.queue ++ mark (first :: others) } })
  | hasWaitingMessage =>
    let (result, s) := s.hasWaitingMessage
    .ok (some result, s)
  | receive c => withoutData (s.receive c.memory c.flags c.data)
  | receiveMessage flags =>
    let (result, _, s) := s.receiveMessage flags
    .ok (result, s)
  | receiveMultipart c => withoutData (s.receiveMultipart c.memory c.data)
  | getNextMessage c => withoutData (s.getNextMessage c.memory c.flags c.data)
  | getNextMultipart message =>
    let (result, _, s) := s.getNextMultipart message
    .ok (result, s)
  | getNextMessages c => withoutData (s.getNextMessages c.memory c.data)

/-- The owner goes on when the call has returned. -/
def step (s : Socket) (e : SocketEvent) : Option Socket :=
  match e.outcome s with
  | .ok (some _, s) => some s
  | _ => none

end SocketEvent

end OfxZeroMQ
