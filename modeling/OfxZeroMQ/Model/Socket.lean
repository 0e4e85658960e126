import OfxZeroMQ.Foundation.Framing
import OfxZeroMQ.Model.Multipart

/-!
# Sockets

The sending and the receiving side of a socket, as far as one thread that owns it can see
them, and the member functions of `Socket` on top.
-/
namespace OfxZeroMQ

open Foundation.Framing

abbrev Flags := BitVec 32

def ZMQ_DONTWAIT : Flags := 1#32
def ZMQ_SNDMORE : Flags := 2#32

def Flags.has (flags bit : Flags) : Bool := flags &&& bit != 0#32

/-- `SendFlag::operator zmq::send_flags` -/
def SendFlag.toFlags (f : SendFlag) : Flags :=
  (if f.more then ZMQ_SNDMORE else 0#32) ||| (if f.nonblocking then ZMQ_DONTWAIT else 0#32)

def SendFlag.default : SendFlag := ⟨true, false⟩

/-- `ReceiveFlag::operator zmq::recv_flags` -/
def ReceiveFlag.toFlags (f : ReceiveFlag) : Flags :=
  if f.nonblocking then ZMQ_DONTWAIT else 0#32

def ReceiveFlag.default : ReceiveFlag := ⟨true⟩

/-! ### Sending -/

structure SendCall where
  frame : Bytes
  flags : Flags
deriving DecidableEq

/-- The sending side of a socket: what it has taken, and the calls made so far. -/
structure Outbox where
  assembly : Assembly Bytes
  calls : List SendCall
deriving DecidableEq

def Outbox.idle : Outbox := ⟨⟨[], []⟩, []⟩

/-- `socket_base::send(message_t &, send_flags)`. `room` says whether the socket can take the
frame at once: without room a non-blocking call fails with `EAGAIN` and leaves nothing of
the unfinished message queued, and a blocking call returns when there is room. -/
def Outbox.send (o : Outbox) (room : Bool) (frame : Bytes) (flags : Flags) :
    Option Nat × Outbox :=
  let calls := o.calls ++ [⟨frame, flags⟩]
  if room || !flags.has ZMQ_DONTWAIT then
    (some (min frame.length (2 ^ 31 - 1)),
      ⟨o.assembly.push (frame, flags.has ZMQ_SNDMORE), calls⟩)
  else (none, ⟨{ o.assembly with pending := [] }, calls⟩)

/-- The loop of `zmq::multipart_t::send`: a frame is taken out of the message before it is
sent. `room i` is what the socket answers to the `i`-th frame. -/
def MultipartMessage.sendLoop (flags : Flags) (room : Nat → Bool) :
    MultipartMessage → Outbox → Bool × MultipartMessage × Outbox
  | [], o => (true, [], o)
  | message :: parts, o =>
    match o.send (room 0) message ((if parts.isEmpty then 0#32 else ZMQ_SNDMORE) ||| flags) with
    | (none, o) => (false, parts, o)
    | (some _, o) => sendLoop flags (fun i => room (i + 1)) parts o

/-- `zmq::multipart_t::send(socket, flags)`: the result, what is left of the message, and the
socket. -/
def MultipartMessage.send (parts : MultipartMessage) (room : Nat → Bool) (flags : Flags)
    (o : Outbox) : Bool × MultipartMessage × Outbox :=
  parts.sendLoop (flags &&& ~~~ZMQ_SNDMORE) room o

/-- `Socket::send(const type &, nonblocking, more)`, which takes no pointers. -/
def Outbox.sendValue (mem : Memory) (o : Outbox) (room : Bool) (t : Convertible)
    (data : t.type.Val) (flag : SendFlag) : Except Stuck (Option Nat × Outbox) :=
  if t.type.isPointer then .error .illFormed
  else do
    let m ← encode mem ⟨t, .constLvalue, data⟩ .construct
    return o.send room m flag.toFlags

/-- `zmq::send_result_t` from the `bool` that `multipart_t::send` returns. -/
def sendResult (sent : Bool) : Option Nat := some (if sent then 1 else 0)

/-- `Socket::send(MultipartMessage &, nonblocking, more)` -/
def Outbox.sendMessage (o : Outbox) (room : Nat → Bool) (mess : MultipartMessage)
    (flag : SendFlag) : Option Nat × MultipartMessage × Outbox :=
  let (sent, rest, o) := mess.send room flag.toFlags o
  (sendResult sent, rest, o)

/-! ### Flags at the end of an argument list -/

/-- A type as `decltype` reports it. -/
inductive Decltype where
  | object (t : CppType)
  | rvalueReference (t : CppType)

/-- `decltype(std::get<i>(std::tuple<...>{}))`: `std::get` on a temporary tuple returns an
rvalue reference to the element. -/
def Decltype.ofTupleElement (t : CppType) : Decltype := .rvalueReference t

/-- `std::is_same<..., SendFlag>` -/
def Decltype.isSendFlag : Decltype → Bool
  | .object .sendFlag => true
  | _ => false

def Decltype.isReceiveFlag : Decltype → Bool
  | .object .receiveFlag => true
  | _ => false

def lastArgIsSendFlag (types : List CppType) : Bool :=
  match types.getLast? with
  | some t => (Decltype.ofTupleElement t).isSendFlag
  | none => false

def lastArgIsReceiveFlag (types : List CppType) : Bool :=
  match types.getLast? with
  | some t => (Decltype.ofTupleElement t).isReceiveFlag
  | none => false

/-- Both traits build a tuple of the decayed types and need at least one. -/
def traitCompiles (types : List CppType) : Bool :=
  !types.isEmpty && types.all CppType.isDefaultConstructible

def argumentTypes (data : List Argument) : List CppType := data.map fun a => a.type.type

/-- The flag that `sendMultipart` finds at the end of its arguments. -/
def lastSendFlag (data : List Argument) : SendFlag :=
  match data.getLast? with
  | some ⟨⟨.sendFlag, _⟩, _, flag⟩ => flag
  | _ => .default

/-- The message and the flag of `sendMultipart(data ...)`: the two overloads differ in the
flag only. -/
def multipartToSend (mem : Memory) (data : List Argument) :
    Except Stuck (MultipartMessage × SendFlag) :=
  if traitCompiles (argumentTypes data) then do
    let message ← MultipartMessage.construct mem data
    if lastArgIsSendFlag (argumentTypes data) then
      return (message, lastSendFlag data)
    else return (message, .default)
  else .error .illFormed

/-- `Socket::sendMultipart(data ...)` -/
def Outbox.sendMultipart (mem : Memory) (o : Outbox) (room : Nat → Bool)
    (data : List Argument) : Except Stuck (Option Nat × Outbox) := do
  let (message, flag) ← multipartToSend mem data
  let (sent, _, o) := message.send room flag.toFlags o
  return (sendResult sent, o)

/-! ### Receiving -/

/-- The receiving side of a socket: the frames of the queued messages, each with its MORE
bit, and the flags of the calls made so far. -/
structure Inbox where
  queue : List (Bytes × Bool)
  calls : List Flags
deriving DecidableEq

/-- The outcome of `zmq::multipart_t::recv`; `returned` is `none` while a blocking call waits. -/
structure Received where
  returned : Option Bool
  message : MultipartMessage
  inbox : Inbox

def MultipartMessage.recvLoop (flags : Flags) (calls : List Flags) :
    List (Bytes × Bool) → MultipartMessage → Received
  | [], parts =>
    ⟨if flags.has ZMQ_DONTWAIT then some false else none, parts, ⟨[], calls ++ [flags]⟩⟩
  | (message, more) :: queue, parts =>
    if more then recvLoop flags (calls ++ [flags]) queue (parts ++ [message])
    else ⟨some true, parts ++ [message], ⟨queue, calls ++ [flags]⟩⟩

/-- `zmq::multipart_t::recv(socket, flags)` clears the message first. -/
def Inbox.recv (i : Inbox) (flags : Flags) : Received :=
  MultipartMessage.recvLoop flags i.calls i.queue []

/-- `Socket::receiveMultipart(MultipartMessage &, flags)` -/
def Inbox.receiveMessage (i : Inbox) (flags : ReceiveFlag) : Received := i.recv flags.toFlags

/-- `Socket::receive(type &, flags)`: one frame is received, with `flags` that are a local
variable nothing initializes. The result says whether more frames follow, and is `none` while
the call waits. -/
def Inbox.receiveValue (mem : Memory) (i : Inbox) (flags : Flags) (data : Destination) :
    Option Bool × Destination × Inbox :=
  match i.queue with
  | [] => (if flags.has ZMQ_DONTWAIT then some false else none, data, ⟨[], i.calls ++ [flags]⟩)
  | (m, more) :: queue => (some more, data.store mem m, ⟨queue, i.calls ++ [flags]⟩)

/-- Whether `receive(data)` selects the overload for one value: `MultipartMessage` and `Message`
have overloads of their own, and that for `Message` returns a pair instead. -/
def Convertible.isReceivable (t : Convertible) : Bool :=
  t.isDecodable && match t.type with
    | .message | .multipart => false
    | _ => true

/-- `receive(data)` -/
def Inbox.receive (mem : Memory) (i : Inbox) (flags : Flags) (data : Destination) :
    Except Stuck (Option Bool × Destination × Inbox) :=
  if data.type.isReceivable then .ok (i.receiveValue mem flags data) else .error .illFormed

/-- A call of `receive(data)`: the memory and the `flags` it finds, and its destination. -/
structure ReceiveCall where
  memory : Memory
  flags : Flags
  data : Destination

/-- Whether `receive(data, flags)` selects the overload for one value: that for `Message` takes
no flags, so that only `MultipartMessage` has another one. -/
def Convertible.isReceivableWithFlag (t : Convertible) : Bool :=
  t.isDecodable && match t.type with
    | .multipart => false
    | _ => true

/-- `receive(data, flags)`: the parameter is not passed on, and the socket is called with
`uninitialized`, the local variable `flags` of `receive(Message &)`. -/
def Inbox.receiveWith (mem : Memory) (uninitialized : Flags) (i : Inbox) (_flags : ReceiveFlag)
    (data : Destination) : Except Stuck (Option Bool × Destination × Inbox) :=
  if data.type.isReceivableWithFlag then .ok (i.receiveValue mem uninitialized data)
  else .error .illFormed

/-- `receive(d1)`, `receive(d2)`, ... up to the first call that returns false: the number of
calls, all destinations and the socket. `none` stands for a call that does not compile, or
waits, and for a message that has more frames than there are destinations. -/
def Inbox.receiveWhileMore : Inbox → List ReceiveCall → Option (Nat × List Destination × Inbox)
  | _, [] => none
  | i, c :: cs => match i.receive c.memory c.flags c.data with
    | .ok (some false, data, i) => some (1, data :: cs.map ReceiveCall.data, i)
    | .ok (some true, data, i) =>
      (i.receiveWhileMore cs).map fun (made, others, i) => (made + 1, data :: others, i)
    | _ => none

/-- A call of `receiveMultipart(data ...)`. -/
structure MultipartCall where
  memory : Memory
  data : List Destination

def destinationTypes (data : List Destination) : List CppType := data.map fun d => d.type.type

/-- Whether `receiveMultipart(data ...)` compiles. -/
def receiveCompiles (data : List Destination) : Bool :=
  traitCompiles (destinationTypes data) && data.all (fun d => d.type.isDecodable) &&
    (lastArgIsReceiveFlag (destinationTypes data) ||
      ConvertTo.isAccessible (destinationTypes data))

/-- `Socket::receiveMultipart(types & ...)`: both overloads receive with the default flag. The
result is `none` where the call returns without a value. -/
def Inbox.receiveMultipart (mem : Memory) (i : Inbox) (data : List Destination) :
    Except Stuck (Option Bool × List Destination × Inbox) :=
  if receiveCompiles data then
    let received := i.receiveMessage .default
    if lastArgIsReceiveFlag (destinationTypes data) then
      let (result, data) :=
        received.message.rangedConvertTo mem 0 (data.length - 1) data
      .ok (result, data, received.inbox)
    else
      let (result, data) := received.message.convertToFrom mem 0 data
      .ok (some result, data, received.inbox)
  else .error .illFormed

end OfxZeroMQ
