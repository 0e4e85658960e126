import OfxZeroMQ.Model.EntryPoint

/-!
# Handing over a whole message

An encoding call whose argument is itself a message, followed on both sides: what it leaves
in the `Message` it fills, and what in the message it was given.
-/
namespace OfxZeroMQ

open Foundation.Buffer

/-- `dest.move(src)`, that is `zmq_msg_move(&dest, &src)`: `dest` is closed and takes over the
content of `src`, which is left empty. -/
def Message.move (_dest src : Message) : Message × Message := (src, .empty)

/-- The message a call fills and the one it was given. -/
structure Transfer where
  filled : Message
  given : Message
deriving DecidableEq

/-- What a constructor makes of a message that is being initialized. -/
def MessageCtor.handOver (mem : Memory) (t : Transfer) : MessageCtor → Option Transfer
  -- `rebuild(mom.size()); std::memcpy(data(), mom.data(), mom.size());`
  | .base =>
    let rebuilt := t.filled.rebuildSize mem t.given.size
    some ⟨⟨patch rebuilt.data 0 t.given.data⟩, t.given⟩
  -- `mom.move(*this)`
  | .baseRvalue =>
    let (mom, filled) := t.given.move t.filled
    some ⟨filled, mom⟩
  -- `zmq::message_t(message_t &&rhs)` copies the handle and initializes that of `rhs`
  | .move => some ⟨t.given, .empty⟩
  | _ => none

/-- The overloads that take a message all copy from a const reference. -/
def ToOverload.handOver (mem : Memory) (t : Transfer) : ToOverload → Option Transfer
  | .zmqMessage => some ⟨ToZmqMessage.zmqMessage mem t.filled t.given.data, t.given⟩
  | .message => some ⟨ToZmqMessage.message mem t.filled t.given.data, t.given⟩
  | _ => none

def Encoder.handOver (mem : Memory) (t : Transfer) : Encoder → Option Transfer
  | .ctor f => f.handOver mem t
  | .overload f => f.handOver mem t
  | .user => none

/-- The types of a whole message. -/
inductive MessageType where
  | zmqMessage
  | message
deriving DecidableEq

namespace MessageType

def type : MessageType → CppType
  | zmqMessage => .zmqMessage
  | message => .message

/-- A message that holds `bytes`, as an argument. -/
def argument (c : Category) (bytes : Bytes) : MessageType → Argument
  | zmqMessage => ⟨CppType.zmqMessage.unspecialized, c, bytes⟩
  | message => ⟨CppType.message.unspecialized, c, bytes⟩

end MessageType

/-- A chain of calls that starts at `call` with the message `t.given`. -/
def handOver (mem : Memory) (k : MessageType) (c : Category) (call : Call) (t : Transfer) :
    Except Stuck Transfer :=
  match call.resolve k.type.unspecialized c with
  | none => .error .diverges
  | some .illFormed => .error .illFormed
  | some (.encoder e) => match e.handOver mem t with
    | some t => .ok t
    | none => .error .illFormed

/-- The calls that hand over a message `x`. -/
inductive Handover where
  -- `Message{x}`
  | construct
  -- `m = x`
  | assign (m : Message)
  -- `m.from(x)`
  | fromValue (m : Message)
  -- `parts.addArgument(x)`
  | addArgument (parts : MultipartMessage)
  -- `parts.addArguments(before ..., x, after ...)`
  | addArguments (parts : MultipartMessage) (before after : List Argument)

namespace Handover

def entryPoint : Handover → EntryPoint
  | construct => .construct
  | assign _ => .assign
  | fromValue _ => .fromValue
  | addArgument _ => .addArgument
  | addArguments _ before after => .addArguments before after

/-- The message that `x` is handed over to, as the encoding call finds it. -/
def target : Handover → Message
  | assign m | fromValue m => m
  | _ => .empty

/-- The encoding call that `x` reaches. -/
def transfer (mem : Memory) (k : MessageType) (c : Category) (bytes : Bytes) (h : Handover) :
    Except Stuck Transfer :=
  handOver mem k (h.entryPoint.category c) h.entryPoint.call ⟨h.target, ⟨bytes⟩⟩

/-- The message or the frame that a call makes of `x`, which holds `bytes`, and the bytes it
leaves in `x`. -/
def run (mem : Memory) (k : MessageType) (c : Category) (bytes : Bytes) (h : Handover) :
    Except Stuck (Option Bytes × Bytes) :=
  match h with
  | construct | assign _ | fromValue _ => do
    let t ← h.transfer mem k c bytes
    return (some t.filled.data, t.given.data)
  | addArgument parts => do
    let t ← h.transfer mem k c bytes
    let made ← MultipartMessage.addArgument mem parts (k.argument c bytes)
    return (made[parts.length]?, t.given.data)
  | addArguments parts before after => do
    let t ← h.transfer mem k c bytes
    let made ← MultipartMessage.addArguments mem parts (before ++ k.argument c bytes :: after)
    return (made[parts.length + before.length]?, t.given.data)

end Handover

end OfxZeroMQ
