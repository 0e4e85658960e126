import Mathlib.Logic.Function.Basic
import OfxZeroMQ.Model.Dispatch

/-!
# Assignments between messages

A pool of `Message` objects that are assigned to each other. Source and target of an assignment
may be one object, and then the encoder copies from the buffer it has just rebuilt: what is left
of the bytes depends on where the object held them.
-/
namespace OfxZeroMQ

open Foundation.Buffer

/-- `msg_t::max_vsm_size`, with pointers of eight bytes. -/
def maxVsmSize : Nat := 64 - (8 + 3 + 16 + 4)

/-- A message object, with the place where it holds its bytes. -/
inductive MessageObject where
  -- `type_vsm`: the first `size` bytes of `vsm.data`, a buffer in the object itself
  | vsm (data : Object maxVsmSize) (size : Fin (maxVsmSize + 1))
  -- `type_lmsg`, `type_zclmsg` and `type_cmsg`: the object points to its bytes
  | pointed (content : Bytes)

namespace MessageObject

def data : MessageObject → Bytes
  | vsm data size => data.bytes.take size
  | pointed content => content

def size (m : MessageObject) : Nat := m.data.length

def isVsm : MessageObject → Bool
  | vsm _ _ => true
  | pointed _ => false

/-- `_u.vsm.data`; behind a pointer to the content it is whatever bytes the object has there. -/
def vsmData (mem : Memory) : MessageObject → Object maxVsmSize
  | vsm data _ => data
  | pointed _ => Object.ofBytes maxVsmSize ((List.range maxVsmSize).map mem.fresh)

/-- `zmq::message_t::rebuild(size_t)`: `zmq_msg_close` invalidates the type, and
`zmq_msg_init_size` sets the type and the size. Neither writes to `vsm.data`. -/
def rebuildSize (mem : Memory) (m : MessageObject) (size : Nat) : MessageObject :=
  if small : size ≤ maxVsmSize then vsm (m.vsmData mem) ⟨size, Nat.lt_succ_of_le small⟩
  else pointed ((List.range size).map mem.fresh)

/-- `std::memcpy((char *)data() + offset, v, value_size)` -/
def write (offset : Nat) (v : Bytes) : MessageObject → MessageObject
  | vsm data size => vsm (Object.ofBytes maxVsmSize (patch data.bytes offset v)) size
  | pointed content => pointed (patch content offset v)

/-- `Message::memCopyFrom`, without its result. -/
def memCopyFrom (m : MessageObject) (v : Bytes) (offset : Nat) : MessageObject :=
  if m.size < sizeT (offset + v.length) then m else m.write offset v

end MessageObject

abbrev Pool (n : Nat) := Fin n → MessageObject

/-- `m[target] = m[source]`, or `m[target] = std::move(m[source])`. -/
structure Assignment (n : Nat) where
  target : Fin n
  source : Fin n
  moved : Bool
deriving DecidableEq

def Assignment.category {n : Nat} (a : Assignment n) : Category :=
  if a.moved then .rvalue else .lvalue

namespace Pool

variable {n : Nat}

/-- `to_zmq_message(Message &, const zmq::message_t &)` for two objects of the pool: the size of
`data` is read before `m` is rebuilt, its bytes are read afterwards. -/
def zmqMessage (mem : Memory) (pool : Pool n) (m data : Fin n) : Pool n :=
  let rebuilt := Function.update pool m ((pool m).rebuildSize mem (pool data).size)
  -- `memcpy` of a buffer onto itself leaves it as it is
  Function.update rebuilt m ((rebuilt m).memCopyFrom (rebuilt data).data 0)

def message (mem : Memory) (pool : Pool n) (m data : Fin n) : Pool n := zmqMessage mem pool m data

/-- `Message::operator=`, as far as the overload that it ends in. -/
def assign (mem : Memory) (pool : Pool n) (a : Assignment n) : Option (Pool n) :=
  match Call.assign.resolve CppType.message.unspecialized a.category with
  | some (.encoder (.overload .message)) => some (pool.message mem a.target a.source)
  | _ => none

end Pool

end OfxZeroMQ
