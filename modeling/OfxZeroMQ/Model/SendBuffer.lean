import OfxZeroMQ.Model.Socket

/-!
# `send(buffer, n)`

`Socket::send` has an overload for a pointer and a length, and a template for a value and the
flag `nonblocking`. The types of both arguments decide which of them the call selects.
-/
namespace OfxZeroMQ

open Foundation.Overload

/-- The first argument: a pointer to some bytes, or an array such as a string literal. -/
inductive SendBuffer where
  | pointer (address : Object 8) (bytes : Bytes)
  | array (e : ElementType) (count : Nat) (v : Object (e.size * count))

namespace SendBuffer

def type : SendBuffer → CppType
  | pointer _ _ => .pointer
  | array e count _ => .array e count

def value : (b : SendBuffer) → b.type.Val
  | pointer address bytes => ⟨address, bytes⟩
  | array _ _ v => v

/-- The bytes of the buffer. -/
def bytes : SendBuffer → Bytes
  | pointer _ bytes => bytes
  | array _ _ v => v.bytes

end SendBuffer

/-- The second argument. -/
inductive Length where
  | int (n : Int32)
  | sizeT (n : UInt64)

namespace Length

/-- The value after the conversion to `std::size_t`. -/
def toSizeT : Length → Nat
  | int n => (n.toInt % UInt64.size).toNat
  | sizeT n => n.toNat

/-- The value after the conversion to `bool`. -/
def toBool : Length → Bool
  | int n => n != 0
  | sizeT n => n != 0

def toSizeTRank : Length → Rank
  | int _ => .conversion
  | sizeT _ => .exact

def toBoolRank : Length → Rank
  | int _ | sizeT _ => .conversion

end Length

/-- The overloads of `Socket::send` that take a buffer and a length; a `MultipartMessage &` binds
to neither kind of buffer. -/
inductive SendOverload where
  -- `send(const void *, std::size_t, bool = true, bool = false)`
  | bytes
  -- `send(const type &, bool = true, bool = false)`, for a `type` that is no pointer
  | value
deriving DecidableEq

namespace SendOverload

def all : List SendOverload := [bytes, value]

def template : SendOverload → Option Nat
  | bytes => none
  | value => some 0

def conversions (b : SendBuffer) (length : Length) : SendOverload → Option (List Conversion)
  -- the pointer, or the array that decays to one, is converted to `const void *`
  | bytes => some [⟨.conversion, none⟩, ⟨length.toSizeTRank, none⟩]
  | value =>
    if b.type.isPointer then none
    else some [⟨.exact, some ⟨false, true⟩⟩, ⟨length.toBoolRank, none⟩]

def selected (b : SendBuffer) (length : Length) : Option SendOverload :=
  selectCall all template (conversions b length)

end SendOverload

/-- `Socket::send(const void *data, std::size_t length, nonblocking, more)` -/
def Outbox.sendBytes (mem : Memory) (o : Outbox) (room : Bool) (data : Bytes) (length : Nat)
    (flag : SendFlag) : Option Nat × Outbox :=
  -- `Message{data, length}`
  let m : Message := ⟨mem.read data 0 length⟩
  o.send room m.data flag.toFlags

/-- `send(buffer, length)` -/
def Outbox.sendBuffer (mem : Memory) (o : Outbox) (room : Bool) (b : SendBuffer)
    (length : Length) : Except Stuck (Option Nat × Outbox) :=
  match SendOverload.selected b length with
  | some .bytes => .ok (o.sendBytes mem room b.bytes length.toSizeT .default)
  | some .value => o.sendValue mem room b.type.unspecialized b.value ⟨length.toBool, false⟩
  | none => .error .illFormed

end OfxZeroMQ
