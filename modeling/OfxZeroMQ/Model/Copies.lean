import OfxZeroMQ.Model.Types

/-!
# Checked copies

The six copies of `Message` under their own names, with the range of the message that each
of them hands to `memcpy`, and `set` and `setTo` on typed fields: an array selects another
overload of the copies than a single object.
-/
namespace OfxZeroMQ

open Foundation.Buffer

/-- The elements of an array after `memcpy` of its size into it. -/
def overwriteArray {n : Nat} : List (Object n) → Bytes → List (Object n)
  | [], _ => []
  | _ :: others, bytes =>
    Object.ofBytes n (bytes.take n) :: overwriteArray others (bytes.drop n)

namespace Message

def memCopyTo (mem : Memory) (m : Message) (v : Bytes) (offset : Nat) : Nat × Bytes :=
  m.copyOut mem v offset

/-- `copyTo(type &, offset)` -/
def copyToObject {n : Nat} (mem : Memory) (m : Message) (v : Object n) (offset : Nat) :
    Nat × Object n :=
  let (s, written) := m.copyOut mem v.bytes offset
  (s, Object.ofBytes n written)

/-- `copyTo(type (&)[array_size], offset)` -/
def copyToArray {n : Nat} (mem : Memory) (m : Message) (v : List (Object n)) (offset : Nat) :
    Nat × List (Object n) :=
  let (s, written) := m.copyOut mem (v.map Object.bytes).flatten offset
  (s, overwriteArray v written)

/-- The range of the message that a checked copy of `count` bytes hands to `memcpy`. -/
def range (m : Message) (count offset : Nat) : Option Span :=
  if m.size < sizeT (offset + count) then none else some ⟨offset, count⟩

theorem copyOut_eq_range (mem : Memory) (m : Message) (old : Bytes) (offset : Nat) :
    m.copyOut mem old offset = match m.range old.length offset with
      | none => (0, old)
      | some s => (s.count, mem.read m.data s.offset s.count) := by
  simp only [copyOut, range]
  split <;> rfl

end Message

/-! ### The six copies -/

/-- A call of one of the copies with its source, or with what its destination holds. -/
inductive CopyCall where
  | memCopyFrom (v : Bytes)
  | copyFrom {n : Nat} (v : Object n)
  | copyFromArray {n : Nat} (v : List (Object n))
  | memCopyTo (v : Bytes)
  | copyTo {n : Nat} (v : Object n)
  | copyToArray {n : Nat} (v : List (Object n))

/-- What a call returns, and the message and the object representation of the other argument
afterwards. -/
structure CopyResult where
  returned : Nat
  message : Message
  object : Bytes
deriving DecidableEq

namespace CopyCall

def object : CopyCall → Bytes
  | memCopyFrom v | memCopyTo v => v
  | copyFrom v | copyTo v => v.bytes
  | copyFromArray v | copyToArray v => (v.map Object.bytes).flatten

/-- `value_size`, or `value_size * array_size` -/
def count (c : CopyCall) : Nat := c.object.length

def writesMessage : CopyCall → Bool
  | memCopyFrom _ | copyFrom _ | copyFromArray _ => true
  | memCopyTo _ | copyTo _ | copyToArray _ => false

/-- Where `offset + count` wraps around, the check passes and `memcpy` starts before the message:
`Message.range` says which bytes it touches. What such a copy leaves in the message is not
followed, and the message stays as it was. -/
def run (mem : Memory) (m : Message) (offset : Nat) (c : CopyCall) : CopyResult :=
  match c with
  | memCopyFrom v =>
    let (s, m) := m.memCopyFrom v offset
    ⟨s, m, c.object⟩
  | copyFrom v =>
    let (s, m) := m.copyFrom v offset
    ⟨s, m, c.object⟩
  | copyFromArray v =>
    let (s, m) := m.copyFromArray v offset
    ⟨s, m, c.object⟩
  | memCopyTo v =>
    let (s, v) := m.memCopyTo mem v offset
    ⟨s, m, v⟩
  | copyTo v =>
    let (s, v) := m.copyToObject mem v offset
    ⟨s, m, v.bytes⟩
  | copyToArray v =>
    let (s, v) := m.copyToArray mem v offset
    ⟨s, m, (v.map Object.bytes).flatten⟩

end CopyCall

/-! ### `set` and `setTo` -/

/-- An argument of `set` or `setTo`. -/
inductive Field where
  | scalar (e : ElementType) (v : Object e.size)
  | array (e : ElementType) (v : List (Object e.size)) (nonempty : v ≠ [])

inductive FieldType where
  | scalar (e : ElementType)
  | array (e : ElementType) (count : Nat)

/-- `sizeof` -/
def FieldType.size : FieldType → Nat
  | scalar e => e.size
  | array e count => e.size * count

theorem overwriteArray_ne_nil {n : Nat} (v : List (Object n)) (bytes : Bytes)
    (nonempty : v ≠ []) : overwriteArray v bytes ≠ [] := by
  cases v with
  | nil => exact absurd rfl nonempty
  | cons first others => simp [overwriteArray]

namespace Field

def type : Field → FieldType
  | scalar e _ => .scalar e
  | array e v _ => .array e v.length

/-- The object representation. -/
def bytes : Field → Bytes
  | scalar _ v => v.bytes
  | array _ v _ => (v.map Object.bytes).flatten

/-- `sizeof(type)` -/
def size : Field → Nat
  | scalar e _ => e.size
  | array e v _ => e.size * v.length

def copyFrom (m : Message) (cursor : Nat) : Field → Nat × Message
  | scalar _ v => m.copyFrom v cursor
  | array _ v _ => m.copyFromArray v cursor

def copyTo (mem : Memory) (m : Message) (cursor : Nat) : Field → Nat × Field
  | scalar e v =>
    let (s, v) := m.copyToObject mem v cursor
    (s, scalar e v)
  | array e v nonempty =>
    let copied := m.copyToArray mem v cursor
    (copied.1, array e copied.2 (overwriteArray_ne_nil v _ nonempty))

end Field

namespace Fields

/-- `detail::calc_size`; the arguments of a call do not add up to 2^64 bytes. -/
def calcSize : List Field → Nat
  | [] => 0
  | v :: vs => v.size + calcSize vs

def setImpl (m : Message) (cursor : Nat) : List Field → Nat × Message
  | [] => (0, m)
  | [v] => v.copyFrom m cursor
  | v :: w :: vs =>
    let (s, copied) := v.copyFrom m cursor
    if 0 < s then
      let (rest, final) := setImpl copied (cursor + s) (w :: vs)
      (s + rest, final)
    else (s, copied)

def set (mem : Memory) (m : Message) (vs : List Field) : Nat × Message :=
  setImpl (m.rebuildSize mem (calcSize vs)) 0 vs

def setToImpl (mem : Memory) (m : Message) (cursor : Nat) : List Field → Nat × List Field
  | [] => (0, [])
  | [v] =>
    let (s, written) := v.copyTo mem m cursor
    (s, [written])
  | v :: w :: vs =>
    let (s, written) := v.copyTo mem m cursor
    if 0 < s then
      let (rest, others) := setToImpl mem m (cursor + s) (w :: vs)
      (s + rest, written :: others)
    else (s, written :: w :: vs)

def setTo (mem : Memory) (m : Message) (vs : List Field) : Nat × List Field :=
  setToImpl mem m 0 vs

end Fields

end OfxZeroMQ
