import OfxZeroMQ.Foundation.Buffer

/-!
# Messages

`ofxZeroMQ::Message` is one frame: a byte buffer with range-checked copies in and out of
it. Every check adds an offset and a length in `std::size_t`, that is modulo 2^64.
-/
namespace OfxZeroMQ

open Foundation.Buffer

abbrev Bytes := List UInt8

/-- The object representation of an object of `n` bytes. -/
def Object (n : Nat) : Type := { bytes : Bytes // bytes.length = n }

def Object.bytes {n : Nat} (o : Object n) : Bytes := o.val

/-- `n` bytes read from memory as an object. -/
def Object.ofBytes (n : Nat) (bytes : Bytes) : Object n :=
  ⟨(List.range n).map fun i => bytes.getD i 0, by simp⟩

@[simp] theorem Object.length_bytes {n : Nat} (o : Object n) : o.bytes.length = n := o.property

@[ext] theorem Object.ext {n : Nat} {o p : Object n} (h : o.bytes = p.bytes) : o = p :=
  Subtype.ext h

theorem map_getD_range (bytes : Bytes) :
    ((List.range bytes.length).map fun i => bytes.getD i 0) = bytes := by
  apply List.ext_getElem
  · simp
  · intro i _ h
    simp [List.getD_eq_getElem?_getD, List.getElem?_eq_getElem h]

theorem Object.bytes_ofBytes (n : Nat) (bytes : Bytes) (size : bytes.length = n) :
    (Object.ofBytes n bytes).bytes = bytes := by
  subst size
  exact map_getD_range bytes

@[simp] theorem Object.ofBytes_bytes {n : Nat} (o : Object n) : Object.ofBytes n o.bytes = o :=
  Object.ext (Object.bytes_ofBytes n o.bytes o.length_bytes)

/-- Memory the program has not written: a fresh message buffer (`zmq_msg_init_size` does
not clear it), an uninitialized local variable, and whatever follows the last byte of a
message. -/
structure Memory where
  fresh : Nat → UInt8
  stack : Nat → UInt8
  past : Nat → UInt8
deriving Inhabited

def Memory.uninitialized (mem : Memory) (count : Nat) : Bytes :=
  (List.range count).map mem.stack

/-- The `count` bytes that `memcpy` reads from `offset` on; past the end of the buffer it
reads whatever lies there. -/
def Memory.read (mem : Memory) (data : Bytes) (offset count : Nat) : Bytes :=
  (List.range count).map fun i => data.getD (offset + i) (mem.past (offset + i - data.length))

theorem Memory.length_read (mem : Memory) (data : Bytes) (offset count : Nat) :
    (mem.read data offset count).length = count := by
  simp [Memory.read]

theorem Memory.read_eq_slice (mem : Memory) (data : Bytes) (offset count : Nat)
    (fits : offset + count ≤ data.length) :
    mem.read data offset count = slice data offset count := by
  apply List.ext_getElem
  · simp [Memory.read, length_slice data offset count fits]
  · intro i h _
    have inside : offset + i < data.length := by
      simp only [Memory.read, List.length_map, List.length_range] at h
      omega
    simp [Memory.read, slice, List.getD_eq_getElem?_getD, List.getElem?_eq_getElem inside]

theorem Memory.read_whole (mem : Memory) (data : Bytes) :
    mem.read data 0 data.length = data := by
  rw [mem.read_eq_slice data 0 data.length (by omega), slice_whole]

theorem Memory.read_object (mem : Memory) {n : Nat} (o : Object n) :
    mem.read o.bytes 0 n = o.bytes := by
  simpa using mem.read_whole o.bytes

theorem Memory.head?_read (mem : Memory) (first : UInt8) (rest : Bytes) (count : Nat) :
    (mem.read (first :: rest) 0 (count + 1)).head? = some first := by
  rw [Memory.read, List.range_succ_eq_map, List.map_cons, List.head?_cons, List.getD_cons_zero]

/-- A fresh buffer need not hold what it is to be filled with, whatever its length. -/
theorem Memory.exists_fresh_ne (bytes : Bytes) (nonempty : bytes ≠ []) (n : Nat) :
    ∃ mem : Memory, (List.range n).map mem.fresh ≠ bytes := by
  refine ⟨⟨fun i => bytes.getD i 0 + 1, fun _ => 0, fun _ => 0⟩, fun same => ?_⟩
  have length : n = bytes.length := by simpa using congrArg List.length same
  have positive : 0 < n := length ▸ List.length_pos_iff.mpr nonempty
  have first := congrArg (·.getD 0 0) same
  simp [List.getD_eq_getElem?_getD, List.getElem?_range positive] at first

/-- The value of a `std::size_t` expression. -/
def sizeT (n : Nat) : Nat := n % UInt64.size

structure Message where
  data : Bytes
deriving DecidableEq

namespace Message

/-- `Message() = default` -/
def empty : Message := ⟨[]⟩

def size (m : Message) : Nat := m.data.length

/-- `zmq::message_t::rebuild(size_t)`: what the new buffer holds is up to the memory, be it a fresh
one or the one in the object that held the bytes before. -/
def rebuildSize (mem : Memory) (_m : Message) (size : Nat) : Message :=
  ⟨(List.range size).map mem.fresh⟩

/-- `zmq::message_t::rebuild(const void *, size_t)` -/
def rebuild (_m : Message) (data : Bytes) : Message := ⟨data⟩

@[simp] theorem data_rebuild (m : Message) (data : Bytes) : (m.rebuild data).data = data := rfl

@[simp] theorem size_rebuildSize (mem : Memory) (m : Message) (size : Nat) :
    (m.rebuildSize mem size).data.length = size := by
  simp [rebuildSize]

/-! ### Copying into a message -/

/-- The body the three copies into a message share: the number of bytes copied, and the
message afterwards. -/
def copyIn (m : Message) (v : Bytes) (offset : Nat) : Nat × Message :=
  if m.size < sizeT (offset + v.length) then (0, m)
  else (v.length, ⟨patch m.data offset v⟩)

def memCopyFrom (m : Message) (v : Bytes) (offset : Nat) : Nat × Message := m.copyIn v offset

def copyFrom {n : Nat} (m : Message) (v : Object n) (offset : Nat) : Nat × Message :=
  m.copyIn v.bytes offset

/-- `copyFrom(const type (&)[array_size], offset)` -/
def copyFromArray {n : Nat} (m : Message) (v : List (Object n)) (offset : Nat) : Nat × Message :=
  m.copyIn (v.map Object.bytes).flatten offset

/-- `detail::calc_size` of a list of fields, each given by its object representation. -/
def calcSize : List Bytes → Nat
  | [] => 0
  | v :: vs => v.length + calcSize vs

/-- `set_impl`: a field that does not fit ends the walk. -/
def setImpl (m : Message) (cursor : Nat) : List Bytes → Nat × Message
  | [] => (0, m)
  | [v] => m.copyIn v cursor
  | v :: w :: vs =>
    let (s, copied) := m.copyIn v cursor
    if 0 < s then
      let (rest, final) := copied.setImpl (cursor + s) (w :: vs)
      (s + rest, final)
    else (s, copied)

def set (mem : Memory) (m : Message) (vs : List Bytes) : Nat × Message :=
  (m.rebuildSize mem (calcSize vs)).setImpl 0 vs

/-! ### Copying out of a message -/

/-- The body the three copies out of a message share: `old` is the destination, and a
refused copy leaves it alone. -/
def copyOut (mem : Memory) (m : Message) (old : Bytes) (offset : Nat) : Nat × Bytes :=
  if m.size < sizeT (offset + old.length) then (0, old)
  else (old.length, mem.read m.data offset old.length)

def setToImpl (mem : Memory) (m : Message) (cursor : Nat) : List Bytes → Nat × List Bytes
  | [] => (0, [])
  | [v] =>
    let (s, written) := m.copyOut mem v cursor
    (s, [written])
  | v :: w :: vs =>
    let (s, written) := m.copyOut mem v cursor
    if 0 < s then
      let (rest, others) := m.setToImpl mem (cursor + s) (w :: vs)
      (s + rest, written :: others)
    else (s, written :: w :: vs)

def setTo (mem : Memory) (m : Message) (vs : List Bytes) : Nat × List Bytes :=
  m.setToImpl mem 0 vs

/-! ### What the copies do when the range is inside the message -/

theorem sizeT_le (n : Nat) : sizeT n ≤ n := Nat.mod_le n _

theorem copyIn_append (done old v rest : Bytes) (same : old.length = v.length) :
    copyIn ⟨done ++ (old ++ rest)⟩ v done.length = (v.length, ⟨done ++ (v ++ rest)⟩) := by
  have fits : ¬ (done ++ (old ++ rest)).length < sizeT (done.length + v.length) := by
    have bound := sizeT_le (done.length + v.length)
    simp only [List.length_append]
    omega
  simp only [copyIn, size, if_neg fits, patch_append done old v rest same]

theorem memCopyFrom_whole (m : Message) (v : Bytes) (same : m.data.length = v.length) :
    m.memCopyFrom v 0 = (v.length, ⟨v⟩) := by
  simpa [memCopyFrom] using copyIn_append [] m.data v [] same

theorem copyOut_append (mem : Memory) (done v rest old : Bytes) (same : old.length = v.length) :
    copyOut mem ⟨done ++ (v ++ rest)⟩ old done.length = (v.length, v) := by
  have inside : done.length + v.length ≤ (done ++ (v ++ rest)).length := by
    simp only [List.length_append]
    omega
  have fits : ¬ (done ++ (v ++ rest)).length < sizeT (done.length + v.length) := by
    have bound := sizeT_le (done.length + v.length)
    omega
  simp only [copyOut, size, same, if_neg fits, mem.read_eq_slice _ _ _ inside, slice_append]

/-- Behind the cursor stand the fields already written; the rest of the buffer has exactly
the room of the fields to come. -/
theorem setImpl_append (done old : Bytes) (vs : List Bytes) (nonempty : vs ≠ [])
    (sized : ∀ v ∈ vs, v ≠ []) (room : old.length = calcSize vs) :
    setImpl ⟨done ++ old⟩ done.length vs = (calcSize vs, ⟨done ++ vs.flatten⟩) := by
  induction vs generalizing done old with
  | nil => exact absurd rfl nonempty
  | cons v vs ih =>
    have split : old = old.take v.length ++ old.drop v.length :=
      (List.take_append_drop v.length old).symm
    have enough : v.length ≤ old.length := by simp only [calcSize] at room; omega
    have first : (old.take v.length).length = v.length := by simp [enough]
    have copied := copyIn_append done (old.take v.length) v (old.drop v.length) first
    rw [← split] at copied
    cases vs with
    | nil =>
      have nothing : old.drop v.length = [] := by
        apply List.drop_eq_nil_of_le
        simp only [calcSize] at room
        omega
      simp only [setImpl, copied, nothing, calcSize, List.flatten_cons, List.flatten_nil,
        Nat.add_zero, List.append_nil]
    | cons w vs =>
      have positive : 0 < v.length := List.length_pos_iff.mpr (sized v (by simp))
      have rest := ih (done ++ v) (old.drop v.length) (by simp)
        (fun u member => sized u (by simp [member]))
        (by rw [List.length_drop, room]; simp [calcSize])
      simp only [List.length_append, List.append_assoc] at rest
      simp only [setImpl, copied, if_pos positive, rest, calcSize, List.flatten_cons]

/-- `set` lays the fields out one after the other and never takes its failure branch. -/
theorem set_eq (mem : Memory) (m : Message) (vs : List Bytes) (nonempty : vs ≠ [])
    (sized : ∀ v ∈ vs, v ≠ []) : m.set mem vs = (calcSize vs, ⟨vs.flatten⟩) := by
  simpa [set] using
    setImpl_append [] (m.rebuildSize mem (calcSize vs)).data vs nonempty sized (by simp)

/-- Reading fields back from behind the cursor. -/
theorem setToImpl_append (mem : Memory) (done : Bytes) (vs olds : List Bytes)
    (nonempty : vs ≠ []) (sized : ∀ v ∈ vs, v ≠ [])
    (same : olds.map List.length = vs.map List.length) :
    setToImpl mem ⟨done ++ vs.flatten⟩ done.length olds = (calcSize vs, vs) := by
  induction vs generalizing done olds with
  | nil => exact absurd rfl nonempty
  | cons v vs ih =>
    cases olds with
    | nil => simp at same
    | cons old olds =>
      simp only [List.map_cons, List.cons.injEq] at same
      have read := copyOut_append mem done v vs.flatten old same.1
      cases vs with
      | nil =>
        have last : olds = [] := by simpa using same.2
        subst last
        simp only [setToImpl, List.flatten_cons, read, calcSize, Nat.add_zero]
      | cons w vs =>
        obtain ⟨next, olds, rfl⟩ : ∃ next rest, olds = next :: rest := by
          cases olds with
          | nil => simp at same
          | cons next rest => exact ⟨next, rest, rfl⟩
        have positive : 0 < v.length := List.length_pos_iff.mpr (sized v (by simp))
        have rest := ih (done ++ v) (next :: olds) (by simp)
          (fun u member => sized u (by simp [member])) same.2
        simp only [List.length_append, List.append_assoc] at rest
        rw [List.flatten_cons]
        simp only [setToImpl, read, if_pos positive, rest, calcSize]

theorem setTo_eq (mem : Memory) (vs olds : List Bytes) (nonempty : vs ≠ [])
    (sized : ∀ v ∈ vs, v ≠ []) (same : olds.map List.length = vs.map List.length) :
    setTo mem ⟨vs.flatten⟩ olds = (calcSize vs, vs) := by
  simpa [setTo] using setToImpl_append mem [] vs olds nonempty sized same

end Message

end OfxZeroMQ
