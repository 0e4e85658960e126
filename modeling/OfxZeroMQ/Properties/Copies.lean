import OfxZeroMQ.Foundation.Layout
import OfxZeroMQ.Model.Access
import OfxZeroMQ.Model.Copies

/-!
# What the checked copies do

The six copies compare `offset + size` with the size of the message modulo 2^64: they are
exact unless that sum wraps around. `set` and `setTo` never get that far, whose cursor stays
inside the message.
-/
namespace OfxZeroMQ

open Foundation.Buffer Foundation.Layout

/-! ### Arrays -/

theorem length_overwriteArray {n : Nat} (v : List (Object n)) (bytes : Bytes) :
    (overwriteArray v bytes).length = v.length := by
  induction v generalizing bytes with
  | nil => rfl
  | cons first others ih => simp [overwriteArray, ih]

theorem flatten_overwriteArray {n : Nat} (v : List (Object n)) (bytes : Bytes)
    (size : bytes.length = (v.map Object.bytes).flatten.length) :
    ((overwriteArray v bytes).map Object.bytes).flatten = bytes := by
  induction v generalizing bytes with
  | nil =>
    have nothing : bytes = [] := List.length_eq_zero_iff.mp (by simpa using size)
    simp [overwriteArray, nothing]
  | cons first others ih =>
    simp only [List.map_cons, List.flatten_cons, List.length_append, Object.length_bytes] at size
    have head : (bytes.take n).length = n := by
      rw [List.length_take]
      omega
    have tail : (bytes.drop n).length = (others.map Object.bytes).flatten.length := by
      rw [List.length_drop]
      omega
    rw [overwriteArray, List.map_cons, List.flatten_cons, Object.bytes_ofBytes n _ head,
      ih _ tail, List.take_append_drop]

theorem overwriteArray_flatten {n : Nat} (v w : List (Object n)) (same : v.length = w.length) :
    overwriteArray v (w.map Object.bytes).flatten = w := by
  induction v generalizing w with
  | nil =>
    obtain rfl : w = [] := List.length_eq_zero_iff.mp same.symm
    rfl
  | cons first others ih =>
    cases w with
    | nil => simp at same
    | cons object objects =>
      have rest := ih objects (by simpa using same)
      have head : object.bytes.length = n := object.length_bytes
      rw [List.map_cons, List.flatten_cons, overwriteArray, List.take_left' head,
        List.drop_left' head, rest, Object.ofBytes_bytes]

/-! ### The six copies -/

theorem Message.length_copyOut (mem : Memory) (m : Message) (old : Bytes) (offset : Nat) :
    (m.copyOut mem old offset).2.length = old.length := by
  simp only [Message.copyOut]
  split
  · rfl
  · exact mem.length_read m.data offset old.length

namespace CopyCall

/-- The range of the message that the call touches. -/
def touched (m : Message) (offset : Nat) (c : CopyCall) : Option Span := m.range c.count offset

/-- A copy into the message or out of it, whatever the type of the other argument. -/
theorem run_eq (mem : Memory) (m : Message) (offset : Nat) (c : CopyCall) :
    c.run mem m offset =
      if c.writesMessage then
        ⟨(m.copyIn c.object offset).1, (m.copyIn c.object offset).2, c.object⟩
      else ⟨(m.copyOut mem c.object offset).1, m, (m.copyOut mem c.object offset).2⟩ := by
  have size (v : Bytes) := m.length_copyOut mem v offset
  cases c with
  | memCopyFrom v | copyFrom v | copyFromArray v | memCopyTo v => rfl
  | @copyTo n v =>
    simp only [run, Message.copyToObject, object, writesMessage, Bool.false_eq_true, if_false]
    rw [Object.bytes_ofBytes n _ (by rw [size, v.length_bytes])]
  | copyToArray v =>
    simp only [run, Message.copyToArray, object, writesMessage, Bool.false_eq_true, if_false]
    rw [flatten_overwriteArray v _ (size _)]

/-- All bytes of the range are copied, and nothing else changes. -/
def Copied (m : Message) (offset : Nat) (c : CopyCall) (r : CopyResult) : Prop :=
  r.returned = c.count ∧
    if c.writesMessage then
      r.object = c.object ∧ r.message.size = m.size ∧
        ∀ i, r.message.data[i]? =
          if offset ≤ i ∧ i < offset + c.count then c.object[i - offset]? else m.data[i]?
    else
      r.message = m ∧ r.object.length = c.count ∧
        ∀ i < c.count, r.object[i]? = m.data[offset + i]?

/-- The whole range is copied if it is inside the message, and else nothing; no byte outside
the message is touched. -/
structure Exact (mem : Memory) (m : Message) (offset : Nat) (c : CopyCall) : Prop where
  copied : offset + c.count ≤ m.size → c.Copied m offset (c.run mem m offset)
  refused : m.size < offset + c.count → c.run mem m offset = ⟨0, m, c.object⟩
  inside : ∀ s ∈ c.touched m offset, s.Inside m.data

theorem run_refused (mem : Memory) (m : Message) (offset : Nat) (c : CopyCall)
    (outside : m.size < sizeT (offset + c.count)) : c.run mem m offset = ⟨0, m, c.object⟩ := by
  rw [run_eq, Message.copyIn, Message.copyOut, ← count, if_pos outside, if_pos outside]
  split <;> rfl

theorem run_copied (mem : Memory) (m : Message) (offset : Nat) (c : CopyCall)
    (fits : offset + c.count ≤ m.size) : c.Copied m offset (c.run mem m offset) := by
  have passes : ¬ m.size < sizeT (offset + c.count) := by
    have bound := Message.sizeT_le (offset + c.count)
    omega
  have inside : offset + c.object.length ≤ m.data.length := fits
  rw [run_eq, Message.copyIn, Message.copyOut, ← count, if_neg passes, if_neg passes]
  cases writes : c.writesMessage with
  | true =>
    simp only [Copied, writes, if_true]
    exact ⟨trivial, trivial, length_patch m.data c.object offset,
      fun i => getElem?_patch m.data c.object offset i inside⟩
  | false =>
    simp only [Copied, writes, Bool.false_eq_true, if_false]
    refine ⟨trivial, trivial, mem.length_read m.data offset c.count, fun i less => ?_⟩
    rw [mem.read_eq_slice m.data offset c.count inside]
    exact getElem?_slice m.data offset c.count i less

/-- The check in machine words refuses a range that is not inside the message, unless its end
has wrapped around to somewhere inside. -/
theorem refuses_iff (size offset count : Nat) (offsetFits : offset < UInt64.size)
    (countFits : count < UInt64.size) (sizeFits : size < UInt64.size) :
    size < sizeT (offset + count) ↔
      size < offset + count ∧
        (UInt64.size ≤ offset + count → size < offset + count - UInt64.size) := by
  simp only [sizeT, UInt64.size] at *
  omega

end CopyCall

/-- The copies are exact but for an offset whose sum with the number of bytes, taken modulo
2^64, is no larger than the size of the message. -/
theorem copy_exact_iff (mem : Memory) (m : Message) (offset : UInt64) (c : CopyCall)
    (sizeFits : m.size < UInt64.size) (countFits : c.count < UInt64.size) :
    c.Exact mem m offset.toNat ↔
      (UInt64.size ≤ offset.toNat + c.count →
        m.size < offset.toNat + c.count - UInt64.size) := by
  have refuses := CopyCall.refuses_iff m.size offset.toNat c.count offset.toNat_lt countFits
    sizeFits
  constructor
  · intro exact wraps
    have outside : m.size < offset.toNat + c.count := by omega
    apply Classical.byContradiction
    intro small
    have passed : ¬ m.size < sizeT (offset.toNat + c.count) :=
      fun refused => small ((refuses.mp refused).2 wraps)
    -- the range is not inside, so one of its bytes is behind the last one of the message
    have inside := exact.inside ⟨offset.toNat, c.count⟩ (if_neg passed)
      (max offset.toNat m.size) (Nat.le_max_left _ _)
    simp only [Message.size, UInt64.size] at inside outside wraps
    have bound := offset.toNat_lt
    omega
  · intro far
    refine ⟨c.run_copied mem m offset.toNat, fun outside => ?_, fun s touched i lower upper => ?_⟩
    · exact c.run_refused mem m offset.toNat (refuses.mpr ⟨outside, far⟩)
    · by_cases refused : m.size < sizeT (offset.toNat + c.count)
      · simp [CopyCall.touched, Message.range, refused] at touched
      · simp only [CopyCall.touched, Message.range, if_neg refused, Option.mem_def,
          Option.some.injEq] at touched
        subst touched
        have fits : ¬ m.size < offset.toNat + c.count :=
          fun outside => refused (refuses.mpr ⟨outside, far⟩)
        exact Nat.lt_of_lt_of_le upper (Nat.not_lt.mp fits)

/-- With an offset just below 2^64 the check passes, and `memcpy` starts far outside. -/
theorem memCopyFrom_wraps :
    (CopyCall.memCopyFrom [7, 8]).touched ⟨[0, 0, 0, 0]⟩ 18446744073709551615 =
        some ⟨18446744073709551615, 2⟩ ∧
      ((CopyCall.memCopyFrom [7, 8]).run default ⟨[0, 0, 0, 0]⟩ 18446744073709551615).returned =
        2 ∧
      ¬ (CopyCall.memCopyFrom [7, 8]).Exact default ⟨[0, 0, 0, 0]⟩ 18446744073709551615 := by
  refine ⟨by decide, by decide, fun exact => ?_⟩
  have inside := exact.inside ⟨18446744073709551615, 2⟩ (by decide) 18446744073709551615
    (Nat.le_refl _) (by decide)
  exact absurd inside (by decide)

/-- Two objects of two bytes, copied behind the first byte of a message of five. -/
theorem copyFromArray_exact :
    (CopyCall.copyFromArray [Object.ofBytes 2 [1, 2], Object.ofBytes 2 [3, 4]]).Exact default
      ⟨[0, 0, 0, 0, 0]⟩ (1 : UInt64).toNat :=
  (copy_exact_iff default ⟨[0, 0, 0, 0, 0]⟩ 1
    (.copyFromArray [Object.ofBytes 2 [1, 2], Object.ofBytes 2 [3, 4]])
    (by decide) (by decide)).mpr (by decide)

/-! ### Fields -/

namespace Field

@[simp] theorem length_bytes (f : Field) : f.bytes.length = f.size := by
  cases f with
  | scalar e v => exact v.length_bytes
  | array e v nonempty =>
    rw [bytes, FromZmqMessage.length_flatten_bytes, Nat.mul_comm]
    rfl

theorem size_positive (f : Field) : 0 < f.size := by
  cases f with
  | scalar e v => exact e.positive
  | array e v nonempty => exact Nat.mul_pos e.positive (List.length_pos_iff.mpr nonempty)

theorem bytes_ne_nil (f : Field) : f.bytes ≠ [] := by
  apply List.ne_nil_of_length_pos
  rw [length_bytes]
  exact f.size_positive

@[simp] theorem size_type (f : Field) : f.type.size = f.size := by
  cases f <;> rfl

theorem eq_of_bytes_eq (f g : Field) (same : f.type = g.type) (bytes : f.bytes = g.bytes) :
    f = g := by
  cases f with
  | scalar e v =>
    cases g with
    | scalar e' w =>
      cases same
      have values : v = w := Object.ext bytes
      rw [values]
    | array e' w nonempty => cases same
  | array e v nonempty =>
    cases g with
    | scalar e' w => cases same
    | array e' w nonempty' =>
      simp only [type, FieldType.array.injEq] at same
      obtain ⟨rfl, count⟩ := same
      have values : v = w :=
        calc v = overwriteArray w (v.map Object.bytes).flatten :=
              (overwriteArray_flatten w v count.symm).symm
          _ = overwriteArray w (w.map Object.bytes).flatten := congrArg (overwriteArray w) bytes
          _ = w := overwriteArray_flatten w w rfl
      subst values
      rfl

theorem copyFrom_eq (m : Message) (cursor : Nat) (f : Field) :
    f.copyFrom m cursor = m.copyIn f.bytes cursor := by
  cases f <;> rfl

theorem copyTo_eq (mem : Memory) (m : Message) (cursor : Nat) (f : Field) :
    (f.copyTo mem m cursor).1 = (m.copyOut mem f.bytes cursor).1 ∧
      (f.copyTo mem m cursor).2.bytes = (m.copyOut mem f.bytes cursor).2 ∧
      (f.copyTo mem m cursor).2.type = f.type := by
  have size := m.length_copyOut mem f.bytes cursor
  cases f with
  | scalar e v =>
    exact ⟨rfl, Object.bytes_ofBytes e.size _ (size.trans v.length_bytes), rfl⟩
  | array e v nonempty =>
    refine ⟨rfl, flatten_overwriteArray v _ size, ?_⟩
    exact congrArg (FieldType.array e) (length_overwriteArray v _)

end Field

namespace Fields

theorem calcSize_eq (vs : List Field) : calcSize vs = Message.calcSize (vs.map Field.bytes) := by
  induction vs with
  | nil => rfl
  | cons v vs ih => simp [calcSize, Message.calcSize, ih]

theorem calcSize_eq_sum (vs : List Field) : calcSize vs = (vs.map Field.size).sum := by
  induction vs with
  | nil => rfl
  | cons v vs ih => simp [calcSize, ih]

theorem setImpl_eq (m : Message) (cursor : Nat) (vs : List Field) :
    setImpl m cursor vs = m.setImpl cursor (vs.map Field.bytes) := by
  induction vs generalizing m cursor with
  | nil => rfl
  | cons v vs ih =>
    cases vs with
    | nil => exact v.copyFrom_eq m cursor
    | cons w vs =>
      simp only [setImpl, v.copyFrom_eq, ih, List.map_cons, Message.setImpl]

/-- The fields of the result are those whose bytes the walk over bytes writes. -/
theorem setToImpl_eq (mem : Memory) (m : Message) (cursor : Nat) (ds : List Field) :
    (setToImpl mem m cursor ds).1 = (m.setToImpl mem cursor (ds.map Field.bytes)).1 ∧
      (setToImpl mem m cursor ds).2.map Field.bytes =
        (m.setToImpl mem cursor (ds.map Field.bytes)).2 ∧
      (setToImpl mem m cursor ds).2.map Field.type = ds.map Field.type := by
  induction ds generalizing cursor with
  | nil => exact ⟨rfl, rfl, rfl⟩
  | cons d ds ih =>
    obtain ⟨count, bytes, type⟩ := d.copyTo_eq mem m cursor
    cases ds with
    | nil => simp [setToImpl, Message.setToImpl, count, bytes, type]
    | cons other others =>
      simp only [setToImpl, List.map_cons, Message.setToImpl, count]
      split
      · obtain ⟨counts, written, types⟩ := ih (cursor + (m.copyOut mem d.bytes cursor).1)
        simp only [List.map_cons] at counts written types
        simp [counts, written, types, bytes, type]
      · simp [bytes, type]

theorem eq_of_bytes_eq (ds vs : List Field) (types : ds.map Field.type = vs.map Field.type)
    (bytes : ds.map Field.bytes = vs.map Field.bytes) : ds = vs := by
  induction ds generalizing vs with
  | nil =>
    cases vs with
    | nil => rfl
    | cons v vs => simp at types
  | cons d ds ih =>
    cases vs with
    | nil => simp at types
    | cons v vs =>
      simp only [List.map_cons, List.cons.injEq] at types bytes
      rw [Field.eq_of_bytes_eq d v types.1 bytes.1, ih vs types.2 bytes.2]

theorem map_size_eq (ds vs : List Field) (types : ds.map Field.type = vs.map Field.type) :
    ds.map Field.size = vs.map Field.size := by
  have sizes (fs : List Field) : fs.map Field.size = (fs.map Field.type).map FieldType.size := by
    simp [Function.comp_def]
  rw [sizes, sizes, types]

theorem bytes_ne_nil (vs : List Field) : ∀ v ∈ vs.map Field.bytes, v ≠ [] := by
  intro v member
  obtain ⟨f, _, rfl⟩ := List.mem_map.mp member
  exact f.bytes_ne_nil

theorem set_eq (mem : Memory) (m : Message) (vs : List Field) (nonempty : vs ≠ []) :
    set mem m vs = ((vs.map Field.size).sum, ⟨(vs.map Field.bytes).flatten⟩) := by
  rw [set, setImpl_eq, ← calcSize_eq_sum, calcSize_eq]
  exact Message.set_eq mem m (vs.map Field.bytes) (by simpa using nonempty)
    (bytes_ne_nil vs)

theorem setTo_eq (mem : Memory) (vs ds : List Field) (nonempty : vs ≠ [])
    (types : ds.map Field.type = vs.map Field.type) :
    setTo mem ⟨(vs.map Field.bytes).flatten⟩ ds = ((vs.map Field.size).sum, vs) := by
  have lengths : (ds.map Field.bytes).map List.length = (vs.map Field.bytes).map List.length := by
    simpa [Function.comp_def] using map_size_eq ds vs types
  have read := Message.setTo_eq mem (vs.map Field.bytes) (ds.map Field.bytes)
    (by simpa using nonempty) (bytes_ne_nil vs) lengths
  obtain ⟨count, bytes, type⟩ :=
    setToImpl_eq mem ⟨(vs.map Field.bytes).flatten⟩ 0 ds
  rw [Message.setTo] at read
  rw [read] at count bytes
  apply Prod.ext
  · rw [setTo, count, ← calcSize_eq, calcSize_eq_sum]
  · exact eq_of_bytes_eq _ vs (type.trans types) bytes

end Fields

/-- `set` lays the fields out one after the other, `set` of two lists makes the two contents one
after the other, and `setTo` reads every field back. -/
theorem set_setTo (sender : Memory) (m : Message) (vs : List Field) (nonempty : vs ≠ []) :
    (Fields.set sender m vs).1 = (vs.map Field.size).sum ∧
      (Fields.set sender m vs).2.size = (vs.map Field.size).sum ∧
      (Fields.set sender m vs).2.data = (vs.map Field.bytes).flatten ∧
      (∀ (other : Memory) (n : Message) (ws : List Field), ws ≠ [] →
        (Fields.set sender m (vs ++ ws)).2.data =
          (Fields.set sender m vs).2.data ++ (Fields.set other n ws).2.data) ∧
      ∀ (receiver : Memory) (ds : List Field), ds.map Field.type = vs.map Field.type →
        Fields.setTo receiver (Fields.set sender m vs).2 ds = ((vs.map Field.size).sum, vs) := by
  rw [Fields.set_eq sender m vs nonempty]
  refine ⟨rfl, ?_, rfl, fun other n ws some => ?_, fun receiver ds types => ?_⟩
  · simp [Message.size, List.length_flatten, Function.comp_def]
  · rw [Fields.set_eq sender m (vs ++ ws) (by simp [nonempty]), Fields.set_eq other n ws some]
    simp
  · exact Fields.setTo_eq receiver vs ds nonempty types

/-- A one-byte scalar and an array of two 16-bit elements. -/
theorem set_setTo_array :
    let fields : List Field := [.scalar ⟨1, Nat.one_pos⟩ ⟨[9], rfl⟩,
      .array ⟨2, Nat.two_pos⟩ [⟨[1, 0], rfl⟩, ⟨[2, 0], rfl⟩] (List.cons_ne_nil _ _)]
    (Fields.set default .empty fields).2.data = [9, 1, 0, 2, 0] ∧
      (Fields.set default .empty fields).1 = 5 := by
  intro fields
  obtain ⟨count, _, data, _⟩ := set_setTo default .empty fields (List.cons_ne_nil _ _)
  exact ⟨data, count⟩

/-! ### A frame of any length -/

namespace Message

/-- The check of a copy that starts inside the message does not wrap around. -/
theorem copyOut_inside (mem : Memory) (m : Message) (old : Bytes) (cursor : Nat)
    (inside : cursor ≤ m.size) (addressable : m.size + old.length < UInt64.size) :
    m.copyOut mem old cursor =
      if old.length ≤ m.size - cursor then (old.length, slice m.data cursor old.length)
      else (0, old) := by
  have exact : sizeT (cursor + old.length) = cursor + old.length := by
    simp only [sizeT]
    apply Nat.mod_eq_of_lt
    omega
  rw [copyOut, exact]
  by_cases fits : old.length ≤ m.size - cursor
  · have range : cursor + old.length ≤ m.data.length := by
      simp only [size] at fits inside
      omega
    rw [if_neg (by omega), if_pos fits, mem.read_eq_slice m.data cursor old.length range]
  · rw [if_pos (by omega), if_neg fits]

/-- `set_to_impl` fills the fields that fit behind the cursor, and leaves the others. -/
theorem setToImpl_eq (mem : Memory) (m : Message) (cursor : Nat) (olds : List Bytes)
    (inside : cursor ≤ m.size) (sized : ∀ old ∈ olds, old ≠ [])
    (addressable : ∀ old ∈ olds, m.size + old.length < UInt64.size) :
    let sizes := olds.map List.length
    let p := fitting (m.size - cursor) sizes
    m.setToImpl mem cursor olds =
      (start sizes p, pieces m.data cursor (sizes.take p) ++ olds.drop p) := by
  induction olds generalizing cursor with
  | nil => rfl
  | cons old olds ih =>
    have copied := m.copyOut_inside mem old cursor inside (addressable old (by simp))
    have positive : 0 < old.length := List.length_pos_iff.mpr (sized old (by simp))
    simp only [List.map_cons, fitting]
    by_cases fits : old.length ≤ m.size - cursor
    · rw [if_pos fits] at copied
      have rest := ih (cursor + old.length) (by omega)
        (fun v member => sized v (by simp [member]))
        (fun v member => addressable v (by simp [member]))
      rw [if_pos fits, start_cons, List.take_succ_cons, pieces, List.drop_succ_cons]
      rw [← Nat.sub_sub] at rest
      cases olds with
      | nil => simp [setToImpl, copied, fitting, pieces]
      | cons other others =>
        simp only [setToImpl, copied, if_pos positive, rest, List.cons_append]
    · -- a field that does not fit ends the walk
      rw [if_neg fits] at copied
      rw [if_neg fits]
      cases olds with
      | nil => simp [setToImpl, copied, pieces]
      | cons other others => simp [setToImpl, copied, pieces]

end Message

namespace Fields

/-- `setTo` on typed fields: what it returns, and type and bytes of every field afterwards. -/
theorem setTo_filled (mem : Memory) (m : Message) (ds : List Field)
    (addressable : ∀ d ∈ ds, m.size + d.size < UInt64.size) :
    let sizes := ds.map Field.size
    let p := fitting m.size sizes
    (setTo mem m ds).1 = start sizes p ∧
      (setTo mem m ds).2.map Field.bytes =
        pieces m.data 0 (sizes.take p) ++ (ds.map Field.bytes).drop p ∧
      (setTo mem m ds).2.map Field.type = ds.map Field.type := by
  intro sizes p
  have lengths : (ds.map Field.bytes).map List.length = sizes := by
    simp [sizes, Function.comp_def]
  have bounded : ∀ v ∈ ds.map Field.bytes, m.size + v.length < UInt64.size := by
    intro v member
    obtain ⟨f, inside, rfl⟩ := List.mem_map.mp member
    rw [f.length_bytes]
    exact addressable f inside
  have walk := m.setToImpl_eq mem 0 (ds.map Field.bytes) (Nat.zero_le _) (bytes_ne_nil ds) bounded
  obtain ⟨count, bytes, types⟩ := setToImpl_eq mem m 0 ds
  simp only [lengths, Nat.sub_zero] at walk
  rw [walk] at count bytes
  exact ⟨count, bytes, types⟩

end Fields

/-- `setTo` fills the longest list of first fields that fits into the message, one after the
other from its start, leaves the others alone and returns the bytes it has filled: all of them
exactly when every field was filled. -/
theorem setTo_longest_prefix (mem : Memory) (m : Message) (ds : List Field)
    (addressable : ∀ d ∈ ds, m.size + d.size < UInt64.size) :
    let sizes := ds.map Field.size
    let returned := (Fields.setTo mem m ds).1
    let written := (Fields.setTo mem m ds).2
    ∃ p ≤ ds.length, start sizes p ≤ m.size ∧
      (∀ q ≤ ds.length, start sizes q ≤ m.size → q ≤ p) ∧
      returned = start sizes p ∧ (returned = sizes.sum ↔ p = ds.length) ∧
      written.length = ds.length ∧
      ∀ i d, ds[i]? = some d → ∃ w, written[i]? = some w ∧
        (i < p → w.type = d.type ∧ w.bytes = slice m.data (start sizes i) d.size) ∧
        (p ≤ i → w = d) := by
  intro sizes returned written
  let p := fitting m.size sizes
  have count : sizes.length = ds.length := List.length_map _
  have bound : p ≤ sizes.length := fitting_le_length m.size sizes
  obtain ⟨filled, bytes, types⟩ := Fields.setTo_filled mem m ds addressable
  have total : written.length = ds.length := by
    simpa using congrArg List.length types
  refine ⟨p, count ▸ bound, (start_le_iff _ _ _ bound).mpr (Nat.le_refl p),
    fun q inside fits => (start_le_iff _ _ _ (count ▸ inside)).mp fits, filled, ?_, total, ?_⟩
  · rw [show returned = start sizes p from filled, ← count]
    apply start_eq_sum_iff sizes p bound
    intro size member
    obtain ⟨d, _, rfl⟩ := List.mem_map.mp member
    exact d.size_positive
  · intro i d found
    obtain ⟨w, stored⟩ : ∃ w, written[i]? = some w := by
      have inside : i < ds.length := (List.getElem?_eq_some_iff.mp found).1
      exact ⟨_, List.getElem?_eq_getElem (total ▸ inside)⟩
    have type : w.type = d.type := by
      have same := congrArg (fun l => l[i]?) types
      simpa [written, stored, found] using same
    have content : (written.map Field.bytes)[i]? = some w.bytes := by
      rw [List.getElem?_map, stored]
      rfl
    rw [show written.map Field.bytes = _ from bytes, getElem?_pieces_append _ _ _ _ _ _ bound,
      List.getElem?_map, List.getElem?_map, found] at content
    refine ⟨w, stored, fun less => ⟨type, ?_⟩, fun more => ?_⟩
    · rw [if_pos less] at content
      simpa using (Option.some.inj content).symm
    · rw [if_neg (by omega)] at content
      exact Field.eq_of_bytes_eq w d type (Option.some.inj content).symm

/-- Three bytes have room for the first of these fields only, although the third would fit. -/
theorem setTo_longest_prefix_one :
    let fields : List Field := [.scalar ⟨2, Nat.two_pos⟩ ⟨[0, 0], rfl⟩,
      .scalar ⟨2, Nat.two_pos⟩ ⟨[0, 0], rfl⟩, .scalar ⟨1, Nat.one_pos⟩ ⟨[0], rfl⟩]
    (Fields.setTo default ⟨[7, 8, 9]⟩ fields).1 = 2 ∧
      ∃ p ≤ 3, 2 = start [2, 2, 1] p ∧ ∀ q ≤ 3, start [2, 2, 1] q ≤ 3 → q ≤ p := by
  intro fields
  obtain ⟨p, inside, _, most, returned, _⟩ :=
    setTo_longest_prefix default ⟨[7, 8, 9]⟩ fields (by decide)
  exact ⟨rfl, p, inside, returned, most⟩

end OfxZeroMQ
