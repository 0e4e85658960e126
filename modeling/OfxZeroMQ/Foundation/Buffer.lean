/-! Reading and overwriting a range of a buffer. -/
namespace Foundation.Buffer

variable {α : Type}

/-- Overwrite `buf` from `offset` on with `src`, inside the bounds of `buf`. -/
def patch (buf : List α) (offset : Nat) (src : List α) : List α :=
  (buf.take offset ++ src ++ buf.drop (offset + src.length)).take buf.length

def slice (buf : List α) (offset count : Nat) : List α := (buf.drop offset).take count

/-- Overwriting the part of the buffer that follows `done`. -/
theorem patch_append (done old src rest : List α) (same : old.length = src.length) :
    patch (done ++ (old ++ rest)) done.length src = done ++ (src ++ rest) := by
  have tail : (done ++ (old ++ rest)).drop (done.length + src.length) = rest := by
    rw [← same, ← List.drop_drop, List.drop_left, List.drop_left]
  have whole : (done ++ (old ++ rest)).length = (done ++ (src ++ rest)).length := by
    simp [same]
  rw [patch, List.take_left, tail, List.append_assoc, whole, List.take_length]

theorem slice_append (done src rest : List α) :
    slice (done ++ (src ++ rest)) done.length src.length = src := by
  rw [slice, List.drop_left, List.take_left]

theorem slice_whole (buf : List α) : slice buf 0 buf.length = buf := by
  simp [slice]

theorem length_slice (buf : List α) (offset count : Nat) (fits : offset + count ≤ buf.length) :
    (slice buf offset count).length = count := by
  simp only [slice, List.length_take, List.length_drop]
  omega

/-- The consecutive chunks of `size` elements; a shorter rest is dropped. -/
def chunks (size : Nat) (buf : List α) : List (List α) :=
  (List.range (buf.length / size)).map fun i => slice buf (i * size) size

theorem chunks_cons (size : Nat) (first : List α) (rest : List α) (positive : 0 < size)
    (whole : first.length = size) : chunks size (first ++ rest) = first :: chunks size rest := by
  have count : (first ++ rest).length / size = rest.length / size + 1 := by
    rw [List.length_append, whole, Nat.add_comm, Nat.add_div_right _ positive]
  rw [chunks, count, List.range_succ_eq_map, List.map_cons, List.map_map]
  congr 1
  · rw [Nat.zero_mul, ← whole]
    exact slice_append [] first rest
  · apply List.map_congr_left
    intro i _
    have shift : (i + 1) * size = first.length + i * size := by
      rw [whole, Nat.succ_mul, Nat.add_comm]
    simp only [Function.comp, Nat.succ_eq_add_one, shift, slice]
    rw [← List.drop_drop, List.drop_left]

theorem chunks_flatten (size : Nat) (pieces : List (List α)) (positive : 0 < size)
    (sizes : ∀ p ∈ pieces, p.length = size) : chunks size pieces.flatten = pieces := by
  induction pieces with
  | nil => simp [chunks]
  | cons first rest ih =>
    rw [List.flatten_cons, chunks_cons size first _ positive (sizes first (by simp)),
      ih fun p member => sizes p (by simp [member])]

theorem chunks_take (size : Nat) (buf : List α) :
    chunks size (buf.take (buf.length / size * size)) = chunks size buf := by
  have le : buf.length / size * size ≤ buf.length := Nat.div_mul_le_self buf.length size
  have count : (buf.take (buf.length / size * size)).length / size = buf.length / size := by
    rw [List.length_take, Nat.min_eq_left le]
    rcases Nat.eq_zero_or_pos size with rfl | positive
    · simp
    · exact Nat.mul_div_cancel _ positive
  rw [chunks, count, chunks]
  apply List.map_congr_left
  intro i member
  have inside : (i + 1) * size ≤ buf.length / size * size :=
    Nat.mul_le_mul_right size (List.mem_range.mp member)
  rw [Nat.succ_mul] at inside
  simp only [slice, List.drop_take, List.take_take]
  congr 1
  omega

theorem patch_zero (buf src : List α) (enough : buf.length ≤ src.length) :
    patch buf 0 src = src.take buf.length := by
  rw [patch, List.take_zero, List.nil_append, List.take_append_of_le_length enough]

theorem length_patch (buf src : List α) (offset : Nat) :
    (patch buf offset src).length = buf.length := by
  simp only [patch, List.length_take, List.length_append, List.length_drop]
  omega

theorem getElem?_patch (buf src : List α) (offset i : Nat)
    (fits : offset + src.length ≤ buf.length) :
    (patch buf offset src)[i]? =
      if offset ≤ i ∧ i < offset + src.length then src[i - offset]? else buf[i]? := by
  have before : (buf.take offset).length = offset := by
    rw [List.length_take]
    omega
  by_cases outside : buf.length ≤ i
  · have past : (patch buf offset src).length ≤ i := by rwa [length_patch buf src offset]
    rw [List.getElem?_eq_none past, List.getElem?_eq_none outside, if_neg (by omega)]
  · rw [patch, List.getElem?_take_of_lt (by omega), List.append_assoc]
    by_cases left : i < offset
    · rw [List.getElem?_append_left (by omega), List.getElem?_take_of_lt left, if_neg (by omega)]
    · rw [List.getElem?_append_right (by omega), before]
      by_cases inside : i < offset + src.length
      · rw [List.getElem?_append_left (by omega), if_pos ⟨by omega, inside⟩]
      · rw [List.getElem?_append_right (by omega), List.getElem?_drop, if_neg (by omega)]
        congr 1
        omega

theorem getElem?_slice (buf : List α) (offset count i : Nat) (inside : i < count) :
    (slice buf offset count)[i]? = buf[offset + i]? := by
  rw [slice, List.getElem?_take_of_lt inside, List.getElem?_drop]

theorem flatten_slices (size count : Nat) (buf : List α) :
    ((List.range count).map fun i => slice buf (i * size) size).flatten =
      buf.take (count * size) := by
  induction count with
  | zero => simp
  | succ count ih =>
    rw [List.range_succ, List.map_append, List.flatten_append, ih, Nat.succ_mul, List.take_add]
    simp [slice]

/-- Put together again, the chunks are the buffer without the shorter rest. -/
theorem flatten_chunks (size : Nat) (buf : List α) :
    (chunks size buf).flatten = buf.take (buf.length / size * size) :=
  flatten_slices size (buf.length / size) buf

theorem length_chunks (size : Nat) (buf : List α) :
    (chunks size buf).length = buf.length / size := by
  simp [chunks]

theorem getElem?_chunks (size : Nat) (buf : List α) (i : Nat) (inside : i < buf.length / size) :
    (chunks size buf)[i]? = some (slice buf (i * size) size) := by
  simp [chunks, inside]

theorem length_of_mem_chunks (size : Nat) (buf chunk : List α)
    (member : chunk ∈ chunks size buf) : chunk.length = size := by
  obtain ⟨i, inside, rfl⟩ := List.mem_map.mp member
  apply length_slice
  have le : (i + 1) * size ≤ buf.length :=
    Nat.le_trans (Nat.mul_le_mul_right size (List.mem_range.mp inside)) (Nat.div_mul_le_self _ _)
  rwa [Nat.succ_mul] at le

/-! ### Copies -/

/-- A range of a buffer. -/
structure Span where
  offset : Nat
  count : Nat
deriving DecidableEq

/-- No byte of the range is outside the buffer. -/
def Span.Inside (s : Span) (buf : List α) : Prop :=
  ∀ i, s.offset ≤ i → i < s.offset + s.count → i < buf.length

/-- A copy of `count` elements from `source` on to the start of a place for `room`. -/
structure Copy where
  source : Nat
  count : Nat
  room : Nat
deriving DecidableEq

def Copy.ReadsInside (c : Copy) (buf : List α) : Prop := c.source + c.count ≤ buf.length

def Copy.WritesInside (c : Copy) : Prop := c.count ≤ c.room

end Foundation.Buffer
