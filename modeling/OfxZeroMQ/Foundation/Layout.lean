import Mathlib.Algebra.GroupWithZero.Nat
import OfxZeroMQ.Foundation.Buffer

/-!
Pieces that stand one after the other, and as many of them, in order, as there is room for.
-/
namespace Foundation.Layout

open Foundation.Buffer

variable {α : Type}

/-- Where piece `i` starts when pieces of these sizes follow each other. -/
def start (sizes : List Nat) (i : Nat) : Nat := (sizes.take i).sum

/-- How many pieces fit; the first that does not ends the count. -/
def fitting : Nat → List Nat → Nat
  | _, [] => 0
  | room, size :: sizes => if size ≤ room then fitting (room - size) sizes + 1 else 0

/-- The parts of the buffer from `offset` on that pieces of these sizes cover. -/
def pieces (buf : List α) : Nat → List Nat → List (List α)
  | _, [] => []
  | offset, size :: sizes => slice buf offset size :: pieces buf (offset + size) sizes

@[simp] theorem start_zero (sizes : List Nat) : start sizes 0 = 0 := by simp [start]

@[simp] theorem start_cons (size : Nat) (sizes : List Nat) (i : Nat) :
    start (size :: sizes) (i + 1) = size + start sizes i := by
  simp [start]

theorem fitting_le_length (room : Nat) (sizes : List Nat) :
    fitting room sizes ≤ sizes.length := by
  induction sizes generalizing room with
  | nil => exact Nat.le_refl 0
  | cons size sizes ih =>
    have rest := ih (room - size)
    simp only [fitting, List.length_cons]
    split <;> omega

/-- The pieces up to `i` have room together exactly when they are among those that fit. -/
theorem start_le_iff (room : Nat) (sizes : List Nat) (i : Nat) (inside : i ≤ sizes.length) :
    start sizes i ≤ room ↔ i ≤ fitting room sizes := by
  induction sizes generalizing room i with
  | nil =>
    obtain rfl : i = 0 := by simpa using inside
    simp [fitting]
  | cons size sizes ih =>
    cases i with
    | zero => simp
    | succ i =>
      have rest := ih (room - size) i (by simpa using inside)
      rw [start_cons, fitting]
      by_cases fits : size ≤ room
      · rw [if_pos fits, Nat.add_le_add_iff_right, ← rest]
        omega
      · rw [if_neg fits]
        omega

/-- Pieces that are not empty take more room than any part of them. -/
theorem start_eq_sum_iff (sizes : List Nat) (i : Nat) (inside : i ≤ sizes.length)
    (positive : ∀ size ∈ sizes, 0 < size) : start sizes i = sizes.sum ↔ i = sizes.length := by
  induction sizes generalizing i with
  | nil =>
    obtain rfl : i = 0 := by simpa using inside
    simp
  | cons size sizes ih =>
    have some : 0 < size := positive size (by simp)
    cases i with
    | zero =>
      simp only [start_zero, List.sum_cons, List.length_cons]
      omega
    | succ i =>
      have rest := ih i (by simpa using inside) fun s member => positive s (by simp [member])
      simp only [start_cons, List.sum_cons, List.length_cons, Nat.add_right_cancel_iff, ← rest]
      omega

@[simp] theorem length_pieces (buf : List α) (offset : Nat) (sizes : List Nat) :
    (pieces buf offset sizes).length = sizes.length := by
  induction sizes generalizing offset with
  | nil => rfl
  | cons size sizes ih => rw [pieces, List.length_cons, List.length_cons, ih]

theorem getElem?_pieces (buf : List α) (offset : Nat) (sizes : List Nat) (i : Nat) :
    (pieces buf offset sizes)[i]? =
      sizes[i]?.map fun size => slice buf (offset + start sizes i) size := by
  induction sizes generalizing offset i with
  | nil => simp [pieces]
  | cons size sizes ih =>
    cases i with
    | zero => simp [pieces]
    | succ i => simp [pieces, ih, Nat.add_assoc]

/-- The first `p` pieces are taken from the buffer, the others stay as they were. -/
theorem getElem?_pieces_append (buf : List α) (offset : Nat) (sizes : List Nat)
    (olds : List (List α)) (p i : Nat) (inside : p ≤ sizes.length) :
    (pieces buf offset (sizes.take p) ++ olds.drop p)[i]? =
      if i < p then sizes[i]?.map fun size => slice buf (offset + start sizes i) size
      else olds[i]? := by
  have length : (pieces buf offset (sizes.take p)).length = p := by
    rw [length_pieces, List.length_take]
    omega
  by_cases less : i < p
  · have same : start (sizes.take p) i = start sizes i := by
      rw [start, start, List.take_take, Nat.min_eq_left (Nat.le_of_lt less)]
    rw [if_pos less, List.getElem?_append_left (by omega), getElem?_pieces,
      List.getElem?_take_of_lt less, same]
  · rw [if_neg less, List.getElem?_append_right (by omega), length, List.getElem?_drop]
    congr 1
    omega

end Foundation.Layout
