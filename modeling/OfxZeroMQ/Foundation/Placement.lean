import Mathlib.Data.List.Basic
import Mathlib.Logic.Function.Basic

/-!
# Arrays whose items know where they are

Every item keeps its own index, so that it can be found, swapped and taken out without a search.
-/
namespace Foundation

universe u

/-- An array without repetition: `index` says of each item where it stands. What it says of anything
else does not matter. -/
structure Placement (α : Type u) where
  items : List α
  index : α → Nat
  placed : ∀ i (inside : i < items.length), index items[i] = i

namespace Placement

variable {α : Type u}

def empty : Placement α := ⟨[], fun _ => 0, by simp⟩

/-- The item at an index has this index. -/
theorem index_of_getElem? (a : Placement α) {i : Nat} {x : α} (here : a.items[i]? = some x) :
    a.index x = i := by
  obtain ⟨inside, rfl⟩ := List.getElem?_eq_some_iff.mp here
  exact a.placed i inside

/-- An item is found at its own index. -/
theorem getElem?_index (a : Placement α) {x : α} (member : x ∈ a.items) :
    a.items[a.index x]? = some x := by
  obtain ⟨i, here⟩ := List.mem_iff_getElem?.mp member
  rwa [a.index_of_getElem? here]

/-- An index is within the array. -/
theorem index_lt (a : Placement α) {x : α} (member : x ∈ a.items) :
    a.index x < a.items.length :=
  (List.getElem?_eq_some_iff.mp (a.getElem?_index member)).1

/-- An item stands at its index and nowhere else. -/
theorem getElem?_iff (a : Placement α) {x : α} (member : x ∈ a.items) (i : Nat) :
    a.items[i]? = some x ↔ a.index x = i :=
  ⟨a.index_of_getElem?, fun here => here ▸ a.getElem?_index member⟩

variable [DecidableEq α]

section Swap

variable (a : Placement α) (i j : Nat) (hi : i < a.items.length) (hj : j < a.items.length)

/-- Two items change places, and are told so. -/
def swap : Placement α where
  items := (a.items.set i a.items[j]).set j a.items[i]
  index := Function.update (Function.update a.index a.items[i] j) a.items[j] i
  placed := by
    intro k inside
    rw [List.length_set, List.length_set] at inside
    have different (m n : Nat) (hm : m < a.items.length) (hn : n < a.items.length)
        (apart : m ≠ n) : a.items[m] ≠ a.items[n] := fun same =>
      apart ((a.placed m hm).symm.trans (same ▸ a.placed n hn))
    simp only [List.getElem_set]
    split
    · next at_j =>
      subst at_j
      by_cases same : i = j
      · subst same
        simp
      · simp [Function.update_of_ne (different i j hi hj same)]
    · next off_j =>
      split
      · next at_i =>
        subst at_i
        simp
      · next off_i =>
        rw [Function.update_of_ne (different k j inside hj (Ne.symm off_j)),
          Function.update_of_ne (different k i inside hi (Ne.symm off_i)), a.placed]

@[simp] theorem length_swap : (a.swap i j hi hj).items.length = a.items.length := by
  simp [swap]

/-- What stands where after a swap. -/
theorem getElem?_swap (k : Nat) :
    (a.swap i j hi hj).items[k]? =
      if k = j then a.items[i]? else if k = i then a.items[j]? else a.items[k]? := by
  simp only [swap, List.getElem?_set, List.length_set]
  grind

/-- A swap adds no item and loses none. -/
@[simp] theorem mem_swap (x : α) : x ∈ (a.swap i j hi hj).items ↔ x ∈ a.items := by
  simp only [List.mem_iff_getElem?, getElem?_swap]
  constructor
  · rintro ⟨k, here⟩
    split at here
    · exact ⟨i, here⟩
    · split at here
      · exact ⟨j, here⟩
      · exact ⟨k, here⟩
  · rintro ⟨k, here⟩
    by_cases at_i : k = i
    · exact ⟨j, by simpa [at_i] using here⟩
    · by_cases at_j : k = j
      · refine ⟨i, ?_⟩
        -- Nothing moves where the two indices are one.
        by_cases same : i = j
        · simpa [same, at_j] using here
        · simpa [same, at_j] using here
      · exact ⟨k, by simpa [at_i, at_j] using here⟩

/-- Where an item has gone in a swap. -/
theorem index_swap {x : α} (member : x ∈ a.items) :
    (a.swap i j hi hj).index x =
      if a.index x = i then j else if a.index x = j then i else a.index x := by
  refine Placement.index_of_getElem? _ ?_
  have here := a.getElem?_index member
  rw [getElem?_swap]
  by_cases at_i : a.index x = i
  · simpa [at_i] using here
  · by_cases at_j : a.index x = j
    · by_cases same : i = j
      · simpa [same, at_j] using here
      · simpa [at_i, at_j, same, Ne.symm same] using here
    · simpa [at_i, at_j] using here

end Swap

/-- A new item is put at the end. -/
def push (a : Placement α) (x : α) (absent : x ∉ a.items) : Placement α where
  items := a.items ++ [x]
  index := Function.update a.index x a.items.length
  placed := by
    intro k inside
    rw [List.getElem_append]
    split
    · next old =>
      rw [Function.update_of_ne, a.placed]
      exact fun same => absent (same ▸ List.getElem_mem old)
    · next new =>
      simp only [List.length_append, List.length_singleton] at inside
      simp only [List.getElem_singleton, Function.update_self]
      omega

/-- The new item stands behind the old ones, which stay where they are. -/
theorem index_push (a : Placement α) (x y : α) (absent : x ∉ a.items) :
    (a.push x absent).index y = if y = x then a.items.length else a.index y := by
  simp [push, Function.update_apply]

/-- The last item takes the place of the one that is taken out. -/
def erase (a : Placement α) (x : α) (present : x ∈ a.items) : Placement α where
  items := (a.items.set (a.index x) (a.items.getLast (List.ne_nil_of_mem present))).dropLast
  index := Function.update a.index (a.items.getLast (List.ne_nil_of_mem present)) (a.index x)
  placed := by
    intro k inside
    have nonempty := List.ne_nil_of_mem present
    simp only [List.length_dropLast, List.length_set] at inside
    simp only [List.getElem_dropLast, List.getElem_set, List.getLast_eq_getElem]
    split
    · next here => simp [here]
    · next apart =>
      rw [Function.update_of_ne, a.placed]
      intro same
      have early := a.placed k (by omega)
      rw [same, a.placed] at early
      omega

section Erase

variable (a : Placement α) (x : α) (present : x ∈ a.items)

@[simp] theorem length_erase : (a.erase x present).items.length = a.items.length - 1 := by
  simp [erase]

/-- What stands where after an item was taken out. -/
theorem getElem?_erase (k : Nat) :
    (a.erase x present).items[k]? =
      if k < a.items.length - 1 then
        if k = a.index x then a.items[a.items.length - 1]? else a.items[k]?
      else none := by
  have inside := a.index_lt present
  simp only [erase, List.getElem?_dropLast, List.length_set, List.getElem?_set,
    List.getLast_eq_getElem]
  grind

/-- Exactly the one item is taken out. -/
theorem mem_erase (y : α) : y ∈ (a.erase x present).items ↔ y ∈ a.items ∧ y ≠ x := by
  have inside := a.index_lt present
  have here := a.getElem?_index present
  simp only [List.mem_iff_getElem?, getElem?_erase]
  constructor
  · rintro ⟨k, found⟩
    split at found
    · next early =>
      split at found
      · next replaced =>
        refine ⟨⟨_, found⟩, ?_⟩
        rintro rfl
        have := a.index_of_getElem? found
        omega
      · next apart =>
        refine ⟨⟨k, found⟩, ?_⟩
        rintro rfl
        exact apart (a.index_of_getElem? found).symm
    · cases found
  · rintro ⟨⟨k, found⟩, other⟩
    have apart : k ≠ a.index x := by
      rintro rfl
      exact other (Option.some.inj (found.symm.trans here))
    obtain ⟨bound, -⟩ := List.getElem?_eq_some_iff.mp found
    -- The last item is found in the gap, all others where they were.
    by_cases last : k = a.items.length - 1
    · refine ⟨a.index x, ?_⟩
      rw [if_pos (by omega), if_pos rfl, ← last, found]
    · refine ⟨k, ?_⟩
      rw [if_pos (by omega), if_neg apart, found]

/-- Of the items that stay, only the last one has gone somewhere else. -/
theorem index_erase {y : α} (member : y ∈ a.items) (other : y ≠ x) :
    (a.erase x present).index y =
      if a.index y = a.items.length - 1 then a.index x else a.index y := by
  refine Placement.index_of_getElem? _ ?_
  have inside := a.index_lt present
  have bound := a.index_lt member
  have here := a.getElem?_index member
  have apart : a.index y ≠ a.index x := fun same =>
    other (Option.some.inj (here.symm.trans (same ▸ a.getElem?_index present)))
  rw [getElem?_erase]
  by_cases last : a.index y = a.items.length - 1
  · rw [if_pos last, if_pos (by omega), if_pos rfl, ← last, here]
  · rw [if_neg last, if_pos (by omega), if_neg apart, here]

end Erase

end Placement

end Foundation
