import Mathlib.Data.List.Basic

/-!
# Tables for a range of keys

A table has a slot for every key from the least to the greatest that it has ever held. It grows
at either end, and shrinks there when the slots at an end become empty.
-/
namespace Foundation

universe u

structure RangeTable (α : Type u) where
  min : Nat
  slots : List (Option α)
deriving DecidableEq

namespace RangeTable

variable {α : Type u}

def empty : RangeTable α := ⟨0, []⟩

def get (t : RangeTable α) (k : Nat) : Option α :=
  if k < t.min then none else t.slots[k - t.min]?.join

def covers (t : RangeTable α) (k : Nat) : Bool :=
  decide (t.min ≤ k ∧ k < t.min + t.slots.length)

/-- How many slots are taken. -/
def live (t : RangeTable α) : Nat := t.slots.countP Option.isSome

def put (t : RangeTable α) (k : Nat) (x : Option α) : RangeTable α :=
  { t with slots := t.slots.set (k - t.min) x }

/-- A table that has a slot for `k` as well. -/
def extend (t : RangeTable α) (k : Nat) : RangeTable α :=
  match t.slots with
  | [] => ⟨k, [none]⟩
  | [only] =>
    let count := (if t.min < k then k - t.min else t.min - k) + 1
    let min := if t.min < k then t.min else k
    ⟨min, (List.replicate count none).set (t.min - min) only⟩
  | slots =>
    if t.min < k then
      ⟨t.min, slots ++ List.replicate (k - t.min + 1 - slots.length) none⟩
    else ⟨k, List.replicate (t.min - k) none ++ slots⟩

def dropLeft (t : RangeTable α) (i : Nat) : RangeTable α := ⟨t.min + i, t.slots.drop i⟩

def keepLeft (t : RangeTable α) (count : Nat) : RangeTable α := ⟨t.min, t.slots.take count⟩

/-- The first slot from `i` on that is taken. -/
def firstFrom (slots : List (Option α)) (i : Nat) : Option Nat :=
  ((slots.drop i).findIdx? Option.isSome).map (· + i)

/-- Give up the slots before the next one that is taken, the first one being empty. -/
def shrinkLeft (t : RangeTable α) : Option (RangeTable α) :=
  (firstFrom t.slots 1).map t.dropLeft

def shrinkRight (t : RangeTable α) : Option (RangeTable α) :=
  (firstFrom t.slots.reverse 1).map fun i => t.keepLeft (t.slots.length - i)

/-- Free the slot of `c` and give up the slots that are not needed any more. `live` counts the slots
that are taken, and `single` finds the one that is left when there is only one. -/
def prune (single : RangeTable α → Nat → Option (Nat × α)) (live : Nat) (next : RangeTable α)
    (c : Nat) : Option (Nat × RangeTable α) :=
  let count := next.slots.length
  if count = 0 then none
  else if count = 1 then
    if live = 1 then some (live - 1, ⟨next.min, []⟩) else none
  else if live ≤ 1 then none
  else
    let next := next.put c none
    if live - 1 = 1 then
      (single next c).map fun (min, node) => (live - 1, ⟨min, [some node]⟩)
    else if c = next.min then next.shrinkLeft.map fun next => (live - 1, next)
    else if c = next.min + count - 1 then next.shrinkRight.map fun next => (live - 1, next)
    else some (live - 1, next)

/-- The least and the greatest key whose slot is taken, for slots that are gone through from the
left; `found` is where to start from. -/
def bounds (found : Nat × Nat) (k : Nat) : List (Option α) → Nat × Nat
  | [] => found
  | none :: slots => bounds found (k + 1) slots
  | some _ :: slots =>
    bounds (if k < found.1 then k else found.1, if found.2 < k then k else found.2) (k + 1) slots

/-- Give up the slots that are not needed any more after some have been freed. -/
def compact (live : Nat) (t : RangeTable α) : Option (RangeTable α) :=
  let count := t.slots.length
  let (new_min, new_max) := bounds (t.min + count - 1, t.min) t.min t.slots
  if count ≤ 1 then none
  else if live = 0 then some ⟨t.min, []⟩
  else if live = 1 then
    if new_min = new_max ∧ t.min ≤ new_min ∧ new_min < t.min + count then
      t.slots[new_min - t.min]?.join.map fun node => ⟨new_min, [some node]⟩
    else none
  else if t.min < new_min ∨ new_max < t.min + count - 1 then
    if 1 < new_max - new_min + 1 ∧ t.min ≤ new_min ∧ new_max ≤ t.min + count - 1 ∧
        new_max - new_min + 1 < count then
      some ((t.dropLeft (new_min - t.min)).keepLeft (new_max - new_min + 1))
    else none
  else some t

/-- The slots at both ends are taken. -/
def Tight (t : RangeTable α) : Prop :=
  t.slots ≠ [] → t.get t.min ≠ none ∧ t.get (t.min + t.slots.length - 1) ≠ none

/-! ### Slots -/

theorem get_of_lt (t : RangeTable α) (k : Nat) (before : k < t.min) : t.get k = none := by
  rw [get, if_pos before]

theorem get_of_le (t : RangeTable α) (k : Nat) (after : t.min ≤ k) :
    t.get k = t.slots[k - t.min]?.join := by
  rw [get, if_neg (by omega)]

theorem get_add (t : RangeTable α) (i : Nat) : t.get (t.min + i) = t.slots[i]?.join := by
  rw [t.get_of_le _ (Nat.le_add_right t.min i), Nat.add_sub_cancel_left]

theorem covers_iff (t : RangeTable α) (k : Nat) :
    t.covers k = true ↔ t.min ≤ k ∧ k < t.min + t.slots.length := by
  rw [covers, decide_eq_true_eq]

theorem get_of_not_covers (t : RangeTable α) (k : Nat) (outside : t.covers k = false) :
    t.get k = none := by
  have beyond : ¬ (t.min ≤ k ∧ k < t.min + t.slots.length) := by
    rw [← covers_iff, outside]
    exact Bool.false_ne_true
  rcases Nat.lt_or_ge k t.min with before | after
  · exact t.get_of_lt k before
  · rw [t.get_of_le k after, List.getElem?_eq_none (by omega)]
    rfl

theorem covers_of_get (t : RangeTable α) (k : Nat) (taken : t.get k ≠ none) :
    t.covers k = true := by
  cases inside : t.covers k with
  | true => rfl
  | false => exact absurd (t.get_of_not_covers k inside) taken

@[simp] theorem min_put (t : RangeTable α) (k : Nat) (x : Option α) :
    (t.put k x).min = t.min := rfl

@[simp] theorem length_put (t : RangeTable α) (k : Nat) (x : Option α) :
    (t.put k x).slots.length = t.slots.length := List.length_set

@[simp] theorem covers_put (t : RangeTable α) (k j : Nat) (x : Option α) :
    (t.put k x).covers j = t.covers j := by
  simp [covers, put]

theorem get_put (t : RangeTable α) (k j : Nat) (x : Option α) (inside : t.covers k = true) :
    (t.put k x).get j = if j = k then x else t.get j := by
  obtain ⟨low, high⟩ := (t.covers_iff k).mp inside
  rcases Nat.lt_or_ge j t.min with before | after
  · rw [t.get_of_lt j before, if_neg (by omega)]
    exact get_of_lt _ j before
  · rw [t.get_of_le j after, get_of_le (t.put k x) j after]
    simp only [put]
    rcases eq_or_ne j k with rfl | differ
    · rw [if_pos rfl, List.getElem?_set_self (by omega)]
      rfl
    · rw [if_neg differ, List.getElem?_set_ne (by omega)]

/-- Taking a free slot, or freeing one that is taken. -/
theorem live_put (t : RangeTable α) (k : Nat) (x : Option α) (inside : t.covers k = true) :
    (t.put k x).live + (if (t.get k).isSome then 1 else 0) =
      t.live + (if x.isSome then 1 else 0) := by
  obtain ⟨low, high⟩ := (t.covers_iff k).mp inside
  have bound : k - t.min < t.slots.length := by omega
  have slot : t.get k = t.slots[k - t.min] := by
    rw [t.get_of_le k low, List.getElem?_eq_getElem bound]
    rfl
  rw [slot, live, live, put, List.countP_set bound]
  have counted : (if t.slots[k - t.min].isSome then 1 else 0) ≤ t.slots.countP Option.isSome := by
    split
    · next taken => exact List.countP_pos_iff.mpr ⟨_, List.getElem_mem bound, taken⟩
    · exact Nat.zero_le _
  omega

/-! ### Growing -/

/-- The table of one slot grows as any other does. -/
theorem extend_eq (t : RangeTable α) (k : Nat) (nonempty : t.slots ≠ []) :
    t.extend k = if t.min < k then
        ⟨t.min, t.slots ++ List.replicate (k - t.min + 1 - t.slots.length) none⟩
      else ⟨k, List.replicate (t.min - k) none ++ t.slots⟩ := by
  obtain ⟨min, slots⟩ := t
  match slots with
  | [] => exact absurd rfl nonempty
  | [only] =>
    simp only [extend, List.length_singleton, Nat.add_sub_cancel]
    split
    · next above =>
      rw [Nat.sub_self, List.replicate_succ, List.set_cons_zero, List.singleton_append]
    · next below =>
      rw [List.replicate_succ', List.set_append_right _ _ (by simp), List.length_replicate,
        Nat.sub_self, List.set_cons_zero]
  | first :: second :: slots => rfl

theorem get_append_none (min n j : Nat) (slots : List (Option α)) :
    (⟨min, slots ++ List.replicate n none⟩ : RangeTable α).get j =
      (⟨min, slots⟩ : RangeTable α).get j := by
  simp only [get]
  split
  · rfl
  · rcases Nat.lt_or_ge (j - min) slots.length with old | new
    · rw [List.getElem?_append_left old]
    · rw [List.getElem?_append_right new, List.getElem?_eq_none new, List.getElem?_replicate]
      split <;> rfl

theorem get_none_append (min n j : Nat) (slots : List (Option α)) :
    (⟨min, List.replicate n none ++ slots⟩ : RangeTable α).get j =
      (⟨min + n, slots⟩ : RangeTable α).get j := by
  simp only [get]
  rcases Nat.lt_or_ge j min with before | after
  · rw [if_pos before, if_pos (by omega)]
  · rw [if_neg (by omega)]
    rcases Nat.lt_or_ge j (min + n) with new | old
    · rw [if_pos new, List.getElem?_append_left (by simp; omega), List.getElem?_replicate]
      split <;> rfl
    · rw [if_neg (by omega), List.getElem?_append_right (by simp; omega),
        List.length_replicate, Nat.sub_sub]

theorem covers_extend (t : RangeTable α) (k : Nat) : (t.extend k).covers k = true := by
  rw [covers_iff]
  by_cases nonempty : t.slots = []
  · rw [extend, nonempty]
    simp
  · rw [extend_eq t k nonempty]
    have some_slot := List.length_pos_iff.mpr nonempty
    split <;> simp <;> omega

/-- Room for one more key changes no slot. -/
theorem get_extend (t : RangeTable α) (k j : Nat) : (t.extend k).get j = t.get j := by
  by_cases nonempty : t.slots = []
  · rw [extend, nonempty, t.get_of_not_covers j (by simp [covers, nonempty])]
    exact (get_append_none k 1 j []).trans (get_of_not_covers _ j (by simp [covers]))
  · rw [extend_eq t k nonempty]
    split
    · exact get_append_none t.min _ j t.slots
    · rw [get_none_append, Nat.add_sub_cancel' (by omega)]

theorem live_extend (t : RangeTable α) (k : Nat) : (t.extend k).live = t.live := by
  by_cases nonempty : t.slots = []
  · simp [extend, live, nonempty]
  · rw [extend_eq t k nonempty]
    split <;> simp [live, List.countP_replicate]

/-- The greatest key a table can have after room was made for `k`. -/
theorem extend_within (t : RangeTable α) (k n : Nat) (fits : t.min + t.slots.length ≤ n)
    (less : k < n) : (t.extend k).min + (t.extend k).slots.length ≤ n := by
  by_cases nonempty : t.slots = []
  · simp only [extend, nonempty, List.length_singleton]
    omega
  · rw [extend_eq t k nonempty]
    split <;> simp <;> omega

def cover (t : RangeTable α) (k : Nat) : RangeTable α := if t.covers k then t else t.extend k

theorem get_cover (t : RangeTable α) (k j : Nat) : (t.cover k).get j = t.get j := by
  rw [cover]
  split
  · rfl
  · exact t.get_extend k j

/-- The table that takes `x` for the key `k`, which it may have to grow for. -/
def insert (t : RangeTable α) (k : Nat) (x : α) : RangeTable α := (t.cover k).put k (some x)

@[simp] theorem length_insert (t : RangeTable α) (k : Nat) (x : α) :
    (t.insert k x).slots.length = (t.cover k).slots.length := by
  simp [insert, put]

theorem get_insert (t : RangeTable α) (k j : Nat) (x : α) :
    (t.insert k x).get j = if j = k then some x else t.get j := by
  rw [insert, cover]
  cases inside : t.covers k with
  | true => exact t.get_put k j (some x) inside
  | false =>
    rw [← t.get_extend k j]
    exact (t.extend k).get_put k j (some x) (t.covers_extend k)

theorem live_insert (t : RangeTable α) (k : Nat) (x : α) :
    (t.insert k x).live = t.live + if (t.get k).isSome then 0 else 1 := by
  rw [insert, cover]
  cases inside : t.covers k with
  | true =>
    have counted := t.live_put k (some x) inside
    simp only [Option.isSome_some, if_true] at counted ⊢
    split <;> simp_all
  | false =>
    have counted := (t.extend k).live_put k (some x) (t.covers_extend k)
    rw [t.get_extend k k, t.get_of_not_covers k inside, t.live_extend] at counted
    rw [t.get_of_not_covers k inside]
    simpa using counted

/-- A key that the table grew for is at one end of it. -/
theorem tight_insert (t : RangeTable α) (k : Nat) (x : α) (tight : t.Tight) :
    (t.insert k x).Tight := by
  intro _
  simp only [get_insert]
  cases inside : t.covers k with
  | true =>
    have ends := tight fun none => by simp [covers, none] at inside; omega
    have same : t.insert k x = t.put k (some x) := by simp [insert, cover, inside]
    simp only [same, put, List.length_set]
    constructor
    · split
      · simp
      · exact ends.1
    · split
      · simp
      · exact ends.2
  | false =>
    have same : t.insert k x = (t.extend k).put k (some x) := by simp [insert, cover, inside]
    simp only [covers, decide_eq_false_iff_not] at inside
    by_cases nonempty : t.slots = []
    · simp [same, put, extend, nonempty]
    · have ends := tight nonempty
      have some_slot := List.length_pos_iff.mpr nonempty
      simp only [same, put, List.length_set, extend_eq t k nonempty]
      by_cases above : t.min < k
      · have last : t.min + (t.slots.length + (k - t.min + 1 - t.slots.length)) - 1 = k := by
          omega
        simp only [if_pos above, List.length_append, List.length_replicate, last, if_true]
        refine ⟨?_, by simp⟩
        rw [if_neg (by omega)]
        exact ends.1
      · have last : k + (t.min - k + t.slots.length) - 1 = t.min + t.slots.length - 1 := by omega
        simp only [if_neg above, List.length_append, List.length_replicate, last, if_true]
        refine ⟨by simp, ?_⟩
        rw [if_neg (by omega)]
        exact ends.2

theorem insert_within (t : RangeTable α) (k n : Nat) (x : α)
    (fits : t.min + t.slots.length ≤ n) (less : k < n) :
    (t.insert k x).min + (t.insert k x).slots.length ≤ n := by
  rw [insert, cover]
  cases t.covers k with
  | true => simpa [put] using fits
  | false => simpa [put] using t.extend_within k n fits less

/-! ### Shrinking -/

/-- `u` is `t` without some of the empty slots at its ends. -/
structure Shrinks (t u : RangeTable α) : Prop where
  get : ∀ j, u.get j = t.get j
  live : u.live = t.live
  within : u.min + u.slots.length ≤ t.min + t.slots.length

theorem dropLeft_shrinks (t : RangeTable α) (i : Nat) (bound : i ≤ t.slots.length)
    (free : ∀ m < i, t.slots[m]?.join = none) : t.Shrinks (t.dropLeft i) where
  get j := by
    rcases Nat.lt_or_ge j (t.min + i) with before | after
    · rw [get_of_lt (t.dropLeft i) j before]
      rcases Nat.lt_or_ge j t.min with below | inside
      · rw [t.get_of_lt j below]
      · rw [t.get_of_le j inside, free (j - t.min) (by omega)]
    · rw [get_of_le (t.dropLeft i) j after, t.get_of_le j (by omega)]
      simp only [dropLeft, List.getElem?_drop]
      congr 2
      omega
  live := by
    have none_taken : (t.slots.take i).countP Option.isSome = 0 := by
      rw [List.countP_eq_zero]
      intro x member
      obtain ⟨m, less, rfl⟩ := List.mem_take_iff_getElem.mp member
      have empty := free m (by omega)
      rw [List.getElem?_eq_getElem (by omega)] at empty
      simpa using empty
    have split := congrArg (List.countP Option.isSome) (List.take_append_drop i t.slots)
    rw [List.countP_append, none_taken, Nat.zero_add] at split
    exact split
  within := by
    simp only [dropLeft, List.length_drop]
    omega

theorem keepLeft_shrinks (t : RangeTable α) (n : Nat)
    (free : ∀ m, n ≤ m → t.slots[m]?.join = none) : t.Shrinks (t.keepLeft n) where
  get j := by
    rcases Nat.lt_or_ge j t.min with before | after
    · rw [t.get_of_lt j before, get_of_lt (t.keepLeft n) j before]
    · rw [t.get_of_le j after, get_of_le (t.keepLeft n) j after]
      simp only [keepLeft]
      rcases Nat.lt_or_ge (j - t.min) n with kept | dropped
      · rw [List.getElem?_take_of_lt kept]
      · rw [free _ dropped, List.getElem?_eq_none (by simp; omega)]
        rfl
  live := by
    have none_taken : (t.slots.drop n).countP Option.isSome = 0 := by
      rw [List.countP_eq_zero]
      intro x member
      obtain ⟨m, less, rfl⟩ := List.mem_drop_iff_getElem.mp member
      have empty := free (n + m) (by omega)
      rw [List.getElem?_eq_getElem (by omega)] at empty
      simpa using empty
    have split := congrArg (List.countP Option.isSome) (List.take_append_drop n t.slots)
    rw [List.countP_append, none_taken, Nat.add_zero] at split
    exact split
  within := by
    simp only [keepLeft, List.length_take]
    omega

theorem firstFrom_eq_some (slots : List (Option α)) (i n : Nat)
    (found : firstFrom slots i = some n) :
    i ≤ n ∧ (slots[n]?.join).isSome ∧ ∀ m, i ≤ m → m < n → slots[m]?.join = none := by
  simp only [firstFrom, Option.map_eq_some_iff] at found
  obtain ⟨d, found, rfl⟩ := found
  obtain ⟨bound, taken, before⟩ := List.findIdx?_eq_some_iff_getElem.mp found
  simp only [List.getElem_drop, List.length_drop] at bound taken before
  refine ⟨by omega, ?_, ?_⟩
  · rw [List.getElem?_eq_getElem (by omega)]
    simpa [Nat.add_comm] using taken
  · intro m from_i less
    have empty := before (m - i) (by omega)
    rw [List.getElem?_eq_getElem (by omega)]
    simpa [Nat.add_sub_cancel' from_i] using empty

theorem firstFrom_of_taken (slots : List (Option α)) (i n : Nat) (after : i ≤ n)
    (taken : (slots[n]?.join).isSome) : ∃ m, firstFrom slots i = some m := by
  have bound : n < slots.length := by
    by_contra beyond
    rw [List.getElem?_eq_none (by omega)] at taken
    simp at taken
  rw [List.getElem?_eq_getElem bound] at taken
  cases found : (slots.drop i).findIdx? Option.isSome with
  | some d => exact ⟨d + i, by rw [firstFrom, found]; rfl⟩
  | none =>
    rw [List.findIdx?_eq_none_iff] at found
    have member : slots[n] ∈ slots.drop i :=
      List.mem_drop_iff_getElem.mpr ⟨n - i, by omega, by simp [Nat.add_sub_cancel' after]⟩
    have empty := found _ member
    simp only [Option.join_some] at taken
    rw [taken] at empty
    simp at empty

theorem shrinkLeft_spec (t : RangeTable α) (free : t.get t.min = none)
    (last : t.get (t.min + t.slots.length - 1) ≠ none) :
    ∃ u, t.shrinkLeft = some u ∧ u.Tight ∧ t.Shrinks u := by
  have later : t.slots.length - 1 ≠ 0 := by
    intro one
    rw [Nat.add_sub_assoc (by by_contra; simp_all [get]), one] at last
    exact last free
  have taken : (t.slots[t.slots.length - 1]?.join).isSome := by
    rw [Nat.add_sub_assoc (by omega), get_add] at last
    exact Option.isSome_iff_ne_none.mpr last
  obtain ⟨i, found⟩ := firstFrom_of_taken t.slots 1 _ (by omega) taken
  obtain ⟨from_one, there, before⟩ := firstFrom_eq_some t.slots 1 i found
  have bound : i < t.slots.length := by
    by_contra beyond
    rw [List.getElem?_eq_none (by omega)] at there
    simp at there
  have shrinks : t.Shrinks (t.dropLeft i) := by
    apply t.dropLeft_shrinks i (by omega)
    intro m less
    rcases Nat.eq_zero_or_pos m with rfl | positive
    · rw [← get_add]
      exact free
    · exact before m positive less
  refine ⟨t.dropLeft i, by rw [shrinkLeft, found]; rfl, fun _ => ?_, shrinks⟩
  rw [shrinks.get, shrinks.get]
  simp only [dropLeft, List.length_drop, get_add]
  refine ⟨Option.isSome_iff_ne_none.mp there, ?_⟩
  rw [show t.min + i + (t.slots.length - i) - 1 = t.min + t.slots.length - 1 by omega]
  exact last

theorem shrinkRight_spec (t : RangeTable α) (first : t.get t.min ≠ none)
    (free : t.get (t.min + t.slots.length - 1) = none) :
    ∃ u, t.shrinkRight = some u ∧ u.Tight ∧ t.Shrinks u := by
  have some_slot : 0 < t.slots.length := by
    by_contra empty
    simp_all [get]
  have more : t.slots.length ≠ 1 := by
    intro one
    rw [one, Nat.add_sub_cancel] at free
    exact first free
  have reversed (m : Nat) (bound : m < t.slots.length) :
      t.slots.reverse[m]?.join = t.get (t.min + (t.slots.length - 1 - m)) := by
    rw [List.getElem?_reverse bound, get_add]
  have taken : (t.slots.reverse[t.slots.length - 1]?.join).isSome := by
    rw [reversed _ (by omega), Nat.sub_self, Nat.add_zero]
    exact Option.isSome_iff_ne_none.mpr first
  obtain ⟨i, found⟩ := firstFrom_of_taken t.slots.reverse 1 _ (by omega) taken
  obtain ⟨from_one, there, before⟩ := firstFrom_eq_some t.slots.reverse 1 i found
  have bound : i < t.slots.length := by
    by_contra beyond
    rw [List.getElem?_eq_none (by simp; omega)] at there
    simp at there
  have shrinks : t.Shrinks (t.keepLeft (t.slots.length - i)) := by
    apply t.keepLeft_shrinks
    intro m from_end
    rcases Nat.lt_or_ge m t.slots.length with inside | beyond
    · rcases Nat.eq_zero_or_pos (t.slots.length - 1 - m) with last | earlier
      · rw [← get_add, show t.min + m = t.min + t.slots.length - 1 by omega]
        exact free
      · have empty := before (t.slots.length - 1 - m) earlier (by omega)
        rw [reversed _ (by omega), get_add] at empty
        rwa [show t.slots.length - 1 - (t.slots.length - 1 - m) = m by omega] at empty
    · rw [List.getElem?_eq_none beyond]
      rfl
  refine ⟨t.keepLeft (t.slots.length - i), by rw [shrinkRight, found]; rfl, fun _ => ?_, shrinks⟩
  rw [shrinks.get, shrinks.get]
  have size : (t.slots.take (t.slots.length - i)).length = t.slots.length - i := by
    rw [List.length_take]
    exact Nat.min_eq_left (by omega)
  simp only [keepLeft, size]
  refine ⟨first, ?_⟩
  rw [reversed i bound] at there
  rw [show t.min + (t.slots.length - i) - 1 = t.min + (t.slots.length - 1 - i) by omega]
  exact Option.isSome_iff_ne_none.mp there

theorem get_of_live_zero (t : RangeTable α) (none_taken : t.live = 0) (j : Nat) :
    t.get j = none := by
  rw [live, List.countP_eq_zero] at none_taken
  rcases Nat.lt_or_ge j t.min with before | after
  · exact t.get_of_lt j before
  · rw [t.get_of_le j after]
    cases slot : t.slots[j - t.min]? with
    | none => rfl
    | some x => simpa using none_taken x (List.mem_of_getElem? slot)

/-- A single slot that is taken is all the table needs. -/
theorem single_shrinks (t : RangeTable α) (k : Nat) (x : α) (one : t.live = 1)
    (taken : t.get k = some x) :
    (⟨k, [some x]⟩ : RangeTable α).Tight ∧ t.Shrinks ⟨k, [some x]⟩ := by
  have inside := t.covers_of_get k (by simp [taken])
  have others (j : Nat) (differ : j ≠ k) : t.get j = none := by
    have counted := t.live_put k none inside
    rw [taken, one] at counted
    have freed := get_of_live_zero (t.put k none) (by simpa using counted) j
    rwa [t.get_put k j none inside, if_neg differ] at freed
  have alone (j : Nat) : (⟨k, [some x]⟩ : RangeTable α).get j = t.get j := by
    rcases eq_or_ne j k with rfl | differ
    · rw [taken]
      simp [get]
    · rw [others j differ]
      apply get_of_not_covers
      simp only [covers, List.length_singleton, decide_eq_false_iff_not]
      omega
  obtain ⟨low, high⟩ := (t.covers_iff k).mp inside
  exact ⟨fun _ => by simp [get], alone, by rw [one]; rfl, by simp; omega⟩

/-- Two slots that are taken are not a single one. -/
theorem eq_of_live_one (t : RangeTable α) (j k : Nat) (one : t.live = 1) (first : t.get j ≠ none)
    (second : t.get k ≠ none) : j = k := by
  obtain ⟨x, found⟩ := Option.ne_none_iff_exists'.mp first
  have alone := (t.single_shrinks j x one found).2.get k
  have covered := covers_of_get _ _ (alone ▸ second)
  simp only [covers_iff, List.length_singleton] at covered
  omega

theorem length_eq_one_iff (t : RangeTable α) (tight : t.Tight) (nonempty : t.slots ≠ []) :
    t.slots.length = 1 ↔ t.live = 1 := by
  have ends := tight nonempty
  have some_slot := List.length_pos_iff.mpr nonempty
  constructor
  · intro one
    obtain ⟨slot, only⟩ := List.length_eq_one_iff.mp one
    obtain ⟨x, first⟩ := Option.ne_none_iff_exists'.mp ends.1
    have taken := t.get_add 0
    rw [Nat.add_zero, first, only] at taken
    simp only [List.getElem?_cons_zero, Option.join_some] at taken
    simp [live, only, ← taken]
  · intro one
    have same := t.eq_of_live_one _ _ one ends.1 ends.2
    omega

theorem live_pos (t : RangeTable α) (k : Nat) (taken : t.get k ≠ none) : 0 < t.live := by
  by_contra nothing
  exact taken (t.get_of_live_zero (by omega) k)

/-- `prune` frees the slot of a key and leaves no empty slot at the ends. It is told how many
slots are taken. -/
def Prunes (prune : Nat → RangeTable α → Nat → Option (Nat × RangeTable α)) : Prop :=
  ∀ (t : RangeTable α) (k : Nat) (x : α), t.Tight → t.get k = some x →
    ∃ u, prune t.live t k = some (t.live - 1, u) ∧ u.Tight ∧ u.live = t.live - 1 ∧
      (∀ j, u.get j = if j = k then none else t.get j) ∧
      u.min + u.slots.length ≤ t.min + t.slots.length

/-- `single` finds the other one of two slots that are taken. -/
def FindsOther (single : RangeTable α → Nat → Option (Nat × α)) : Prop :=
  ∀ (t : RangeTable α) (c : Nat), t.Tight → t.get c ≠ none → t.live = 2 →
    ∃ k x, single (t.put c none) c = some (k, x) ∧ (t.put c none).get k = some x

theorem prune_prunes (single : RangeTable α → Nat → Option (Nat × α))
    (finds : FindsOther single) : Prunes (prune single) := by
  intro t c x tight found
  have taken : t.get c ≠ none := found ▸ Option.some_ne_none x
  have inside := t.covers_of_get c taken
  obtain ⟨low, high⟩ := (t.covers_iff c).mp inside
  have nonempty : t.slots ≠ [] := List.length_pos_iff.mp (by omega)
  have positive := t.live_pos c taken
  have size := t.length_eq_one_iff tight nonempty
  obtain ⟨first, last⟩ := tight nonempty
  have gone (j : Nat) := t.get_put c j none inside
  have counted : (t.put c none).live = t.live - 1 := by
    have both := t.live_put c none inside
    simp only [found, Option.isSome_some, Option.isSome_none, if_true, Bool.false_eq_true,
      if_false] at both
    omega
  -- a table that was shrunk is as good as the one with the free slot
  have enough (u : RangeTable α) (u_tight : u.Tight) (shrinks : (t.put c none).Shrinks u) :
      u.Tight ∧ u.live = t.live - 1 ∧ (∀ j, u.get j = if j = c then none else t.get j) ∧
        u.min + u.slots.length ≤ t.min + t.slots.length :=
    ⟨u_tight, shrinks.live.trans counted, fun j => (shrinks.get j).trans (gone j),
      (t.length_put c none) ▸ shrinks.within⟩
  simp only [prune]
  rw [if_neg (by omega)]
  by_cases one : t.slots.length = 1
  · rw [if_pos one, if_pos (size.mp one)]
    refine ⟨_, rfl, fun empty => absurd rfl empty, by rw [size.mp one]; rfl, ?_, by simp⟩
    intro j
    rw [get_of_not_covers _ j (by simp [covers])]
    split
    · rfl
    · exact (t.get_of_not_covers j (by simp [covers]; omega)).symm
  · rw [if_neg one, if_neg (by omega)]
    by_cases two : t.live - 1 = 1
    · obtain ⟨k, y, here, left⟩ := finds t c tight taken (by omega)
      obtain ⟨u_tight, shrinks⟩ := single_shrinks _ k y (counted.trans two) left
      rw [if_pos two, here]
      exact ⟨_, rfl, enough _ u_tight shrinks⟩
    · rw [if_neg two]
      by_cases at_min : c = t.min
      · obtain ⟨u, shrunk, u_tight, shrinks⟩ := shrinkLeft_spec (t.put c none)
          (by rw [gone, min_put, if_pos at_min.symm]) (by
            rw [gone, length_put, min_put, if_neg (by omega)]
            exact last)
        rw [if_pos (show c = (t.put c none).min from at_min), shrunk]
        exact ⟨u, rfl, enough u u_tight shrinks⟩
      · rw [if_neg (show ¬ c = (t.put c none).min from at_min)]
        by_cases at_max : c = t.min + t.slots.length - 1
        · obtain ⟨u, shrunk, u_tight, shrinks⟩ := shrinkRight_spec (t.put c none)
            (by
              rw [gone, min_put, if_neg (Ne.symm at_min)]
              exact first)
            (by rw [gone, length_put, min_put, if_pos at_max.symm])
          rw [if_pos (show c = (t.put c none).min + _ - 1 from at_max), shrunk]
          exact ⟨u, rfl, enough u u_tight shrinks⟩
        · rw [if_neg (show ¬ c = (t.put c none).min + _ - 1 from at_max)]
          refine ⟨_, rfl, enough _ (fun _ => ?_) ⟨fun _ => rfl, rfl, Nat.le_refl _⟩⟩
          rw [gone, gone, length_put, min_put, if_neg (Ne.symm at_min), if_neg (Ne.symm at_max)]
          exact ⟨first, last⟩

/-! ### Compacting -/

theorem Shrinks.trans {t u v : RangeTable α} (first : t.Shrinks u) (second : u.Shrinks v) :
    t.Shrinks v where
  get j := (second.get j).trans (first.get j)
  live := second.live.trans first.live
  within := Nat.le_trans second.within first.within

theorem live_eq_zero (t : RangeTable α) (free : ∀ k, t.get k = none) : t.live = 0 := by
  rw [live, List.countP_eq_zero]
  intro slot member
  obtain ⟨i, bound, rfl⟩ := List.mem_iff_getElem.mp member
  have empty := free (t.min + i)
  rw [get_add, List.getElem?_eq_getElem bound, Option.join_some] at empty
  simp [empty]

/-- What `lo` and `hi` tell of the slots that are taken, where the search for them started with
`found`. -/
structure Bounds (t : RangeTable α) (found : Nat × Nat) (lo hi : Nat) : Prop where
  between : ∀ j, t.get j ≠ none → lo ≤ j ∧ j ≤ hi
  lo_le : lo ≤ found.1
  le_hi : found.2 ≤ hi
  lo_taken : lo = found.1 ∨ t.get lo ≠ none
  hi_taken : hi = found.2 ∨ t.get hi ≠ none

theorem bounds_spec (found : Nat × Nat) (k : Nat) (slots : List (Option α)) :
    Bounds ⟨k, slots⟩ found (bounds found k slots).1 (bounds found k slots).2 := by
  induction slots generalizing found k with
  | nil =>
    refine ⟨fun j taken => ?_, Nat.le_refl _, Nat.le_refl _, Or.inl rfl, Or.inl rfl⟩
    have inside := covers_of_get _ j taken
    rw [covers_iff, List.length_nil] at inside
    omega
  | cons slot slots ih =>
    have head : (⟨k, slot :: slots⟩ : RangeTable α).get k = slot := by
      rw [get_of_le _ k (Nat.le_refl k)]
      simp
    have tail (j : Nat) (differ : j ≠ k) : (⟨k, slot :: slots⟩ : RangeTable α).get j =
        (⟨k + 1, slots⟩ : RangeTable α).get j := by
      rcases Nat.lt_or_ge j k with before | after
      · rw [get_of_lt _ j before, get_of_lt _ j (Nat.lt_succ_of_lt before)]
      · rw [get_of_le _ j after, get_of_le _ j (show k + 1 ≤ j by omega)]
        simp only [show j - k = j - (k + 1) + 1 by omega, List.getElem?_cons_succ]
    have lift (j : Nat) (taken : (⟨k + 1, slots⟩ : RangeTable α).get j ≠ none) :
        (⟨k, slot :: slots⟩ : RangeTable α).get j ≠ none := by
      rw [tail j]
      · exact taken
      · rintro rfl
        exact taken (get_of_lt _ j (Nat.lt_succ_self j))
    cases slot with
    | none =>
      have rest := ih found (k + 1)
      refine ⟨fun j taken => rest.between j ?_, rest.lo_le, rest.le_hi,
        rest.lo_taken.imp_right (lift _), rest.hi_taken.imp_right (lift _)⟩
      rwa [← tail j (fun same => taken (same ▸ head))]
    | some x =>
      have here : (⟨k, some x :: slots⟩ : RangeTable α).get k ≠ none := by simp [head]
      obtain ⟨lo, lo_eq⟩ : ∃ lo, lo = if k < found.1 then k else found.1 := ⟨_, rfl⟩
      obtain ⟨hi, hi_eq⟩ : ∃ hi, hi = if found.2 < k then k else found.2 := ⟨_, rfl⟩
      have least : lo ≤ k ∧ lo ≤ found.1 ∧ (lo = k ∨ lo = found.1) := by
        rw [lo_eq]
        split <;> omega
      have greatest : k ≤ hi ∧ found.2 ≤ hi ∧ (hi = k ∨ hi = found.2) := by
        rw [hi_eq]
        split <;> omega
      rw [bounds, ← lo_eq, ← hi_eq]
      obtain ⟨between, lo_le, le_hi, lo_taken, hi_taken⟩ := ih (lo, hi) (k + 1)
      refine ⟨fun j taken => ?_, by omega, by omega, ?_, ?_⟩
      · rcases eq_or_ne j k with rfl | differ
        · omega
        · exact between j (by rwa [← tail j differ])
      · rcases lo_taken with start | taken
        · rw [start]
          rcases least.2.2 with rfl | same
          · exact Or.inr here
          · exact Or.inl same
        · exact Or.inr (lift _ taken)
      · rcases hi_taken with start | taken
        · rw [start]
          rcases greatest.2.2 with rfl | same
          · exact Or.inr here
          · exact Or.inl same
        · exact Or.inr (lift _ taken)

theorem live_le_one (t : RangeTable α) (k : Nat) (alone : ∀ j, t.get j ≠ none → j = k) :
    t.live ≤ 1 := by
  cases inside : t.covers k with
  | true =>
    have freed : (t.put k none).live = 0 := by
      apply live_eq_zero
      intro j
      rw [t.get_put k j none inside]
      split
      · rfl
      · next differ => exact not_not.mp (mt (alone j) differ)
    have counted := t.live_put k none inside
    rw [freed] at counted
    simp only [Option.isSome_none, Bool.false_eq_true, if_false] at counted
    split at counted <;> omega
  | false =>
    have empty : t.live = 0 := by
      apply live_eq_zero
      intro j
      by_contra taken
      have same := alone j taken
      subst same
      exact taken (t.get_of_not_covers j inside)
    omega

theorem compact_spec (t : RangeTable α) (more : 1 < t.slots.length) :
    ∃ u, compact t.live t = some u ∧ u.Tight ∧ t.Shrinks u := by
  obtain ⟨between, lo_le, le_hi, lo_taken, hi_taken⟩ :=
    bounds_spec (t.min + t.slots.length - 1, t.min) t.min t.slots
  simp only [compact]
  generalize (bounds (t.min + t.slots.length - 1, t.min) t.min t.slots).1 = lo at *
  generalize (bounds (t.min + t.slots.length - 1, t.min) t.min t.slots).2 = hi at *
  rw [if_neg (by omega)]
  by_cases nothing : t.live = 0
  · rw [if_pos nothing]
    have free := t.get_of_live_zero nothing
    refine ⟨_, rfl, fun nonempty => absurd rfl nonempty, fun j => ?_, nothing.symm, by simp⟩
    rw [free j]
    exact get_of_not_covers _ j (by simp [covers])
  · rw [if_neg nothing]
    obtain ⟨k, taken⟩ : ∃ k, t.get k ≠ none := by
      by_contra free
      exact nothing (t.live_eq_zero fun k => not_not.mp fun taken => free ⟨k, taken⟩)
    have inside := between k taken
    have covered := (t.covers_iff k).mp (t.covers_of_get k taken)
    -- a bound that the search started with is at the end of the table
    have lo_some : t.get lo ≠ none := by
      rcases lo_taken with start | some_slot
      · rwa [show lo = k by simp only at start; omega]
      · exact some_slot
    have hi_some : t.get hi ≠ none := by
      rcases hi_taken with start | some_slot
      · rwa [show hi = k by simp only at start; omega]
      · exact some_slot
    have lo_covered := (t.covers_iff lo).mp (t.covers_of_get lo lo_some)
    have hi_covered := (t.covers_iff hi).mp (t.covers_of_get hi hi_some)
    by_cases one : t.live = 1
    · have same := t.eq_of_live_one lo hi one lo_some hi_some
      obtain ⟨node, found⟩ := Option.ne_none_iff_exists'.mp lo_some
      obtain ⟨tight, shrinks⟩ := t.single_shrinks lo node one found
      rw [if_pos one, if_pos ⟨same, lo_covered⟩, ← t.get_of_le lo lo_covered.1, found]
      exact ⟨_, rfl, tight, shrinks⟩
    · rw [if_neg one]
      have apart : lo < hi := by
        by_contra together
        have few := t.live_le_one lo fun j some_slot => by
          have := between j some_slot
          omega
        omega
      by_cases loose : t.min < lo ∨ hi < t.min + t.slots.length - 1
      · rw [if_pos loose, if_pos (by omega)]
        have left : t.Shrinks (t.dropLeft (lo - t.min)) := by
          apply t.dropLeft_shrinks _ (by omega)
          intro m less
          rw [← get_add]
          by_contra some_slot
          have := between _ some_slot
          omega
        have right : (t.dropLeft (lo - t.min)).Shrinks
            ((t.dropLeft (lo - t.min)).keepLeft (hi - lo + 1)) := by
          apply keepLeft_shrinks
          intro m beyond
          rw [← get_add, left.get]
          by_contra some_slot
          have := between _ some_slot
          simp only [dropLeft] at this
          omega
        have both := left.trans right
        refine ⟨_, rfl, fun _ => ?_, both⟩
        rw [both.get, both.get]
        have size : (((t.dropLeft (lo - t.min)).keepLeft (hi - lo + 1)).slots).length =
            hi - lo + 1 := by
          simp only [dropLeft, keepLeft, List.length_take, List.length_drop]
          omega
        rw [size]
        simp only [dropLeft, keepLeft]
        rw [show t.min + (lo - t.min) = lo by omega, show lo + (hi - lo + 1) - 1 = hi by omega]
        exact ⟨lo_some, hi_some⟩
      · rw [if_neg loose]
        refine ⟨t, rfl, fun _ => ?_, fun j => rfl, rfl, Nat.le_refl _⟩
        rw [show t.min = lo by omega, show lo + t.slots.length - 1 = hi by omega]
        exact ⟨lo_some, hi_some⟩

end RangeTable

end Foundation
