import OfxZeroMQ.Foundation.Placement

/-!
# Taking turns

The active ones among some items take turns. An item that becomes active is put behind the others
in the array, one that stops being active is replaced by the last active one.
-/
namespace Foundation

universe u

/-- Items of which the first `active` ones are active. The one at `current` has its turn; the index
stays inside the active ones, and is 0 where there are none. -/
structure Rotation (α : Type u) where
  slots : Placement α
  active : Nat
  current : Nat
  bounded : active ≤ slots.items.length
  valid : current < active ∨ current = 0

namespace Rotation

variable {α : Type u}

/-- No items, and nobody's turn. -/
def empty : Rotation α := ⟨.empty, 0, 0, Nat.zero_le _, .inr rfl⟩

abbrev items (r : Rotation α) : List α := r.slots.items

/-- An item is active when it stands among the first `active` ones. -/
def IsActive (r : Rotation α) (x : α) : Prop := x ∈ r.items ∧ r.slots.index x < r.active

/-- The item whose turn it is, where some item is active. -/
def next (r : Rotation α) : Option α := r.slots.items[r.current]?

/-- From the current index to another one, around the active ones. -/
def offset (active current index : Nat) : Nat :=
  if current ≤ index then index - current else index + active - current

/-- How many active items have their turn before an active item. -/
def distance (r : Rotation α) (x : α) : Nat := offset r.active r.current (r.slots.index x)

/-- Where some item is active, it is the turn of an active one. -/
theorem turn {r : Rotation α} (some_active : 0 < r.active) : r.current < r.active := by
  have := r.valid
  omega

/-- The one whose turn it is, is active and stands at the current index. -/
theorem next_active {r : Rotation α} (some_active : 0 < r.active) :
    ∃ x, r.next = some x ∧ r.IsActive x ∧ r.slots.index x = r.current := by
  have inside : r.current < r.slots.items.length :=
    Nat.lt_of_lt_of_le (turn some_active) r.bounded
  refine ⟨r.slots.items[r.current], List.getElem?_eq_getElem inside,
    ⟨List.getElem_mem inside, ?_⟩, r.slots.placed _ inside⟩
  rw [r.slots.placed]
  exact turn some_active

/-- It is the turn of an item when the current index is its own. -/
theorem next_iff {r : Rotation α} {x : α} (member : x ∈ r.items) :
    r.next = some x ↔ r.slots.index x = r.current := r.slots.getElem?_iff member _

theorem IsActive.some_active {r : Rotation α} {x : α} (active : r.IsActive x) : 0 < r.active :=
  Nat.zero_lt_of_lt active.2

/-- An active item waits for fewer turns than there are active items. -/
theorem distance_lt {r : Rotation α} {x : α} (active : r.IsActive x) :
    r.distance x < r.active := by
  have bound := active.2
  have := r.valid
  simp only [distance, offset]
  split <;> omega

/-- The next one has its turn. -/
def advance (r : Rotation α) : Rotation α :=
  if some_active : 0 < r.active then
    { r with
      current := (r.current + 1) % r.active
      valid := .inl (Nat.mod_lt _ some_active) }
  else r

/-- That a turn passes does not change who is active. -/
theorem active_advance (r : Rotation α) (x : α) : r.advance.IsActive x ↔ r.IsActive x := by
  rw [advance]
  split <;> rfl

theorem items_advance (r : Rotation α) : r.advance.items = r.items := by
  rw [advance]
  split <;> rfl

/-- Whenever another one has its turn, an active item is one turn nearer. -/
theorem distance_advance {r : Rotation α} {y : α} (active : r.IsActive y)
    (other : r.next ≠ some y) : r.advance.distance y + 1 = r.distance y := by
  have bound := active.2
  have apart : r.slots.index y ≠ r.current := mt (next_iff active.1).mpr other
  have := r.valid
  rw [advance, dif_pos active.some_active]
  change offset r.active ((r.current + 1) % r.active) (r.slots.index y) + 1 =
    offset r.active r.current (r.slots.index y)
  -- After the last active item the turn goes to the first one.
  by_cases last : r.current + 1 = r.active
  · rw [last, Nat.mod_self]
    simp only [offset]
    split <;> split <;> omega
  · rw [Nat.mod_eq_of_lt (by omega)]
    simp only [offset]
    split <;> split <;> omega

variable [DecidableEq α]

/-- A new item is active at once: it is put at the end and swapped with the first passive one. -/
def attach (r : Rotation α) (x : α) (absent : x ∉ r.items) : Rotation α where
  slots := (r.slots.push x absent).swap r.active r.slots.items.length
    (by simpa [Placement.push] using Nat.lt_succ_of_le r.bounded) (by simp [Placement.push])
  active := r.active + 1
  current := r.current
  bounded := by simpa [Placement.push] using r.bounded
  valid := r.valid.imp_left Nat.lt_succ_of_lt

/-- An item that has become active is swapped with the first passive one. -/
def activate (r : Rotation α) (x : α) (present : x ∈ r.items)
    (room : r.active < r.items.length) : Rotation α where
  slots := r.slots.swap (r.slots.index x) r.active (r.slots.index_lt present) room
  active := r.active + 1
  current := r.current
  bounded := by
    rw [Placement.length_swap]
    exact room
  valid := r.valid.imp_left Nat.lt_succ_of_lt

/-- The item at an index stops being active. -/
def retire (r : Rotation α) (i : Nat) (inside : i < r.active) : Rotation α where
  slots := r.slots.swap i (r.active - 1) (Nat.lt_of_lt_of_le inside r.bounded)
    (by have := r.bounded; omega)
  active := r.active - 1
  current := if r.current = r.active - 1 then 0 else r.current
  bounded := by
    have := r.bounded
    simp only [Placement.length_swap]
    omega
  valid := by
    have := r.valid
    split <;> omega

/-- The one whose turn it is stops being active. -/
def deactivate (r : Rotation α) : Rotation α :=
  if inside : r.current < r.active then r.retire r.current inside else r

/-- An item stops being active before it is taken out. -/
def leave (r : Rotation α) (x : α) : Rotation α :=
  if inside : r.slots.index x < r.active then r.retire _ inside else r

section Retire

variable (r : Rotation α) (i : Nat) (inside : i < r.active)

@[simp] theorem items_retire (y : α) : y ∈ (r.retire i inside).items ↔ y ∈ r.items := by
  simp [items, retire]

/-- The last active item fills the gap. -/
theorem index_retire {y : α} (member : y ∈ r.items) :
    (r.retire i inside).slots.index y =
      if r.slots.index y = i then r.active - 1
      else if r.slots.index y = r.active - 1 then i else r.slots.index y :=
  r.slots.index_swap _ _ _ _ member

/-- Only the item at the index stops being active. -/
theorem active_retire (y : α) :
    (r.retire i inside).IsActive y ↔ r.IsActive y ∧ r.slots.index y ≠ i := by
  simp only [IsActive, items_retire]
  constructor
  · rintro ⟨member, bound⟩
    rw [index_retire r i inside member] at bound
    simp only [retire] at bound
    refine ⟨⟨member, ?_⟩, ?_⟩ <;> grind
  · rintro ⟨⟨member, bound⟩, apart⟩
    refine ⟨member, ?_⟩
    rw [index_retire r i inside member]
    simp only [retire]
    grind

end Retire

section Leave

variable {r : Rotation α} {x : α}

@[simp] theorem items_leave (y : α) : y ∈ (r.leave x).items ↔ y ∈ r.items := by
  rw [leave]
  split <;> simp

/-- The item is behind the active ones. -/
theorem le_index_leave (present : x ∈ r.items) :
    (r.leave x).active ≤ (r.leave x).slots.index x := by
  rw [leave]
  split
  · next inside =>
    rw [index_retire r _ inside present, if_pos rfl]
    exact Nat.le_refl _
  · next outside => exact Nat.le_of_not_lt outside

/-- Only the item that leaves stops being active. -/
theorem active_leave {y : α} (present : x ∈ r.items) :
    (r.leave x).IsActive y ↔ r.IsActive y ∧ y ≠ x := by
  rw [leave]
  split
  · next inside =>
    rw [active_retire]
    -- No two items have the same index.
    refine and_congr_right fun active => not_congr ?_
    constructor
    · intro same
      have here := r.slots.getElem?_index active.1
      rw [same, r.slots.getElem?_index present] at here
      exact (Option.some.inj here).symm
    · exact fun same => same ▸ rfl
  · next outside =>
    refine ⟨fun active => ⟨active, ?_⟩, And.left⟩
    rintro rfl
    exact outside active.2

/-- The item is still there when it has stopped being active. -/
theorem mem_leave (present : x ∈ r.items) : x ∈ (r.leave x).slots.items :=
  (items_leave x).mpr present

/-- Without the item there is still room for the active ones. -/
theorem bounded_leave (present : x ∈ r.items) :
    (r.leave x).active ≤ ((r.leave x).slots.erase x (mem_leave present)).items.length := by
  have last := le_index_leave present
  have inside := (r.leave x).slots.index_lt (mem_leave present)
  rw [Placement.length_erase]
  omega

end Leave

/-- An item is taken out, whether it is active or not. -/
def remove (r : Rotation α) (x : α) (present : x ∈ r.items) : Rotation α where
  slots := (r.leave x).slots.erase x (mem_leave present)
  active := (r.leave x).active
  current := (r.leave x).current
  bounded := bounded_leave present
  valid := (r.leave x).valid

/-! ### Attaching and activating -/

section Attach

variable {r : Rotation α} {x : α} (absent : x ∉ r.items)

@[simp] theorem mem_attach (y : α) : y ∈ (r.attach x absent).items ↔ y = x ∨ y ∈ r.items := by
  simp [items, attach, Placement.push, or_comm]

/-- The first passive item makes room for the new one; nobody else goes anywhere. -/
theorem index_attach {y : α} (member : y ∈ r.items) :
    (r.attach x absent).slots.index y =
      if r.slots.index y = r.active then r.items.length else r.slots.index y := by
  have other : y ≠ x := fun same => absent (same ▸ member)
  have inside := r.slots.index_lt member
  have later : y ∈ (r.slots.push x absent).items := List.mem_append_left _ member
  simp only [attach]
  rw [Placement.index_swap _ _ _ _ _ later, Placement.index_push, if_neg other]
  simp only [items]
  grind

/-- The new item is the last of the active ones. -/
theorem index_attach_self : (r.attach x absent).slots.index x = r.active := by
  have later : x ∈ (r.slots.push x absent).items := List.mem_append_right _ (by simp)
  simp only [attach]
  rw [Placement.index_swap _ _ _ _ _ later, Placement.index_push, if_pos rfl]
  grind

/-- A new item is active, and nobody else becomes active or passive. -/
theorem active_attach (y : α) :
    (r.attach x absent).IsActive y ↔ y = x ∨ r.IsActive y := by
  by_cases same : y = x
  · subst same
    refine ⟨fun _ => .inl rfl, fun _ => ⟨(mem_attach absent y).mpr (.inl rfl), ?_⟩⟩
    rw [index_attach_self]
    exact Nat.lt_succ_self _
  · simp only [IsActive, mem_attach, same, false_or]
    refine and_congr_right fun member => ?_
    have inside := r.slots.index_lt member
    have := r.bounded
    rw [index_attach absent member]
    simp only [attach, items] at *
    split <;> omega

/-- Where it is somebody's turn, it stays so when an item is attached. -/
theorem next_attach (turn : r.current < r.active) : (r.attach x absent).next = r.next := by
  have inside := r.bounded
  dsimp only [next, attach]
  rw [Placement.getElem?_swap, if_neg (by omega), if_neg (by omega), Placement.push,
    List.getElem?_append_left (by omega)]

end Attach

section Activate

variable {r : Rotation α} {x : α} (present : x ∈ r.items) (room : r.active < r.items.length)

@[simp] theorem mem_activate (y : α) : y ∈ (r.activate x present room).items ↔ y ∈ r.items := by
  simp [items, activate]

/-- The first passive item and the one that becomes active change places. -/
theorem index_activate {y : α} (member : y ∈ r.items) :
    (r.activate x present room).slots.index y =
      if r.slots.index y = r.slots.index x then r.active
      else if r.slots.index y = r.active then r.slots.index x else r.slots.index y :=
  r.slots.index_swap _ _ _ _ member

/-- A passive item becomes active, and nobody else becomes active or passive. -/
theorem active_activate (passive : r.active ≤ r.slots.index x) (y : α) :
    (r.activate x present room).IsActive y ↔ y = x ∨ r.IsActive y := by
  simp only [IsActive, mem_activate]
  by_cases same : y = x
  · subst same
    simp only [present, index_activate present room present, true_and, true_or, iff_true, if_true]
    exact Nat.lt_succ_self _
  · simp only [same, false_or]
    refine and_congr_right fun member => ?_
    have apart : r.slots.index y ≠ r.slots.index x := by
      intro equal
      have here := r.slots.getElem?_index member
      rw [equal, r.slots.getElem?_index present] at here
      exact same (Option.some.inj here).symm
    rw [index_activate present room member, if_neg apart]
    simp only [activate]
    split <;> omega

/-- Where it is somebody's turn, it stays so when another item becomes active. -/
theorem next_activate (passive : r.active ≤ r.slots.index x) (turn : r.current < r.active) :
    (r.activate x present room).next = r.next := by
  dsimp only [next, activate]
  rw [Placement.getElem?_swap, if_neg (by omega), if_neg (by omega)]

end Activate

/-! ### Leaving -/

section Leaving

variable {r : Rotation α} {x : α} (present : x ∈ r.items)

/-- Exactly the one item is taken out. -/
theorem mem_remove (y : α) : y ∈ (r.remove x present).items ↔ y ∈ r.items ∧ y ≠ x := by
  have erased := Placement.mem_erase (r.leave x).slots x (mem_leave present) y
  exact erased.trans (and_congr_left fun _ => items_leave y)

/-- Nobody else becomes active or passive when an item is taken out. -/
theorem active_remove (y : α) :
    (r.remove x present).IsActive y ↔ r.IsActive y ∧ y ≠ x := by
  rw [← active_leave present]
  by_cases member : y ∈ r.items ∧ y ≠ x
  · obtain ⟨member, other⟩ := member
    have later := (items_leave (x := x) y).mpr member
    have outside := le_index_leave present
    have inside := (r.leave x).slots.index_lt (mem_leave present)
    have moved := Placement.index_erase _ x (mem_leave present) later other
    have bound := (r.leave x).bounded
    simp only [IsActive, mem_remove, member, other, later, ne_eq, not_false_eq_true, and_self,
      true_and]
    simp only [remove]
    -- The item at the end, which may fill the gap, is passive: the one that leaves is behind the
    -- active ones already.
    rw [moved]
    split <;> omega
  · have absent : ¬(y ∈ (r.leave x).items ∧ y ≠ x) := by simpa using member
    constructor
    · exact fun active => absurd ((mem_remove present y).mp active.1) member
    · intro active
      exact absurd ⟨active.1, ((active_leave present).mp active).2⟩ absent

/-- When the item leaves, it is still the turn of the same one. -/
def Steady (r : Rotation α) (x : α) : Prop :=
  r.slots.index x < r.active →
    r.slots.index x ≠ r.current ∧ (r.current + 1 = r.active → r.slots.index x = 0)

instance (r : Rotation α) (x : α) : Decidable (r.Steady x) := by
  unfold Steady
  infer_instance

/-- An item that leaves a steady rotation does not take away the turn of another one. -/
theorem next_remove (turn : r.current < r.active) (steady : r.Steady x) :
    (r.remove x present).next = r.next := by
  have bound := r.bounded
  have at_last := r.slots.index_lt present
  dsimp only [next, remove]
  rw [Placement.getElem?_erase]
  simp only [leave]
  split
  · next inside =>
    obtain ⟨apart, wraps⟩ := steady inside
    have moved := index_retire r _ inside present
    rw [if_pos rfl] at moved
    rw [moved]
    simp only [retire, Placement.length_swap, Placement.getElem?_swap]
    -- The current item may be the one that fills the gap; the turn goes to index 0 then.
    by_cases last : r.current + 1 = r.active
    · have first := wraps last
      have here : r.active - 1 = r.current := by omega
      simp only [here, first]
      grind
    · grind
  · next outside => grind

end Leaving

/-! ### Waiting -/

/-- One more active item makes the way around at most one longer. -/
theorem offset_succ_le (active current index : Nat) :
    offset (active + 1) current index ≤ offset active current index + 1 := by
  simp only [offset]
  split <;> omega

/-- Who is active waits for at most one turn more when an item is attached. -/
theorem distance_attach {r : Rotation α} {x y : α} (absent : x ∉ r.items)
    (active : r.IsActive y) : (r.attach x absent).distance y ≤ r.distance y + 1 := by
  have bound := active.2
  have same := index_attach absent active.1
  rw [if_neg (Nat.ne_of_lt bound)] at same
  rw [distance, distance, same]
  change offset (r.active + 1) r.current _ ≤ _
  exact offset_succ_le _ _ _

/-- Who is active waits for at most one turn more when another item becomes active. -/
theorem distance_activate {r : Rotation α} {x y : α} (present : x ∈ r.items)
    (room : r.active < r.items.length) (passive : r.active ≤ r.slots.index x)
    (active : r.IsActive y) : (r.activate x present room).distance y ≤ r.distance y + 1 := by
  have bound := active.2
  have same := index_activate present room active.1
  rw [if_neg (by omega), if_neg (by omega)] at same
  rw [distance, distance, same]
  change offset (r.active + 1) r.current _ ≤ _
  exact offset_succ_le _ _ _

theorem deactivate_eq {r : Rotation α} (some_active : 0 < r.active) :
    r.deactivate = r.retire r.current (turn some_active) := dif_pos (turn some_active)

theorem mem_deactivate {r : Rotation α} (some_active : 0 < r.active) (y : α) :
    y ∈ r.deactivate.items ↔ y ∈ r.items := by
  rw [deactivate_eq some_active]
  exact items_retire r _ (turn some_active) y

theorem count_deactivate {r : Rotation α} {n : Nat} (count : r.active = n + 1) :
    r.deactivate.active = n := by
  rw [deactivate_eq (by omega)]
  exact Nat.sub_eq_of_eq_add count

/-- The one whose turn it is stops being active, and nobody else does. -/
theorem active_deactivate {r : Rotation α} (some_active : 0 < r.active) (y : α) :
    r.deactivate.IsActive y ↔ r.IsActive y ∧ r.next ≠ some y := by
  rw [deactivate_eq some_active, active_retire]
  exact and_congr_right fun active => not_congr (next_iff active.1).symm

/-- Nobody has to wait longer when the one whose turn it is stops being active. -/
theorem distance_deactivate {r : Rotation α} (some_active : 0 < r.active) {y : α}
    (active : r.deactivate.IsActive y) : r.deactivate.distance y ≤ r.distance y := by
  rw [deactivate_eq some_active] at active ⊢
  obtain ⟨⟨member, bound⟩, apart⟩ := (active_retire _ _ _ y).mp active
  have := r.valid
  rw [distance, distance, index_retire _ _ _ member, if_neg apart]
  simp only [retire, offset]
  grind

end Rotation

end Foundation
