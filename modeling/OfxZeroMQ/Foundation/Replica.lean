import Mathlib.Data.Finset.Dedup
import Mathlib.Data.Finset.Erase
import Mathlib.Data.Finset.Lattice.Lemmas
import Mathlib.Data.Finset.SDiff
import Mathlib.Tactic.Tauto

/-!
# Sets that are copied change by change

The owner of a set sends every change of it, and the copy is what the changes make of the set the
copy started with. Taking out what is not there is an error.
-/
namespace Foundation.Replica

variable {α : Type*} [DecidableEq α]

/-- A change puts an element into the set, or takes it out. -/
abbrev Change (α : Type*) := Bool × α

/-- What a copy becomes by the changes, as long as each of them can be made. -/
def replay : Finset α → List (Change α) → Option (Finset α)
  | s, [] => some s
  | s, (true, a) :: cs => replay (insert a s) cs
  | s, (false, a) :: cs => if a ∈ s then replay (s.erase a) cs else none

/-- Changes that come later are made to what the earlier ones have left. -/
theorem replay_append (s t : Finset α) (cs ds : List (Change α)) (first : replay s cs = some t) :
    replay s (cs ++ ds) = replay t ds := by
  induction cs generalizing s with
  | nil =>
    rw [replay, Option.some.injEq] at first
    rw [List.nil_append, first]
  | cons c cs ih =>
    obtain ⟨inserts, a⟩ := c
    cases inserts with
    | true => exact ih (insert a s) first
    | false =>
      simp only [List.cons_append, replay] at first ⊢
      split at first
      · next member =>
        rw [if_pos member]
        exact ih (s.erase a) first
      · simp at first

/-- Putting in many elements is a union. -/
theorem replay_inserts (s : Finset α) (as : List α) :
    replay s (as.map fun a => (true, a)) = some (s ∪ as.toFinset) := by
  induction as generalizing s with
  | nil => simp [replay]
  | cons a as ih =>
    rw [List.map_cons, replay, ih, List.toFinset_cons, Finset.insert_union,
      Finset.union_insert]

/-- Taking out many different elements, all of which are there, is a difference. -/
theorem replay_erases (s : Finset α) (as : List α) (nodup : as.Nodup)
    (member : ∀ a ∈ as, a ∈ s) :
    replay s (as.map fun a => (false, a)) = some (s \ as.toFinset) := by
  induction as generalizing s with
  | nil => simp [replay]
  | cons a as ih =>
    obtain ⟨other, rest⟩ := List.nodup_cons.mp nodup
    have left (b : α) (later : b ∈ as) : b ∈ s.erase a :=
      Finset.mem_erase.mpr ⟨fun same => other (same ▸ later), member b (by simp [later])⟩
    rw [List.map_cons, replay, if_pos (member a (by simp)), ih (s.erase a) rest left,
      Option.some.injEq]
    ext b
    simp only [Finset.mem_sdiff, Finset.mem_erase, List.mem_toFinset, List.mem_cons]
    tauto

end Foundation.Replica
