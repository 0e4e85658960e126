import Mathlib.Data.Finset.Dedup
import Mathlib.Data.Finset.Erase
import Mathlib.Data.Finset.Insert
import Mathlib.Data.Multiset.AddSub

/-!
# Reference-counted prefix subscriptions

A prefix is active while it was subscribed more often than it was cancelled. A topic matches
when an active prefix begins it.
-/
namespace Foundation.Subscription

variable {α : Type*} [DecidableEq α]

/-- Every subscription, as often as it counts. -/
abbrev Counts (α : Type*) := Multiset (List α)

def add (s : Counts α) (p : List α) : Counts α := p ::ₘ s

/-- Cancelling what is not subscribed does nothing. -/
def rm (s : Counts α) (p : List α) : Counts α := s.erase p

instance : RightCommutative (rm : Counts α → List α → Counts α) :=
  ⟨fun s p q => Multiset.erase_comm s p q⟩

/-- Cancel every prefix of a set once, in any order. -/
def rmAll (s : Counts α) (ps : Finset (List α)) : Counts α := ps.val.foldl rm s

def active (s : Counts α) : Finset (List α) := s.toFinset

def check (s : Counts α) (topic : List α) : Bool := decide (∃ p ∈ active s, p <+: topic)

@[simp] theorem mem_active (s : Counts α) (p : List α) : p ∈ active s ↔ 0 < s.count p := by
  simp [active, Multiset.count_pos]

@[simp] theorem active_add (s : Counts α) (p : List α) :
    active (add s p) = insert p (active s) := by
  simp [active, add]

theorem count_rm (s : Counts α) (p q : List α) :
    (rm s p).count q = if q = p then s.count q - 1 else s.count q := by
  by_cases same : q = p
  · subst same
    simp [rm]
  · simp [rm, same, Multiset.count_erase_of_ne]

theorem count_rmAll (s : Counts α) (ps : Finset (List α)) (q : List α) :
    (rmAll s ps).count q = if q ∈ ps then s.count q - 1 else s.count q := by
  have difference : rmAll s ps = s - ps.val := (Multiset.sub_eq_fold_erase s ps.val).symm
  rw [difference, Multiset.count_sub]
  by_cases member : q ∈ ps
  · rw [if_pos member, Multiset.count_eq_one_of_mem ps.nodup member]
  · rw [if_neg member, Multiset.count_eq_zero_of_notMem member, Nat.sub_zero]

/-- Cancelling some prefixes one after the other, each of them once. -/
theorem count_foldl_rm (s : Counts α) (ps : List (List α)) (nodup : ps.Nodup) (q : List α) :
    (ps.foldl rm s).count q = if q ∈ ps then s.count q - 1 else s.count q := by
  have all : rmAll s ⟨ps, Multiset.coe_nodup.mpr nodup⟩ = ps.foldl rm s :=
    Multiset.coe_foldl rm s ps
  rw [← all, count_rmAll]
  simp only [Finset.mem_mk, Multiset.mem_coe]

/-- The prefixes that are cancelled stay active exactly when each of them counts more than
once. -/
theorem active_foldl_rm_iff (s : Counts α) (ps : List (List α)) (nodup : ps.Nodup)
    (present : ∀ p ∈ ps, p ∈ active s) :
    active (ps.foldl rm s) = active s ↔ ∀ p ∈ ps, 1 < s.count p := by
  simp only [Finset.ext_iff, mem_active, count_foldl_rm s ps nodup]
  simp only [mem_active] at present
  constructor
  · intro same p member
    have kept := (same p).mpr (present p member)
    rw [if_pos member] at kept
    omega
  · intro many q
    by_cases member : q ∈ ps
    · have more := many q member
      rw [if_pos member]
      omega
    · rw [if_neg member]

theorem check_iff (s : Counts α) (topic : List α) :
    check s topic = true ↔ ∃ p ∈ active s, p <+: topic := by
  simp only [check, decide_eq_true_eq]

end Foundation.Subscription
