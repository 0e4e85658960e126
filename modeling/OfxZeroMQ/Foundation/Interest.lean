import Mathlib.Data.Finset.Basic
import Mathlib.Data.Finset.Image
import Mathlib.Data.Finset.SDiff
import Mathlib.Data.List.Infix
import Mathlib.Tactic.Tauto

/-!
# Who is interested in what

A table of pairs: each reader with the prefixes it asked for. A reader is interested in the topics
that one of its prefixes begins.
-/
namespace Foundation.Interest

variable {ι α : Type*} [DecidableEq ι] [DecidableEq α]

abbrev Table (ι α : Type*) := Finset (ι × List α)

/-- The readers that asked for exactly this prefix. -/
def holders (s : Table ι α) (p : List α) : Finset ι :=
  (s.filter fun x => x.2 = p).image Prod.fst

/-- The prefixes that a reader asked for. -/
def held (s : Table ι α) (i : ι) : Finset (List α) :=
  (s.filter fun x => x.1 = i).image Prod.snd

/-- The prefixes that some reader asked for. -/
def topics (s : Table ι α) : Finset (List α) := s.image Prod.snd

def interested (s : Table ι α) (topic : List α) : Finset ι :=
  (s.filter fun x => x.2 <+: topic).image Prod.fst

/-- What is left when a reader has gone. -/
def leave (s : Table ι α) (i : ι) : Table ι α := s.filter fun x => x.1 ≠ i

@[simp] theorem mem_holders (s : Table ι α) (p : List α) (i : ι) :
    i ∈ holders s p ↔ (i, p) ∈ s := by
  simp [holders]

@[simp] theorem mem_held (s : Table ι α) (i : ι) (p : List α) :
    p ∈ held s i ↔ (i, p) ∈ s := by
  simp [held]

omit [DecidableEq ι] in
@[simp] theorem mem_topics (s : Table ι α) (p : List α) :
    p ∈ topics s ↔ ∃ i, (i, p) ∈ s := by
  simp [topics]

@[simp] theorem mem_interested (s : Table ι α) (topic : List α) (i : ι) :
    i ∈ interested s topic ↔ ∃ p, (i, p) ∈ s ∧ p <+: topic := by
  simp [interested]

omit [DecidableEq α] in
@[simp] theorem mem_leave (s : Table ι α) (i j : ι) (p : List α) :
    (j, p) ∈ leave s i ↔ (j, p) ∈ s ∧ j ≠ i := by
  simp [leave]

theorem holders_insert (s : Table ι α) (i : ι) (p q : List α) :
    holders (insert (i, p) s) q = if q = p then insert i (holders s q) else holders s q := by
  ext j
  split
  · next same => simp [same]
  · next differ => simp [differ]

theorem holders_erase (s : Table ι α) (i : ι) (p q : List α) :
    holders (s.erase (i, p)) q = if q = p then (holders s q).erase i else holders s q := by
  ext j
  split
  · next same => simp [same]
  · next differ => simp [differ]

theorem holders_leave (s : Table ι α) (i : ι) (q : List α) :
    holders (leave s i) q = (holders s q).erase i := by
  ext j
  simp [and_comm]

theorem mem_topics_iff (s : Table ι α) (p : List α) : p ∈ topics s ↔ holders s p ≠ ∅ := by
  rw [← Finset.nonempty_iff_ne_empty, mem_topics]
  exact exists_congr fun i => (mem_holders s p i).symm

theorem topics_insert (s : Table ι α) (i : ι) (p : List α) :
    topics (insert (i, p) s) = insert p (topics s) := Finset.image_insert Prod.snd (i, p) s

/-- A prefix is dropped with the last reader that asked for it. -/
theorem topics_erase (s : Table ι α) (i : ι) (p : List α) (asked : (i, p) ∈ s) :
    topics (s.erase (i, p)) = if holders s p = {i} then (topics s).erase p else topics s := by
  ext q
  rw [mem_topics_iff, holders_erase]
  split
  · next same =>
    subst same
    split
    · next alone => simp [alone]
    · next others =>
      rw [mem_topics_iff, ne_eq, Finset.erase_eq_empty_iff]
      tauto
  · next differ =>
    split
    · rw [Finset.mem_erase, mem_topics_iff]
      exact (and_iff_right differ).symm
    · rw [mem_topics_iff]

theorem topics_leave (s : Table ι α) (i : ι) (gone : Finset (List α))
    (alone : ∀ p, p ∈ gone ↔ (i, p) ∈ s ∧ holders s p = {i}) :
    topics (leave s i) = topics s \ gone := by
  ext p
  rw [Finset.mem_sdiff, alone, mem_topics_iff, mem_topics_iff, holders_leave, ne_eq,
    Finset.erase_eq_empty_iff]
  constructor
  · intro left
    exact ⟨fun nobody => left (Or.inl nobody), fun only => left (Or.inr only.2)⟩
  · rintro ⟨somebody, others⟩ (nobody | only)
    · exact somebody nobody
    · refine others ⟨(mem_holders s p i).mp ?_, only⟩
      rw [only]
      exact Finset.mem_singleton_self i

/-- The readers are found on the way along the topic. -/
theorem mem_interested_iff (s : Table ι α) (topic : List α) (i : ι) :
    i ∈ interested s topic ↔ ∃ p ∈ topic.inits, i ∈ holders s p := by
  simp only [mem_interested, List.mem_inits, mem_holders]
  exact exists_congr fun p => and_comm

end Foundation.Interest
