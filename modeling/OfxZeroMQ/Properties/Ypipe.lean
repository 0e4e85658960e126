import Mathlib.Data.List.TakeDrop
import OfxZeroMQ.Foundation.Channel
import OfxZeroMQ.Foundation.Refinement
import OfxZeroMQ.Model.Ypipe

/-!
# The queue between two threads is a channel

Whatever the two threads do in between, nothing is lost or read twice, no item is read before
everything it is continued by can be read, and a `flush` tells whether the reader has to be woken
up.
-/
namespace OfxZeroMQ

open Foundation Foundation.Refinement

namespace Ypipe

variable {α : Type}

structure Represents (s : Ypipe α) (ch : Channel α) : Prop where
  front_le : s.front ≤ s.items.length
  items : s.items.drop s.front = ch.contents
  w : s.front + ch.sent.length = s.w
  f : s.w + ch.ready.length = s.f
  c : s.c = if ch.asleep then none else some s.w
  r : ∀ k, s.r = some k → s.front ≤ k ∧ k ≤ s.w
  fair : ch.Fair

theorem Represents.back {s : Ypipe α} {ch : Channel α} (represents : s.Represents ch) :
    s.back = s.f + ch.unfinished.length := by
  have size := congrArg List.length represents.items
  have := represents.front_le
  have := represents.w
  have := represents.f
  simp only [List.length_drop, Channel.contents, List.length_append] at size
  rw [Ypipe.back]
  omega

theorem empty_represents : (empty : Ypipe α).Represents .empty := by
  refine ⟨Nat.le_refl _, rfl, rfl, rfl, rfl, ?_, fun _ => rfl⟩
  rintro k ⟨⟩
  exact ⟨Nat.le_refl _, Nat.le_refl _⟩

theorem write_represents (s : Ypipe α) (ch : Channel α) (represents : s.Represents ch)
    (value : α) (incomplete : Bool) :
    (s.write value incomplete).Represents (ch.write value incomplete) := by
  have size := represents.back
  have appended : (s.items ++ [value]).drop s.front = ch.contents ++ [value] := by
    rw [List.drop_append_of_le_length represents.front_le, represents.items]
  have longer : s.front ≤ (s.items ++ [value]).length := by
    have := represents.front_le
    simp only [List.length_append]
    omega
  cases incomplete with
  | true =>
    refine ⟨longer, appended.trans ?_, represents.w, represents.f, represents.c, represents.r,
      represents.fair⟩
    simp [Channel.contents, Channel.write]
  | false =>
    refine ⟨longer, appended.trans ?_, represents.w, ?_, represents.c, represents.r,
      represents.fair⟩
    · simp [Channel.contents, Channel.write]
    -- `f` moves only behind what is complete.
    · have before := represents.f
      simp only [back] at size
      simp only [write, back, Channel.write, List.length_append, Bool.false_eq_true, if_false]
      omega

/-- Only what is unfinished can be taken back, and it is taken from the end. -/
theorem unwrite_represents (s : Ypipe α) (ch : Channel α) (represents : s.Represents ch) :
    s.unwrite.1 = ch.unwrite.1 ∧ s.unwrite.2.Represents ch.unwrite.2 := by
  have size := represents.back
  rw [unwrite, Channel.unwrite]
  by_cases nothing : s.f = s.back
  · have none_left : ch.unfinished = [] := List.length_eq_zero_iff.mp (by omega)
    have same : { ch with unfinished := ch.unfinished.dropLast } = ch := by
      cases ch
      simp_all
    rw [if_pos nothing, same, none_left]
    exact ⟨rfl, represents⟩
  · have some_left : ch.unfinished ≠ [] := by
      intro none_left
      rw [none_left] at size
      exact nothing size.symm
    -- What is unfinished lies behind the front, so the array is not empty there.
    have more : s.front < s.items.length := by
      have := List.length_pos_iff.mpr some_left
      have := represents.w
      have := represents.f
      rw [back] at size
      omega
    have last : s.items.getLast? = ch.unfinished.getLast? := by
      have whole := congrArg List.getLast? represents.items
      rw [List.getLast?_drop, if_neg (by omega), Channel.contents, ← List.append_assoc,
        List.getLast?_append_of_ne_nil _ some_left] at whole
      exact whole
    have shorter : s.items.dropLast.drop s.front =
        ch.sent ++ (ch.ready ++ ch.unfinished.dropLast) := by
      rw [← List.dropLast_drop_eq_drop_dropLast, represents.items, Channel.contents,
        ← List.append_assoc, List.dropLast_append_of_ne_nil some_left, List.append_assoc]
    rw [if_neg nothing]
    refine ⟨last, ?_, shorter, represents.w, represents.f, represents.c, represents.r,
      represents.fair⟩
    simp only [List.length_dropLast]
    omega

/-- A `flush` that is not made in one step finds the reader asleep. -/
theorem flush_represents (s : Ypipe α) (ch : Channel α) (represents : s.Represents ch) :
    if ch.asleep = true ∧ ch.ready ≠ [] then s.flush = (.flushing, { s with waking := true })
    else s.flush.1 = .result ch.flush.1 ∧ s.flush.2.Represents ch.flush.2 ∧
      s.flush.2.waking = s.waking := by
  have ready := represents.f
  have shared := represents.c
  by_cases nothing : ch.ready = []
  · have same : s.w = s.f := by simpa [nothing] using ready
    simp [nothing, flush, same, Channel.flush, represents]
  · have differ : s.w ≠ s.f := by
      have := List.length_pos_iff.mpr nothing
      omega
    cases asleep : ch.asleep with
    | true =>
      -- The reader has set `c` to null, and the compare-and-swap fails.
      have other : s.c ≠ some s.w := by simp [shared, asleep]
      simp [nothing, flush, differ, other]
    | false =>
      have current : s.c = some s.w := by simp [shared, asleep]
      simp only [nothing, flush, differ, current, Channel.flush, asleep, if_true, if_false,
        Bool.false_eq_true, false_and, Bool.not_false, true_and, and_true]
      refine ⟨represents.front_le, ?_, ?_, rfl, rfl, ?_, ?_⟩
      · rw [represents.items]
        simp [Channel.contents]
      · have := represents.w
        simp only [List.length_append]
        omega
      · intro k found
        have := represents.r k found
        simp only
        omega
      · intro awake
        simp at awake

/-- The second step of a `flush` that found the reader asleep ends it as the channel does in one. -/
theorem wake_represents (s : Ypipe α) (ch : Channel α) (represents : s.Represents ch)
    (asleep : ch.asleep = true) (some_ready : ch.ready ≠ []) :
    s.wake.1 = .result ch.flush.1 ∧ s.wake.2.Represents ch.flush.2 := by
  have ready := represents.f
  simp only [wake, Channel.flush, some_ready, asleep, if_false, Bool.not_true, true_and]
  refine ⟨represents.front_le, ?_, ?_, rfl, rfl, ?_, ?_⟩
  · rw [represents.items]
    simp [Channel.contents]
  · have := represents.w
    simp only [List.length_append]
    omega
  · intro k found
    have := represents.r k found
    simp only
    omega
  · intro awake
    simp at awake

/-- After a successful check the reader has prefetched the first item. -/
theorem checkRead_represents (s : Ypipe α) (ch : Channel α) (represents : s.Represents ch) :
    s.checkRead.1 = ch.checkRead.1 ∧ s.checkRead.2.Represents ch.checkRead.2 ∧
      s.checkRead.2.waking = s.waking ∧
      (s.checkRead.1 = true → s.checkRead.2.r ≠ some s.checkRead.2.front) := by
  have position := represents.w
  have shared := represents.c
  obtain ⟨sent, ready, unfinished, asleep⟩ := ch
  rw [checkRead]
  cases sent with
  | nil =>
    have at_front : s.w = s.front := by simpa using position.symm
    -- What was prefetched is read already, and the reader falls asleep.
    have stale : ¬ (s.r ≠ some s.front ∧ s.r ≠ none) := by
      rintro ⟨other, prefetched⟩
      obtain ⟨k, found⟩ := Option.ne_none_iff_exists'.mp prefetched
      have := represents.r k found
      exact other (found.trans (congrArg some (by omega)))
    have nothing : ¬ (s.c ≠ some s.front ∧ s.c ≠ none) := by
      rw [shared, at_front]
      split <;> simp
    have sleeps : (if s.c = some s.front then none else s.c) = none := by
      rw [shared, at_front]
      split <;> simp
    rw [if_neg stale]
    simp only [nothing, sleeps, decide_false, Bool.false_eq_true, false_implies, and_true]
    refine ⟨rfl, represents.front_le, represents.items, at_front.symm, represents.f, rfl, ?_,
      fun _ => rfl⟩
    intro k found
    have found : s.c = some k := found
    rw [shared] at found
    split at found
    · simp at found
    · simp only [Option.some.injEq] at found
      simp only
      omega
  | cons value rest =>
    have awake : asleep = false := by
      by_contra sleeping
      have := represents.fair (by simpa using sleeping)
      simp at this
    subst awake
    have behind : s.w ≠ s.front := by
      simp only [List.length_cons] at position
      omega
    have current : s.c = some s.w := shared
    -- Either the item is prefetched from an earlier check, or the check prefetches up to `c`.
    by_cases prefetched : s.r ≠ some s.front ∧ s.r ≠ none
    · rw [if_pos prefetched]
      exact ⟨rfl, represents, rfl, fun _ => prefetched.1⟩
    · rw [if_neg prefetched]
      simp only [current, Option.some.injEq, behind, ne_eq, not_false_eq_true, reduceCtorEq,
        and_self, decide_true, if_false, and_true, implies_true]
      refine ⟨rfl, represents.front_le, represents.items, position, represents.f, rfl, ?_,
        represents.fair⟩
      rintro k ⟨⟩
      simp only
      omega

/-- The item at the front is the first one of what was sent. -/
theorem read_represents (s : Ypipe α) (ch : Channel α) (represents : s.Represents ch) :
    ∃ t, s.read = some (ch.read.1, t) ∧ t.Represents ch.read.2 ∧ t.waking = s.waking := by
  obtain ⟨same, kept, waking, prefetched⟩ := s.checkRead_represents ch represents
  rw [read]
  generalize s.checkRead = checked at same kept waking prefetched ⊢
  obtain ⟨available, t⟩ := checked
  obtain ⟨sent, ready, unfinished, asleep⟩ := ch
  simp only at same kept waking prefetched ⊢
  cases sent with
  | nil =>
    obtain rfl : available = false := same
    exact ⟨t, rfl, kept, waking⟩
  | cons value rest =>
    obtain rfl : available = true := same
    have items : t.items.drop t.front = value :: (rest ++ (ready ++ unfinished)) := kept.items
    have first : t.items[t.front]? = some value := by
      rw [← List.head?_drop, items, List.head?_cons]
    have later : t.items.drop (t.front + 1) = rest ++ (ready ++ unfinished) := by
      rw [← List.tail_drop, items, List.tail_cons]
    have position : t.front + (rest.length + 1) = t.w := kept.w
    have bound : t.front < t.items.length := (List.getElem?_eq_some_iff.mp first).1
    rw [if_pos rfl, first]
    have next : t.front + 1 + rest.length = t.w := by omega
    -- The front stays before `r`: it was not at `r`, or the check would have failed.
    refine ⟨_, rfl, ⟨bound, later, next, kept.f, kept.c, ?_, ?_⟩, waking⟩
    · intro k found
      have found : t.r = some k := found
      have := kept.r k found
      have other : k ≠ t.front := by
        rintro rfl
        exact prefetched rfl found
      simp only
      omega
    · intro sleeping
      have := kept.fair sleeping
      simp [Channel.checkRead] at this

/-! ### Runs -/

/-- What a channel answers; the flag says whether a `flush` is waiting to wake the reader up. -/
def answer (a : Channel α × Bool) : YpipeCall α → YpipeAnswer α × (Channel α × Bool)
  | .write value incomplete =>
    if a.2 then (.refused, a) else (.done, (a.1.write value incomplete, false))
  | .unwrite => if a.2 then (.refused, a) else (.value a.1.unwrite.1, (a.1.unwrite.2, false))
  | .flush =>
    if a.2 then (.refused, a)
    else if a.1.asleep = true ∧ a.1.ready ≠ [] then (.flushing, (a.1, true))
    else (.result a.1.flush.1, (a.1.flush.2, false))
  | .wake => if a.2 then (.result a.1.flush.1, (a.1.flush.2, false)) else (.refused, a)
  | .checkRead => (.result a.1.checkRead.1, (a.1.checkRead.2, a.2))
  | .read => (.value a.1.read.1, (a.1.read.2, a.2))

/-- A pipe and a channel, between two steps; `owed` is what a waiting `flush` has found. -/
structure Simulates (s : Ypipe α) (a : Channel α × Bool) : Prop where
  represents : s.Represents a.1
  waking : s.waking = a.2
  owed : a.2 = true → a.1.asleep = true ∧ a.1.ready ≠ []

/-- The reader does not wake up by itself, nor does it take what was not sent. -/
theorem checkRead_owed (ch : Channel α) (owed : ch.asleep = true ∧ ch.ready ≠ []) :
    ch.checkRead.2.asleep = true ∧ ch.checkRead.2.ready ≠ [] := by
  rw [Channel.checkRead]
  split
  · exact ⟨rfl, owed.2⟩
  · exact owed

theorem read_owed (ch : Channel α) (owed : ch.asleep = true ∧ ch.ready ≠ []) :
    ch.read.2.asleep = true ∧ ch.read.2.ready ≠ [] := by
  rw [Channel.read]
  split
  · exact ⟨rfl, owed.2⟩
  · exact owed

/-- Every step answers as the channel does. -/
theorem step_implements :
    Implements step answer fun _ (s : Ypipe α) a => s.Simulates a := by
  rintro n s ⟨ch, flag⟩ call ⟨represents, waking, owed⟩
  simp only at represents waking owed
  cases call with
  | checkRead =>
    obtain ⟨same, kept, still, -⟩ := s.checkRead_represents ch represents
    exact ⟨_, by rw [step, same]; rfl, kept, still.trans waking,
      fun flagged => checkRead_owed ch (owed flagged)⟩
  | read =>
    obtain ⟨t, done, kept, still⟩ := s.read_represents ch represents
    exact ⟨t, by rw [step, done]; rfl, kept, still.trans waking,
      fun flagged => read_owed ch (owed flagged)⟩
  | write value incomplete =>
    cases flag with
    | true => exact ⟨s, by simp [step, waking, answer], represents, waking, owed⟩
    | false =>
      have kept := s.write_represents ch represents value incomplete
      refine ⟨_, by simp [step, waking, answer], kept, ?_, by simp [answer]⟩
      cases incomplete <;> exact waking
  | unwrite =>
    cases flag with
    | true => exact ⟨s, by simp [step, waking, answer], represents, waking, owed⟩
    | false =>
      obtain ⟨same, kept⟩ := s.unwrite_represents ch represents
      refine ⟨_, by simp [step, waking, answer, same], kept, ?_, by simp [answer]⟩
      rw [unwrite]
      split <;> exact waking
  | flush =>
    cases flag with
    | true => exact ⟨s, by simp [step, waking, answer], represents, waking, owed⟩
    | false =>
      have spec := s.flush_represents ch represents
      -- Where the reader sleeps, the call ends in a step of its own.
      by_cases sleeps : ch.asleep = true ∧ ch.ready ≠ []
      · rw [if_pos sleeps] at spec
        refine ⟨{ s with waking := true }, by simp [step, waking, answer, spec, sleeps], ?_⟩
        simp only [answer, Bool.false_eq_true, if_false, if_pos sleeps]
        exact ⟨⟨represents.front_le, represents.items, represents.w, represents.f, represents.c,
          represents.r, represents.fair⟩, rfl, fun _ => sleeps⟩
      · rw [if_neg sleeps] at spec
        obtain ⟨same, kept, still⟩ := spec
        refine ⟨s.flush.2, ?_, ?_⟩
        · simp only [step, waking, answer, Bool.false_eq_true, if_false, if_neg sleeps, ← same]
        · simp only [answer, Bool.false_eq_true, if_false, if_neg sleeps]
          exact ⟨kept, still.trans waking, by simp⟩
  | wake =>
    cases flag with
    | false => exact ⟨s, by simp [step, waking, answer], represents, waking, owed⟩
    | true =>
      obtain ⟨asleep, some_ready⟩ := owed rfl
      obtain ⟨same, kept⟩ := s.wake_represents ch represents asleep some_ready
      refine ⟨s.wake.2, ?_, kept, rfl, by simp [answer]⟩
      simp only [step, waking, answer, if_true, ← same]

end Ypipe

/-- However the steps of the writing and of the reading thread alternate, also between the failed
compare-and-swap of a `flush` and the end of it: the terminator is never read as an item, and all
answers are those of a channel, which loses nothing, keeps the order, holds back what is to be
continued, and tells a `flush` to wake the reader up exactly when the reader has found nothing and
something is sent. -/
theorem ypipe_answers {α : Type} (calls : List (YpipeCall α)) :
    ∃ t, answers Ypipe.step Ypipe.empty calls =
        some ((expected Ypipe.answer (Channel.empty, false) calls).1, t) ∧
      t.Simulates (expected Ypipe.answer (Channel.empty, false) calls).2 :=
  answers_eq Ypipe.step Ypipe.answer (fun _ s a => s.Simulates a) Ypipe.step_implements 0
    Ypipe.empty (Channel.empty, false) calls ⟨Ypipe.empty_represents, rfl, by simp⟩

end OfxZeroMQ
