import OfxZeroMQ.Foundation.Transition
import OfxZeroMQ.Model.Subscriber

/-!
# Filters and subscriptions

The set of filters has no multiplicity and the socket counts. The two stay in step until a
filter that was added twice is removed.
-/
namespace OfxZeroMQ

open Foundation

namespace Subscriber

/-- The socket is subscribed to exactly the filters. -/
def Synced (s : Subscriber) : Prop := Subscription.active s.subscriptions = s.filters

instance (s : Subscriber) : Decidable s.Synced :=
  inferInstanceAs (Decidable (Subscription.active s.subscriptions = s.filters))

theorem Synced.count_pos_iff {s : Subscriber} (synced : s.Synced) (filter : Bytes) :
    0 < s.subscriptions.count filter ↔ filter ∈ s.filters := by
  rw [← synced, Subscription.mem_active]

theorem Synced.accepts_iff {s : Subscriber} (synced : s.Synced) (topic : Bytes) :
    s.accepts topic = true ↔ ∃ f ∈ s.filters, f <+: topic := by
  rw [accepts, Subscription.check_iff, synced]

theorem fresh_synced : fresh.Synced := rfl

/-! ### One operation -/

theorem addFilter_synced (s : Subscriber) (synced : s.Synced) (filter : Bytes) :
    (s.addFilter filter).Synced := by
  simp only [Synced, addFilter, Subscription.active_add]
  rw [synced]

theorem connect_synced (s : Subscriber) (synced : s.Synced) (address : Bytes) :
    (s.connect address).Synced := by
  by_cases none : s.filters = ∅
  · rw [connect, if_pos none]
    exact addFilter_synced s synced []
  · rw [connect, if_neg none]
    exact synced

theorem removeFilter_synced_iff (s : Subscriber) (synced : s.Synced) (filter : Bytes)
    (member : filter ∈ s.filters) :
    (s.removeFilter filter).2.Synced ↔ s.subscriptions.count filter = 1 := by
  have positive := (synced.count_pos_iff filter).mpr member
  rw [removeFilter, if_pos member]
  simp only [Synced, Finset.ext_iff, Subscription.mem_active, Subscription.count_rm,
    Finset.mem_erase]
  simp only [← synced.count_pos_iff]
  constructor
  · -- the filter has left the set, so that its last subscription must have gone
    intro same
    have gone := same filter
    simp only [if_true, ne_eq, not_true_eq_false, false_and, iff_false] at gone
    omega
  · intro once q
    by_cases equal : q = filter
    · subst equal
      rw [if_pos rfl, once]
      simp
    · rw [if_neg equal]
      simp [equal]

theorem removeAllFilters_synced_iff (s : Subscriber) (synced : s.Synced) :
    s.removeAllFilters.Synced ↔ ∀ f ∈ s.filters, s.subscriptions.count f = 1 := by
  simp only [Synced, removeAllFilters, Finset.ext_iff, Subscription.mem_active,
    Subscription.count_rmAll, Finset.notMem_empty, iff_false]
  constructor
  · intro gone f member
    have positive := (synced.count_pos_iff f).mpr member
    have left := gone f
    rw [if_pos member] at left
    omega
  · intro once q
    by_cases member : q ∈ s.filters
    · simp [member, once q member]
    · have none := mt (synced.count_pos_iff q).mp member
      simpa [member] using none

/-- What is promised of an operation: afterwards the socket is subscribed to exactly the
filters and lets exactly the matching messages through, and `removeFilter` tells whether it
ended a subscription. -/
def KeepsPromise (s : Subscriber) (op : Operation) : Prop :=
  ∀ t, s.step op = some t → t.Synced ∧
    (∀ topic, t.accepts topic = true ↔ ∃ f ∈ t.filters, f <+: topic) ∧
    ∀ f, op = .removeFilter f → ((s.removeFilter f).1 = true ↔
      f ∈ Subscription.active s.subscriptions ∧ f ∉ Subscription.active t.subscriptions)

/-- Whatever the operation removes was added exactly once since it was last removed. -/
def RemovesSingle (s : Subscriber) : Operation → Prop
  | .removeFilter filter => filter ∈ s.filters → s.subscriptions.count filter = 1
  | .removeAllFilters => ∀ f ∈ s.filters, s.subscriptions.count f = 1
  | .connect _ | .addFilter _ => True

theorem keepsPromise_iff (s : Subscriber) (synced : s.Synced) (op : Operation) :
    s.KeepsPromise op ↔ s.RemovesSingle op := by
  cases op with
  | connect address =>
    refine iff_of_true ?_ trivial
    rintro t ⟨⟩
    have kept := connect_synced s synced address
    exact ⟨kept, kept.accepts_iff, by simp⟩
  | addFilter filter =>
    refine iff_of_true ?_ trivial
    rintro t ⟨⟩
    have kept := addFilter_synced s synced filter
    exact ⟨kept, kept.accepts_iff, by simp⟩
  | removeAllFilters =>
    rw [RemovesSingle, ← removeAllFilters_synced_iff s synced]
    constructor
    · exact fun promise => (promise _ rfl).1
    · rintro kept t ⟨⟩
      exact ⟨kept, kept.accepts_iff, by simp⟩
  | removeFilter filter =>
    by_cases member : filter ∈ s.filters
    · rw [RemovesSingle, imp_iff_right member, ← removeFilter_synced_iff s synced filter member]
      constructor
      · exact fun promise => (promise _ rfl).1
      · rintro kept t ⟨⟩
        refine ⟨kept, kept.accepts_iff, ?_⟩
        rintro f ⟨⟩
        rw [kept, synced]
        simp [removeFilter, member]
    · refine iff_of_true ?_ fun present => absurd present member
      rintro t ⟨⟩
      have unchanged : s.removeFilter filter = (false, s) := by simp [removeFilter, member]
      rw [unchanged]
      refine ⟨synced, synced.accepts_iff, ?_⟩
      rintro f ⟨⟩
      rw [unchanged, synced]
      simp [member]

end Subscriber

/-! ### Runs -/

/-- Filters and subscriptions agree after every operation of a sequence exactly when no
operation of it removes a filter that was added more than once since it was last removed. -/
theorem subscriber_filters_iff (operations : List Subscriber.Operation) :
    Transition.Meets Subscriber.step Subscriber.KeepsPromise .fresh operations ↔
      Transition.Meets Subscriber.step Subscriber.RemovesSingle .fresh operations := by
  refine Transition.meets_iff Subscriber.step Subscriber.Synced _ _
    (fun s op synced => s.keepsPromise_iff synced op) ?_ .fresh operations Subscriber.fresh_synced
  exact fun s op t _ promise stepped => (promise t stepped).1

/-- A filter added twice and removed once is still subscribed, though `removeFilter` reports
its removal. -/
theorem addFilter_twice :
    ∃ s t, Transition.run Subscriber.step .fresh [.addFilter [97], .addFilter [97]] = some s ∧
      s.step (.removeFilter [97]) = some t ∧ (s.removeFilter [97]).1 = true ∧
      t.filters = ∅ ∧ Subscription.active t.subscriptions = {[97]} ∧
      t.accepts [97, 98] = true ∧ ¬ s.KeepsPromise (.removeFilter [97]) := by
  refine ⟨_, _, rfl, rfl, by decide, by decide, by decide, by decide, ?_⟩
  intro promise
  exact absurd (promise _ rfl).1 (by decide)

end OfxZeroMQ
