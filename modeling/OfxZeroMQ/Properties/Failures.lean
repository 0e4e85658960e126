import OfxZeroMQ.Foundation.Traverse
import OfxZeroMQ.Properties.Filters

/-!
# What an operation of `Subscriber` leaves when it throws

Every operation changes the set of filters and the subscriptions of the socket in two steps, with
a call in between that may throw. Only where nothing was changed before that call does the
exception leave the object as it was.
-/
namespace OfxZeroMQ

open Foundation Foundation.Traverse

namespace Subscriber

/-! ### A call of the socket -/

theorem trySubscribe_eq_error_iff (s t : Subscriber) (throws : Bool) (filter : Bytes) :
    s.trySubscribe throws filter = .error t ↔ throws = true ∧ t = s := by
  cases throws <;> simp [trySubscribe, eq_comm]

theorem trySubscribe_eq_ok_iff (s t : Subscriber) (throws : Bool) (filter : Bytes) :
    s.trySubscribe throws filter = .ok t ↔ throws = false ∧
      t = { s with subscriptions := Subscription.add s.subscriptions filter } := by
  cases throws <;> simp [trySubscribe, eq_comm]

theorem tryUnsubscribe_eq_error_iff (s t : Subscriber) (throws : Bool) (filter : Bytes) :
    s.tryUnsubscribe throws filter = .error t ↔ throws = true ∧ t = s := by
  cases throws <;> simp [tryUnsubscribe, eq_comm]

theorem tryUnsubscribe_eq_ok_iff (s t : Subscriber) (throws : Bool) (filter : Bytes) :
    s.tryUnsubscribe throws filter = .ok t ↔ throws = false ∧
      t = { s with subscriptions := Subscription.rm s.subscriptions filter } := by
  cases throws <;> simp [tryUnsubscribe, eq_comm]

theorem trySocketConnect_eq_error_iff (s t : Subscriber) (throws : Bool) (address : Bytes) :
    s.trySocketConnect throws address = .error t ↔ throws = true ∧ t = s := by
  cases throws <;> simp [trySocketConnect, eq_comm]

/-! ### Without an exception -/

theorem tryUnsubscribeAll_accepted (s : Subscriber) (throws : Nat → Bool) (vs : List Bytes)
    (accepted : ∀ i, throws i = false) :
    s.tryUnsubscribeAll throws vs =
      .ok { s with subscriptions := vs.foldl Subscription.rm s.subscriptions } := by
  induction vs generalizing s throws with
  | nil => rw [tryUnsubscribeAll, List.foldl_nil]
  | cons v vs ih =>
    have first : s.tryUnsubscribe (throws 0) v =
        .ok { s with subscriptions := Subscription.rm s.subscriptions v } :=
      (tryUnsubscribe_eq_ok_iff _ _ _ _).mpr ⟨accepted 0, rfl⟩
    rw [tryUnsubscribeAll, first, List.foldl_cons]
    exact ih { s with subscriptions := Subscription.rm s.subscriptions v } _
      fun i => accepted (i + 1)

/-- The order in which the set is gone through does not matter. -/
theorem foldl_filterList (s : Subscriber) :
    s.filterList.foldl Subscription.rm s.subscriptions =
      Subscription.rmAll s.subscriptions s.filters := by
  rw [Subscription.rmAll, ← Finset.sort_eq s.filters (· ≤ ·), Multiset.coe_foldl, filterList]

/-- When no call throws, an operation does what it is meant to. -/
theorem tryStep_accepted (s t : Subscriber) (throws : Nat → Bool) (op : Operation)
    (accepted : ∀ i, throws i = false) (stepped : s.step op = some t) :
    s.tryStep throws op = .ok t := by
  cases op with
  | connect address =>
    rw [step, Option.some.injEq] at stepped
    rcases eq_or_ne s.filters ∅ with none | some
    · simp [tryStep, tryConnect, tryAddFilter, trySubscribe, trySocketConnect, accepted, none,
        ← stepped, connect, addFilter]
    · simp [tryStep, tryConnect, trySocketConnect, accepted, some, ← stepped, connect]
  | addFilter filter =>
    rw [step, Option.some.injEq] at stepped
    simp [tryStep, tryAddFilter, trySubscribe, accepted, ← stepped, addFilter]
  | removeFilter filter =>
    rw [step, Option.some.injEq] at stepped
    rcases Decidable.em (filter ∈ s.filters) with member | absent
    · simp [tryStep, tryRemoveFilter, tryUnsubscribe, accepted, member, Except.map, ← stepped,
        removeFilter]
    · simp [tryStep, tryRemoveFilter, absent, Except.map, ← stepped, removeFilter]
  | removeAllFilters =>
    rw [step, Option.some.injEq] at stepped
    rw [tryStep, tryRemoveAllFilters, tryUnsubscribeAll_accepted s throws _ accepted,
      foldl_filterList, ok_bind, pure_eq_ok, ← stepped, removeAllFilters]

/-! ### With an exception -/

/-- The loop has ended its round at the first call that throws. -/
theorem tryUnsubscribeAll_threw (s t : Subscriber) (throws : Nat → Bool) (vs : List Bytes)
    (threw : s.tryUnsubscribeAll throws vs = .error t) :
    ∃ k, k < vs.length ∧ throws k = true ∧ (∀ i < k, throws i = false) ∧
      t = { s with subscriptions := (vs.take k).foldl Subscription.rm s.subscriptions } := by
  induction vs generalizing s throws with
  | nil => simp [tryUnsubscribeAll] at threw
  | cons v vs ih =>
    rw [tryUnsubscribeAll, bind_eq_error_iff] at threw
    rcases threw with here | ⟨u, first, later⟩
    · obtain ⟨failed, rfl⟩ := (tryUnsubscribe_eq_error_iff _ _ _ _).mp here
      exact ⟨0, by simp, failed, by simp, by simp⟩
    · obtain ⟨returned, rfl⟩ := (tryUnsubscribe_eq_ok_iff _ _ _ _).mp first
      obtain ⟨k, inside, failed, before, rfl⟩ := ih _ _ later
      refine ⟨k + 1, by simpa using inside, failed, ?_, by rw [List.take_succ_cons]; rfl⟩
      intro i less
      cases i with
      | zero => exact returned
      | succ i => exact before i (by omega)

/-- The object is what it was before the call. -/
def Restored (s t : Subscriber) : Prop :=
  t.filters = s.filters ∧
    Subscription.active t.subscriptions = Subscription.active s.subscriptions

/-- Nothing that matters has changed when the first call throws: the set has the filter that is
to be added, has some filter on `connect`, and whatever `removeAllFilters` has unsubscribed is
subscribed more than once. -/
def FailsHarmlessly (s : Subscriber) (throws : Nat → Bool) : Operation → Prop
  | .connect _ => s.filters ≠ ∅
  | .addFilter filter => filter ∈ s.filters
  | .removeFilter _ => False
  | .removeAllFilters => ∀ (i : Nat) (f : Bytes), s.filterList[i]? = some f →
      (∀ j ≤ i, throws j = false) → 1 < s.subscriptions.count f

theorem addFilter_restored_iff (s t : Subscriber) (throws : Nat → Bool) (filter : Bytes)
    (threw : s.tryAddFilter throws filter = .error t) : s.Restored t ↔ filter ∈ s.filters := by
  rw [tryAddFilter, trySubscribe_eq_error_iff] at threw
  obtain ⟨-, rfl⟩ := threw
  simp [Restored]

/-- Whether the subscription or the connection fails, the filter `""` stays behind. -/
theorem connect_restored_iff (s t : Subscriber) (throws : Nat → Bool) (address : Bytes)
    (threw : s.tryConnect throws address = .error t) : s.Restored t ↔ s.filters ≠ ∅ := by
  rcases eq_or_ne s.filters ∅ with none | some
  · refine iff_of_false ?_ (not_not_intro none)
    rw [tryConnect, if_pos none, bind_eq_error_iff] at threw
    have left : t.filters = insert [] s.filters := by
      rcases threw with subscribed | ⟨u, subscribed, connected⟩
      · rw [tryAddFilter, trySubscribe_eq_error_iff] at subscribed
        rw [subscribed.2]
      · rw [tryAddFilter, trySubscribe_eq_ok_iff] at subscribed
        rw [trySocketConnect_eq_error_iff] at connected
        rw [connected.2, subscribed.2]
    rintro ⟨filters, -⟩
    rw [left, none] at filters
    exact absurd filters (Finset.insert_ne_empty [] ∅)
  · refine iff_of_true ?_ some
    rw [tryConnect, if_neg some, trySocketConnect_eq_error_iff] at threw
    obtain ⟨-, rfl⟩ := threw
    simp [Restored]

/-- The filter has left the set before the socket is asked. -/
theorem removeFilter_not_restored (s t : Subscriber) (throws : Nat → Bool) (filter : Bytes)
    (threw : s.tryRemoveFilter throws filter = .error t) : ¬ s.Restored t := by
  rw [tryRemoveFilter] at threw
  rcases Decidable.em (filter ∈ s.filters) with member | absent
  · rw [if_pos member, bind_eq_error_iff] at threw
    rcases threw with asked | ⟨u, -, never⟩
    · obtain ⟨-, rfl⟩ := (tryUnsubscribe_eq_error_iff _ _ _ _).mp asked
      rintro ⟨filters, -⟩
      exact Finset.erase_eq_self.mp filters member
    · simp at never
  · simp [absent] at threw

theorem removeAllFilters_restored_iff (s t : Subscriber) (synced : s.Synced)
    (throws : Nat → Bool) (threw : s.tryRemoveAllFilters throws = .error t) :
    s.Restored t ↔ s.FailsHarmlessly throws .removeAllFilters := by
  have loop : s.tryUnsubscribeAll throws s.filterList = .error t := by
    rw [tryRemoveAllFilters, bind_eq_error_iff] at threw
    rcases threw with failed | ⟨u, -, never⟩
    · exact failed
    · simp at never
  obtain ⟨k, inside, failed, before, rfl⟩ := tryUnsubscribeAll_threw s t throws _ loop
  have nodup : (s.filterList.take k).Nodup :=
    (Finset.sort_nodup s.filters (· ≤ ·)).sublist (List.take_sublist k _)
  have present : ∀ f ∈ s.filterList.take k, f ∈ Subscription.active s.subscriptions := by
    intro f member
    rw [synced]
    exact (Finset.mem_sort (· ≤ ·)).mp (List.mem_of_mem_take member)
  rw [Restored, and_iff_right (Eq.refl _), Subscription.active_foldl_rm_iff _ _ nodup present]
  constructor
  · intro many i f found made
    -- a call that was made comes before the one that throws
    have less : i < k := by
      by_contra past
      rw [made k (by omega)] at failed
      exact Bool.false_ne_true failed
    apply many
    rw [List.mem_take_iff_getElem]
    obtain ⟨bound, rfl⟩ := List.getElem?_eq_some_iff.mp found
    exact ⟨i, by omega, Eq.refl _⟩
  · intro harmless f member
    rw [List.mem_take_iff_getElem] at member
    obtain ⟨i, bound, rfl⟩ := member
    exact harmless i _ (List.getElem?_eq_getElem (by omega)) fun j le => before j (by omega)

end Subscriber

/-- An operation that throws leaves the filters and the subscriptions as they were exactly when
it had changed neither of them before the call that threw. -/
theorem atomic_on_failure_iff (s t : Subscriber) (synced : s.Synced) (throws : Nat → Bool)
    (op : Subscriber.Operation) (threw : s.tryStep throws op = .error t) :
    s.Restored t ↔ s.FailsHarmlessly throws op := by
  cases op with
  | connect address => exact s.connect_restored_iff t throws address threw
  | addFilter filter => exact s.addFilter_restored_iff t throws filter threw
  | removeFilter filter =>
    refine iff_of_false ?_ id
    apply s.removeFilter_not_restored t throws filter
    cases removed : s.tryRemoveFilter throws filter with
    | error u => simpa [Subscriber.tryStep, removed, Except.map] using threw
    | ok result => simp [Subscriber.tryStep, removed, Except.map] at threw
  | removeAllFilters => exact s.removeAllFilters_restored_iff t synced throws threw

/-- The address of a first `connect` is refused. The filter `""` stays, and the socket lets
every message through as soon as it is connected. -/
theorem connect_refused :
    ∃ t, Subscriber.fresh.Synced ∧
      Subscriber.fresh.tryStep (fun i => i == 1) (.connect [120]) = .error t ∧
      t.filters = {[]} ∧ Subscription.active t.subscriptions = {[]} ∧
      ¬ Subscriber.fresh.Restored t :=
  ⟨⟨{[]}, {[]}, []⟩, Subscriber.fresh_synced, rfl, by decide, by decide,
    fun restored => absurd restored.1 (by decide)⟩

/-- The address of a later `connect` is refused. -/
theorem connect_refused_again :
    let s : Subscriber := ⟨{[97]}, {[97]}, []⟩
    ∃ t, s.tryStep (fun _ => true) (.connect [120]) = .error t ∧ s.Restored t := by
  intro s
  have threw : s.tryStep (fun _ => true) (.connect [120]) = .error s := rfl
  refine ⟨s, threw, (atomic_on_failure_iff s s (by decide) _ _ threw).mpr ?_⟩
  simp [Subscriber.FailsHarmlessly, s]

end OfxZeroMQ
