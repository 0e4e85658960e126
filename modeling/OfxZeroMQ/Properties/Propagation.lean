import OfxZeroMQ.Foundation.Transition
import OfxZeroMQ.Model.XPubSubProxy

/-!
# What the proxy propagates

The worker of `XPubSubProxy` never reads the XPUB socket and never writes the XSUB socket,
so no subscription reaches a publisher and no publisher has anything to send.
-/
namespace OfxZeroMQ

open Foundation

namespace XPubSubProxy

variable {ι : Type}

/-- What holds in every state of the proxy. -/
structure Invariant (s : XPubSubProxy ι) : Prop where
  silent : s.requests = []
  starved : s.sub.queue = []
  -- the worker never gets to its two calls
  idle : s.pc ≠ .receive ∧ s.pc ≠ .send
  undelivered : s.delivered = 0
  -- only who is subscribed is owed anything
  subscribed : ∀ x ∈ s.owed, ∃ topic, (x.1, topic) ∈ s.subscriptions

theorem setup_invariant (isRunning : Bool) : (setup isRunning : XPubSubProxy ι).Invariant where
  silent := rfl
  starved := rfl
  idle := by simp [setup]
  undelivered := rfl
  subscribed := by simp [setup]

theorem Invariant.requested_eq {s : XPubSubProxy ι} (invariant : s.Invariant) :
    s.requested = 0 := by
  simp [requested, invariant.silent]

theorem Invariant.isQuiescent {s : XPubSubProxy ι} (invariant : s.Invariant) : s.IsQuiescent :=
  ⟨invariant.starved, invariant.idle⟩

/-- The publishers have been asked for what the subscribers asked the proxy for, and every
message that is owed to a subscriber was forwarded to it. -/
def Propagates (s : XPubSubProxy ι) : Prop :=
  Subscription.active s.requested = s.subscriptions.image Prod.snd ∧
    ∀ x ∈ s.owed, x ∈ s.delivered

theorem Invariant.propagates_iff {s : XPubSubProxy ι} (invariant : s.Invariant) :
    s.Propagates ↔ s.subscriptions = ∅ := by
  have asked : Subscription.active s.requested = ∅ := by rw [invariant.requested_eq]; rfl
  rw [Propagates, asked, eq_comm, Finset.image_eq_empty]
  refine ⟨And.left, fun none => ⟨none, fun x member => ?_⟩⟩
  obtain ⟨topic, found⟩ := invariant.subscribed x member
  simp [none] at found

/-! ### One step -/

variable [DecidableEq ι]

theorem subscribe_invariant (s : XPubSubProxy ι) (invariant : s.Invariant) (subscriber : ι)
    (topic : Bytes) : (s.subscribe subscriber topic).Invariant := by
  obtain ⟨silent, starved, idle, undelivered, subscribed⟩ := invariant
  refine ⟨silent, starved, idle, undelivered, fun x member => ?_⟩
  obtain ⟨t, found⟩ := subscribed x member
  exact ⟨t, Finset.mem_insert_of_mem found⟩

theorem unsubscribe_invariant (s : XPubSubProxy ι) (invariant : s.Invariant) (subscriber : ι)
    (topic : Bytes) : (s.unsubscribe subscriber topic).Invariant := by
  obtain ⟨silent, starved, idle, undelivered, subscribed⟩ := invariant
  refine ⟨silent, starved, idle, undelivered, fun x member => ?_⟩
  obtain ⟨owed, other⟩ := Multiset.mem_filter.mp member
  obtain ⟨t, found⟩ := subscribed x owed
  refine ⟨t, Finset.mem_erase.mpr ⟨fun same => other ?_, found⟩⟩
  exact congrArg Prod.fst same

/-- Nothing was requested, so no publication reaches the XSUB socket. -/
theorem publish_invariant (s : XPubSubProxy ι) (invariant : s.Invariant) (topic : Bytes)
    (others : List Bytes) : (s.publish topic others).Invariant := by
  have unasked : Subscription.check s.requested topic = false := by
    rw [invariant.requested_eq]
    rfl
  have quiescent := invariant.isQuiescent
  obtain ⟨silent, starved, idle, undelivered, subscribed⟩ := invariant
  refine ⟨silent, ?_, idle, undelivered, fun x member => ?_⟩
  · simpa [publish, unasked] using starved
  · simp only [publish, if_pos quiescent, Multiset.mem_add, Multiset.mem_map] at member
    rcases member with owed | ⟨i, matches', rfl⟩
    · exact subscribed x owed
    · simp only [matching, Finset.mem_val, Finset.mem_image, Finset.mem_filter] at matches'
      obtain ⟨⟨j, t⟩, ⟨found, _⟩, rfl⟩ := matches'
      exact ⟨t, found⟩

theorem step_invariant (s t : XPubSubProxy ι) (e : Event ι) (stepped : s.step e = some t)
    (invariant : s.Invariant) : t.Invariant := by
  cases e with
  | subscribe subscriber topic =>
    cases stepped
    exact subscribe_invariant s invariant subscriber topic
  | unsubscribe subscriber topic =>
    cases stepped
    exact unsubscribe_invariant s invariant subscriber topic
  | publish topic others =>
    cases stepped
    exact publish_invariant s invariant topic others
  | stop =>
    cases stepped
    obtain ⟨silent, starved, idle, undelivered, subscribed⟩ := invariant
    exact ⟨silent, starved, idle, undelivered, subscribed⟩
  | worker =>
    have nothing : s.hasWaitingMessage = false := by simp [hasWaitingMessage, invariant.starved]
    obtain ⟨silent, starved, idle, undelivered, subscribed⟩ := invariant
    -- with nothing waiting, the worker only goes round its loop
    have moves (pc : ProxyPc) (m : MultipartMessage) (quiet : pc ≠ .receive ∧ pc ≠ .send) :
        ({ s with pc := pc, m := m } : XPubSubProxy ι).Invariant :=
      ⟨silent, starved, quiet, undelivered, subscribed⟩
    simp only [step, worker] at stepped
    cases pc : s.pc with
    | top =>
      simp only [pc, Option.some.injEq] at stepped
      subst stepped
      exact moves _ [] (by cases s.isRunning <;> simp)
    | poll =>
      simp only [pc, nothing, Option.some.injEq] at stepped
      subst stepped
      exact moves _ _ (by simp)
    | receive => exact absurd pc idle.1
    | send => exact absurd pc idle.2
    | sleep =>
      simp only [pc, Option.some.injEq] at stepped
      subst stepped
      exact moves _ _ (by simp)
    | finished => simp [pc] at stepped

theorem run_invariant (isRunning : Bool) (events : List (Event ι)) (t : XPubSubProxy ι)
    (ran : Transition.run step (setup isRunning) events = some t) : t.Invariant :=
  Transition.run_invariant step Invariant (fun s e t => step_invariant s t e) _ t events ran
    (setup_invariant isRunning)

end XPubSubProxy

/-- Whatever subscribers, publishers and the worker do, the worker has nothing left to forward,
and the subscriptions have been propagated exactly when there are none. -/
theorem proxy_propagates_iff {ι : Type} [DecidableEq ι] (isRunning : Bool)
    (events : List (XPubSubProxy.Event ι)) (t : XPubSubProxy ι)
    (ran : Transition.run XPubSubProxy.step (.setup isRunning) events = some t) :
    t.IsQuiescent ∧ (t.Propagates ↔ t.subscriptions = ∅) :=
  have invariant := XPubSubProxy.run_invariant isRunning events t ran
  ⟨invariant.isQuiescent, invariant.propagates_iff⟩

/-- A subscriber asks for a topic, the worker goes round its loop, and a message with that
topic is published. -/
def subscribeThenPublish : List (XPubSubProxy.Event Unit) :=
  [.subscribe () [97]] ++ List.replicate 4 .worker ++ [.publish [97, 98] [[1]]] ++
    List.replicate 4 .worker

theorem subscribeThenPublish_lost :
    ∃ t, Transition.run XPubSubProxy.step (.setup true) subscribeThenPublish = some t ∧
      t.IsQuiescent ∧ t.subscriptions = {((), [97])} ∧ t.notifications = [[1, 97]] ∧
      t.requests = [] ∧ t.owed = {((), [[97, 98], [1]])} ∧ t.delivered = 0 ∧
      ¬ t.Propagates := by
  refine ⟨_, rfl, by decide, by decide, by decide, rfl, by decide, rfl, fun propagates => ?_⟩
  exact absurd propagates.1 (by decide)

/-- A subscriber that asks for a topic and cancels it again. -/
def subscribeThenUnsubscribe : List (XPubSubProxy.Event Unit) :=
  [.subscribe () [97], .unsubscribe () [97]]

theorem subscribeThenUnsubscribe_propagates :
    ∃ t, Transition.run XPubSubProxy.step (.setup true) subscribeThenUnsubscribe = some t ∧
      t.Propagates :=
  ⟨_, rfl, (proxy_propagates_iff true subscribeThenUnsubscribe _ rfl).2.mpr (by decide)⟩

end OfxZeroMQ
