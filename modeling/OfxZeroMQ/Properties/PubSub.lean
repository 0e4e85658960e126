import OfxZeroMQ.Foundation.Replica
import OfxZeroMQ.Foundation.Transition
import OfxZeroMQ.Model.PubSub
import OfxZeroMQ.Properties.Mtrie
import OfxZeroMQ.Properties.Trie

/-!
# Publishers and subscribers agree

However the changes of the subscriptions overtake each other in the pipes, a publisher that has
read them filters for each subscriber as the subscriber does, and the notifications of an XPUB
socket describe what is wanted of it.
-/
namespace OfxZeroMQ

open Foundation Foundation.PrefixTree Foundation.Replica

/-- The message that stands for a change. -/
def requestOf (c : Change Bytes) : Bytes := request c.1 c.2

/-! ### The subscribing side -/

namespace Sub

def after (s : Subscription.Counts UInt8) (subscribe : Bool) (key : Bytes) :
    Subscription.Counts UInt8 :=
  if subscribe then Subscription.add s key else Subscription.rm s key

theorem active_rm (s : Subscription.Counts UInt8) (key : Bytes) :
    Subscription.active (Subscription.rm s key) =
      if s.count key = 1 then (Subscription.active s).erase key else Subscription.active s := by
  ext q
  simp only [Subscription.mem_active, Subscription.count_rm]
  split
  · next same =>
    subst same
    split
    · next one => simp [one]
    · next other =>
      rw [Subscription.mem_active]
      omega
  · next differ =>
    split
    · simp [differ]
    · rw [Subscription.mem_active]

/-- The messages that are passed on are the changes of the active prefixes. -/
theorem xsetsockopt_spec (t : Trie) (s : Subscription.Counts UInt8) (represents : t.Represents s)
    (subscribe : Bool) (key : Bytes) (room : s.count key + 1 < UInt32.size) :
    ∃ u changes, xsetsockopt t subscribe key = some (changes.map requestOf, u) ∧
      u.Represents (after s subscribe key) ∧
      replay (Subscription.active s) changes =
        some (Subscription.active (after s subscribe key)) := by
  cases subscribe with
  | true =>
    obtain ⟨u, added, kept⟩ := t.add_represents s represents key room
    refine ⟨u, [(true, key)], ?_, kept, ?_⟩
    · simp [xsetsockopt, xsend, request, requestOf, added]
    · simp [replay, after]
  | false =>
    obtain ⟨u, removed, kept⟩ := t.rm_represents s represents key
    by_cases last : s.count key = 1
    · refine ⟨u, [(false, key)], ?_, kept, ?_⟩
      · simp [xsetsockopt, xsend, request, requestOf, removed, last]
      · have member : key ∈ Subscription.active s := by
          rw [Subscription.mem_active]
          omega
        simp [replay, after, active_rm, last, member]
    · refine ⟨u, [], ?_, kept, ?_⟩
      · simp [xsetsockopt, xsend, request, removed, last]
      · simp [replay, after, active_rm, last]

theorem cached_spec (t : Trie) (s : Subscription.Counts UInt8) (represents : t.Represents s) :
    ∃ changes, cached t = some (changes.map requestOf) ∧
      replay ∅ changes = some (Subscription.active s) := by
  refine ⟨(inOrder (Subscription.active s)).map fun key => (true, key), ?_, ?_⟩
  · rw [cached, t.apply_represents s represents, Option.map_some, List.map_map]
    rfl
  · rw [replay_inserts, Finset.empty_union, toFinset_inOrder]

end Sub

/-! ### The publishing side -/

namespace XPub

variable {π : Type} [DecidableEq π]

/-- What a change of a pipe makes of the table. -/
def change (table : Interest.Table π UInt8) (pipe : π) : Change Bytes → Interest.Table π UInt8
  | (true, key) => insert (pipe, key) table
  | (false, key) => table.erase (pipe, key)

theorem held_change (table : Interest.Table π UInt8) (pipe other : π) (subscribe : Bool)
    (key : Bytes) : Interest.held (change table pipe (subscribe, key)) other =
      if other = pipe then
        if subscribe then insert key (Interest.held table other)
        else (Interest.held table other).erase key
      else Interest.held table other := by
  ext q
  cases subscribe <;> split <;> simp [change, *]

theorem held_leave (table : Interest.Table π UInt8) (pipe other : π) :
    Interest.held (Interest.leave table pipe) other =
      if other = pipe then ∅ else Interest.held table other := by
  ext q
  split <;> simp [*]

/-- The application of an XPUB socket hears of a prefix when the first pipe asks for it and when the
last one has cancelled it. -/
def Reports (x : XPub π) : Prop := x.isXpub = true ∧ x.verboseUnsubs = false

/-- `y` has told its application what turned the wanted prefixes of `x` into its own. -/
def Tells (x y : XPub π) (wanted wanted' : Finset Bytes) : Prop :=
  ∃ changes, y.pendingData = x.pendingData ++ changes.map requestOf ∧
    replay wanted changes = some wanted'

theorem receive_true (x : XPub π) (table : Interest.Table π UInt8)
    (represents : x.subscriptions.Represents table) (pipe : π) (key : Bytes) :
    ∃ y, x.receive pipe (request true key) = some y ∧
      y.subscriptions.Represents (insert (pipe, key) table) ∧ (y.Reports ↔ x.Reports) ∧
      (x.Reports → x.Tells y (Interest.topics table)
        (Interest.topics (insert (pipe, key) table))) := by
  obtain ⟨u, added, kept⟩ := x.subscriptions.add_represents table represents key pipe
  refine ⟨x.notify u (if Interest.holders table key = ∅ ∨ x.verboseSubs = true
    then [request true key] else []), by simp [receive, request, added], kept, Iff.rfl, ?_⟩
  rintro ⟨isXpub, -⟩
  by_cases notifies : Interest.holders table key = ∅ ∨ x.verboseSubs = true
  · refine ⟨[(true, key)], by simp [notify, isXpub, notifies]; rfl, ?_⟩
    rw [replay, replay, Interest.topics_insert]
  · obtain ⟨somebody, quiet⟩ := not_or.mp notifies
    have wanted := (Interest.mem_topics_iff table key).mpr somebody
    refine ⟨[], by simp [notify, isXpub, somebody, quiet], ?_⟩
    rw [replay, Interest.topics_insert, Finset.insert_eq_of_mem wanted]

/-- A pipe cancels only what it has asked for. -/
theorem receive_false (x : XPub π) (table : Interest.Table π UInt8)
    (represents : x.subscriptions.Represents table) (pipe : π) (key : Bytes) :
    ∃ y, x.receive pipe (request false key) = some y ∧
      y.subscriptions.Represents (table.erase (pipe, key)) ∧ (y.Reports ↔ x.Reports) ∧
      (x.Reports → (pipe, key) ∈ table → x.Tells y (Interest.topics table)
        (Interest.topics (table.erase (pipe, key)))) := by
  obtain ⟨u, removed, kept⟩ := x.subscriptions.rm_represents table represents key pipe
  refine ⟨x.notify u (if Mtrie.removal table pipe key ≠ .valuesRemain ∨ x.verboseUnsubs = true
    then [request false key] else []), by simp [receive, request, removed], kept, Iff.rfl, ?_⟩
  rintro ⟨isXpub, quiet⟩ asked
  rw [Interest.topics_erase table pipe key asked]
  by_cases last : Interest.holders table key = {pipe}
  · have wanted : key ∈ Interest.topics table := by
      rw [Interest.mem_topics]
      exact ⟨pipe, asked⟩
    refine ⟨[(false, key)], by simp [notify, isXpub, Mtrie.removal, asked, last]; rfl, ?_⟩
    rw [replay, if_pos wanted, replay, if_pos last]
  · refine ⟨[], by simp [notify, isXpub, quiet, Mtrie.removal, asked, last], ?_⟩
    rw [replay, if_neg last]

theorem receive_spec (x : XPub π) (table : Interest.Table π UInt8)
    (represents : x.subscriptions.Represents table) (pipe : π) (c : Change Bytes) :
    ∃ y, x.receive pipe (requestOf c) = some y ∧
      y.subscriptions.Represents (change table pipe c) ∧ (y.Reports ↔ x.Reports) ∧
      (x.Reports → (c.1 = false → (pipe, c.2) ∈ table) → x.Tells y (Interest.topics table)
        (Interest.topics (change table pipe c))) := by
  obtain ⟨subscribe, key⟩ := c
  cases subscribe with
  | true =>
    obtain ⟨y, received, kept, same, tells⟩ := x.receive_true table represents pipe key
    exact ⟨y, received, kept, same, fun reports _ => tells reports⟩
  | false =>
    obtain ⟨y, received, kept, same, tells⟩ := x.receive_false table represents pipe key
    exact ⟨y, received, kept, same, fun reports asked => tells reports (asked rfl)⟩

theorem pipeTerminated_spec (x : XPub π) (table : Interest.Table π UInt8)
    (represents : x.subscriptions.Represents table) (pipe : π) :
    ∃ y, x.pipeTerminated pipe = some y ∧
      y.subscriptions.Represents (Interest.leave table pipe) ∧ (y.Reports ↔ x.Reports) ∧
      (x.Reports → x.Tells y (Interest.topics table)
        (Interest.topics (Interest.leave table pipe))) := by
  obtain ⟨u, removed, kept⟩ :=
    x.subscriptions.rmPipe_represents table represents pipe (!x.verboseUnsubs)
  refine ⟨x.notify u ((inOrder (Mtrie.dropped table pipe (!x.verboseUnsubs))).map
    (request false)), by rw [pipeTerminated, removed]; rfl, kept, Iff.rfl, ?_⟩
  rintro ⟨isXpub, quiet⟩
  have alone (key : Bytes) : key ∈ Mtrie.dropped table pipe (!x.verboseUnsubs) ↔
      (pipe, key) ∈ table ∧ Interest.holders table key = {pipe} := by
    simp [Mtrie.dropped, quiet]
  refine ⟨(inOrder (Mtrie.dropped table pipe (!x.verboseUnsubs))).map
    fun key => (false, key), by simp [notify, isXpub, requestOf], ?_⟩
  rw [replay_erases, toFinset_inOrder, Interest.topics_leave table pipe _ alone]
  · exact nodup_inOrder _
  · intro key member
    rw [mem_inOrder, alone] at member
    rw [Interest.mem_topics]
    exact ⟨pipe, member.1⟩

end XPub

/-! ### The pipes -/

/-- The messages that wait in a pipe make what the publisher holds for it into what the subscriber
wants. -/
structure Link.InStep {ι : Type} (l : Link ι) (held wanted : Finset Bytes) : Prop where
  requests : ∃ changes, l.queue = changes.map requestOf ∧
    (l.complete = true → replay held changes = some wanted)

namespace PubSub

variable {ι π : Type} [DecidableEq ι] [DecidableEq π]

structure Inv (n : Nat) (s : PubSub ι π) (table : Interest.Table π UInt8)
    (counts : ι → Subscription.Counts UInt8) : Prop where
  xpub : s.xpub.subscriptions.Represents table
  subs : ∀ i, (s.subs i).Represents (counts i)
  room : ∀ i key, (counts i).count key + n < UInt32.size
  links : ∀ p l, s.links p = some l →
    l.InStep (Interest.held table p) (Subscription.active (counts l.subscriber))
  unlinked : ∀ p, s.links p = none → Interest.held table p = ∅

/-- The notifications describe the table. -/
def Notified (s : PubSub ι π) (table : Interest.Table π UInt8) : Prop :=
  s.xpub.Reports ∧ (∀ p l, s.links p = some l → l.complete = true) ∧
    ∃ changes, s.received ++ s.xpub.pendingData = changes.map requestOf ∧
      replay ∅ changes = some (Interest.topics table)

/-- No message is dropped. -/
def Event.Delivers : Event ι π → Prop
  | .setsockopt _ _ _ full => full = ∅
  | .attach _ _ room => room = none
  | .read _ | .terminate _ | .xrecv => True

/-- What an event makes of a state that has the invariant. -/
def Advances (s : PubSub ι π) (e : Event ι π) (n : Nat) (table : Interest.Table π UInt8) : Prop :=
  ∃ t table' counts', s.step e = some t ∧ Inv n t table' counts' ∧
    (e.Delivers → s.Notified table → t.Notified table')

omit [DecidableEq ι] in
theorem Inv.weaken {n : Nat} {s : PubSub ι π} {table : Interest.Table π UInt8}
    {counts : ι → Subscription.Counts UInt8} (inv : Inv (n + 1) s table counts) :
    Inv n s table counts :=
  { inv with room := fun i key => by have := inv.room i key; omega }

theorem setsockopt_advances (n : Nat) (s : PubSub ι π) (table : Interest.Table π UInt8)
    (counts : ι → Subscription.Counts UInt8) (inv : Inv (n + 1) s table counts) (i : ι)
    (subscribe : Bool) (key : Bytes) (full : Finset π) :
    s.Advances (.setsockopt i subscribe key full) n table := by
  obtain ⟨u, changes, passed, kept, replayed⟩ := Sub.xsetsockopt_spec (s.subs i) (counts i)
    (inv.subs i) subscribe key (by have := inv.room i key; omega)
  have more (q : Bytes) :
      (Sub.after (counts i) subscribe key).count q ≤ (counts i).count q + 1 := by
    cases subscribe with
    | true =>
      simp only [Sub.after, if_true, Subscription.add, Multiset.count_cons]
      split <;> omega
    | false =>
      simp only [Sub.after, Bool.false_eq_true, if_false, Subscription.count_rm]
      split <;> omega
  refine ⟨s.sendToAll i u (changes.map requestOf) full, table,
    Function.update counts i (Sub.after (counts i) subscribe key),
    by rw [step, setsockopt, passed]; rfl, ⟨inv.xpub, ?_, ?_, ?_, ?_⟩, ?_⟩
  · intro j
    rcases eq_or_ne j i with rfl | differ
    · simpa [sendToAll] using kept
    · simpa [sendToAll, differ] using inv.subs j
  · intro j q
    have := inv.room j q
    rcases eq_or_ne j i with rfl | differ
    · have := more q
      simp only [Function.update_self]
      omega
    · simp only [Function.update_of_ne differ]
      omega
  · intro p l linked
    simp only [sendToAll, Option.map_eq_some_iff] at linked
    obtain ⟨old, before, rfl⟩ := linked
    obtain ⟨waiting, queue, in_step⟩ := (inv.links p old before).requests
    split
    · next same =>
      subst same
      -- A full pipe drops the request; it is complete afterwards only if there was none.
      by_cases dropped : p ∈ full
      · refine ⟨waiting, by simp [Link.send, dropped, queue], ?_⟩
        simp only [Link.send, dropped, decide_true, if_true, Bool.and_eq_true, List.isEmpty_iff,
          List.map_eq_nil_iff, Function.update_self]
        rintro ⟨complete, rfl⟩
        rw [in_step complete]
        exact replayed
      · refine ⟨waiting ++ changes, by simp [Link.send, dropped, queue], ?_⟩
        simp only [Link.send, dropped, decide_false, Bool.false_eq_true, if_false,
          Function.update_self]
        intro complete
        rw [replay_append _ _ waiting changes (in_step complete), replayed]
    · next differ =>
      refine ⟨waiting, queue, ?_⟩
      rw [Function.update_of_ne differ]
      exact in_step
  · intro p unlinked
    simp only [sendToAll, Option.map_eq_none_iff] at unlinked
    exact inv.unlinked p unlinked
  · rintro rfl ⟨reports, complete, notified⟩
    refine ⟨reports, fun p l linked => ?_, notified⟩
    simp only [sendToAll, Option.map_eq_some_iff] at linked
    obtain ⟨old, before, rfl⟩ := linked
    have whole := complete p old before
    split
    · simpa [Link.send] using whole
    · exact whole

theorem attach_advances (n : Nat) (s : PubSub ι π) (table : Interest.Table π UInt8)
    (counts : ι → Subscription.Counts UInt8) (inv : Inv (n + 1) s table counts) (p : π) (i : ι)
    (room : Option Nat) : s.Advances (.attach p i room) n table := by
  cases before : s.links p with
  | some l => exact ⟨s, table, counts, by rw [step, attach, before], inv.weaken, fun _ => id⟩
  | none =>
    obtain ⟨changes, passed, replayed⟩ := Sub.cached_spec (s.subs i) (counts i) (inv.subs i)
    let fitting := (changes.map requestOf).take (room.getD (changes.map requestOf).length)
    let link : Link ι := ⟨i, fitting, decide (fitting.length = (changes.map requestOf).length)⟩
    refine ⟨{ s with links := Function.update s.links p (some link) }, table, counts,
      by rw [step, attach, before, passed]; rfl,
      ⟨inv.xpub, inv.subs, inv.weaken.room, ?_, ?_⟩, ?_⟩
    · intro q l linked
      rcases eq_or_ne q p with rfl | differ
      · simp only [Function.update_self, Option.some.injEq] at linked
        subst linked
        refine ⟨changes.take (room.getD (changes.map requestOf).length), List.map_take.symm, ?_⟩
        intro complete
        have all : changes.length ≤ room.getD (changes.map requestOf).length := by
          simpa [link, fitting] using complete
        rw [List.take_of_length_le all, inv.unlinked q before]
        exact replayed
      · simp only [Function.update_of_ne differ] at linked
        exact inv.links q l linked
    · intro q unlinked
      rcases eq_or_ne q p with rfl | differ
      · simp at unlinked
      · simp only [Function.update_of_ne differ] at unlinked
        exact inv.unlinked q unlinked
    · rintro rfl ⟨reports, complete, notified⟩
      refine ⟨reports, fun q l linked => ?_, notified⟩
      rcases eq_or_ne q p with rfl | differ
      · simp only [Function.update_self, Option.some.injEq] at linked
        subst linked
        simp [link, fitting]
      · simp only [Function.update_of_ne differ] at linked
        exact complete q l linked

omit [DecidableEq ι] [DecidableEq π] in
/-- What the publisher has told its application since a state that was described. -/
theorem Notified.tells {s : PubSub ι π} {table table' : Interest.Table π UInt8}
    (notified : s.Notified table) (y : XPub π) (reports : y.Reports)
    (tells : s.xpub.Tells y (Interest.topics table) (Interest.topics table'))
    (links : π → Option (Link ι)) (complete : ∀ p l, links p = some l → l.complete = true) :
    Notified { s with xpub := y, links := links } table' := by
  obtain ⟨-, -, told, history, described⟩ := notified
  obtain ⟨changes, pending, turned⟩ := tells
  refine ⟨reports, complete, told ++ changes, ?_, ?_⟩
  · rw [pending, ← List.append_assoc, history, List.map_append]
  · rw [replay_append _ _ told changes described, turned]

theorem read_advances (n : Nat) (s : PubSub ι π) (table : Interest.Table π UInt8)
    (counts : ι → Subscription.Counts UInt8) (inv : Inv (n + 1) s table counts) (p : π) :
    s.Advances (.read p) n table := by
  cases before : s.links p with
  | none => exact ⟨s, table, counts, by rw [step, read, before], inv.weaken, fun _ => id⟩
  | some l =>
    obtain ⟨i, queue, complete⟩ := l
    obtain ⟨waiting, same, in_step⟩ := (inv.links p _ before).requests
    cases waiting with
    | nil =>
      obtain rfl : queue = [] := same
      exact ⟨s, table, counts, by rw [step, read, before], inv.weaken, fun _ => id⟩
    | cons c waiting =>
      obtain rfl : queue = requestOf c :: waiting.map requestOf := same
      obtain ⟨y, received, kept, reports, tells⟩ := s.xpub.receive_spec table inv.xpub p c
      obtain ⟨subscribe, key⟩ := c
      refine ⟨{ s with
          xpub := y
          links := Function.update s.links p (some ⟨i, waiting.map requestOf, complete⟩) },
        XPub.change table p (subscribe, key), counts,
        by simp only [step, read, before, received, Option.map_some],
        ⟨kept, inv.subs, inv.weaken.room, ?_, ?_⟩, ?_⟩
      · intro q l linked
        rcases eq_or_ne q p with rfl | differ
        · simp only [Function.update_self, Option.some.injEq] at linked
          subst linked
          refine ⟨waiting, rfl, fun whole => ?_⟩
          have replayed := in_step whole
          rw [XPub.held_change, if_pos rfl]
          cases subscribe with
          | true => simpa [replay] using replayed
          | false =>
            simp only [replay] at replayed
            split at replayed
            · simpa using replayed
            · simp at replayed
        · simp only [Function.update_of_ne differ] at linked
          rw [XPub.held_change, if_neg differ]
          exact inv.links q l linked
      · intro q unlinked
        rcases eq_or_ne q p with rfl | differ
        · simp at unlinked
        · simp only [Function.update_of_ne differ] at unlinked
          rw [XPub.held_change, if_neg differ]
          exact inv.unlinked q unlinked
      · intro _ notified
        have whole := notified.2.1 p _ before
        -- what is cancelled was asked for, because nothing was dropped
        have asked : subscribe = false → (p, key) ∈ table := by
          rintro rfl
          have replayed := in_step whole
          simp only [replay] at replayed
          split at replayed
          · next member => exact (Interest.mem_held table p key).mp member
          · simp at replayed
        apply notified.tells y (reports.mpr notified.1) (tells notified.1 asked)
        intro q l linked
        rcases eq_or_ne q p with rfl | differ
        · simp only [Function.update_self, Option.some.injEq] at linked
          subst linked
          exact whole
        · simp only [Function.update_of_ne differ] at linked
          exact notified.2.1 q l linked

theorem terminate_advances (n : Nat) (s : PubSub ι π) (table : Interest.Table π UInt8)
    (counts : ι → Subscription.Counts UInt8) (inv : Inv (n + 1) s table counts) (p : π) :
    s.Advances (.terminate p) n table := by
  cases before : s.links p with
  | none => exact ⟨s, table, counts, by rw [step, terminate, before], inv.weaken, fun _ => id⟩
  | some l =>
    obtain ⟨y, removed, kept, reports, tells⟩ := s.xpub.pipeTerminated_spec table inv.xpub p
    refine ⟨{ s with xpub := y, links := Function.update s.links p none },
      Interest.leave table p, counts,
      by simp only [step, terminate, before, removed, Option.map_some],
      ⟨kept, inv.subs, inv.weaken.room, ?_, ?_⟩, ?_⟩
    · intro q l linked
      rcases eq_or_ne q p with rfl | differ
      · simp at linked
      · simp only [Function.update_of_ne differ] at linked
        rw [XPub.held_leave, if_neg differ]
        exact inv.links q l linked
    · intro q unlinked
      rw [XPub.held_leave]
      split
      · rfl
      · next differ =>
        simp only [Function.update_of_ne differ] at unlinked
        exact inv.unlinked q unlinked
    · intro _ notified
      apply notified.tells y (reports.mpr notified.1) (tells notified.1)
      intro q l linked
      rcases eq_or_ne q p with rfl | differ
      · simp at linked
      · simp only [Function.update_of_ne differ] at linked
        exact notified.2.1 q l linked

theorem xrecv_advances (n : Nat) (s : PubSub ι π) (table : Interest.Table π UInt8)
    (counts : ι → Subscription.Counts UInt8) (inv : Inv (n + 1) s table counts) :
    s.Advances .xrecv n table := by
  refine ⟨s.xrecv, table, counts, rfl, ?_, ?_⟩
  · have weak := inv.weaken
    rw [xrecv]
    split
    · exact weak
    · exact ⟨weak.xpub, weak.subs, weak.room, weak.links, weak.unlinked⟩
  · rintro - ⟨reports, complete, changes, history, described⟩
    rw [xrecv]
    split
    · exact ⟨reports, complete, changes, history, described⟩
    · next message pending first =>
      rw [first] at history
      exact ⟨reports, complete, changes, by simpa using history, described⟩

theorem step_advances (n : Nat) (s : PubSub ι π) (table : Interest.Table π UInt8)
    (counts : ι → Subscription.Counts UInt8) (inv : Inv (n + 1) s table counts)
    (e : Event ι π) : s.Advances e n table := by
  cases e with
  | setsockopt i subscribe key full =>
    exact setsockopt_advances n s table counts inv i subscribe key full
  | attach p i room => exact attach_advances n s table counts inv p i room
  | read p => exact read_advances n s table counts inv p
  | terminate p => exact terminate_advances n s table counts inv p
  | xrecv => exact xrecv_advances n s table counts inv

omit [DecidableEq ι] in
theorem initial_inv (n : Nat) (small : n < UInt32.size)
    (verboseSubs verboseUnsubs isXpub : Bool) :
    Inv n (initial verboseSubs verboseUnsubs isXpub : PubSub ι π) ∅ fun _ => 0 :=
  ⟨Mtrie.empty_represents, fun _ => Trie.empty_represents, fun _ _ => by simpa, by simp [initial],
    fun _ _ => rfl⟩

end PubSub

/-- In every run of fewer than `2 ^ 32` events, whatever is subscribed and cancelled, whichever
pipes come and go, are full or are read late: for a pipe that has dropped nothing and whose messages
the publisher has read, the publisher sends a message to the pipe exactly when the subscriber at its
other end lets it through. -/
theorem publisher_filters {ι π : Type} [DecidableEq ι] [DecidableEq π]
    (verboseSubs verboseUnsubs isXpub : Bool) (events : List (PubSub.Event ι π))
    (short : events.length < UInt32.size) :
    ∃ t, Transition.run PubSub.step (PubSub.initial verboseSubs verboseUnsubs isXpub) events =
        some t ∧
      ∀ p l, t.links p = some l → l.complete = true → l.queue = [] → ∀ topic,
        ∃ signalled passes, t.xpub.subscriptions.matching topic = some signalled ∧
          (t.subs l.subscriber).check topic = some passes ∧
          ((∃ pipes ∈ signalled, p ∈ pipes) ↔ passes = true) := by
  obtain ⟨t, ran, table, counts, inv⟩ := Transition.run_total PubSub.step
    (fun n s => ∃ table counts, PubSub.Inv n s table counts) (fun _ => True)
    (fun n s e _ ⟨table, counts, inv⟩ => by
      obtain ⟨t, table', counts', stepped, kept, -⟩ := s.step_advances n table counts inv e
      exact ⟨t, stepped, table', counts', kept⟩)
    0 (PubSub.initial verboseSubs verboseUnsubs isXpub) events (fun _ _ => trivial)
    ⟨∅, fun _ => 0, PubSub.initial_inv _ (by omega) _ _ _⟩
  refine ⟨t, ran, fun p l linked complete empty topic => ?_⟩
  obtain ⟨changes, queue, in_step⟩ := (inv.links p l linked).requests
  obtain rfl : changes = [] := List.map_eq_nil_iff.mp (queue.symm.trans empty)
  have same : Interest.held table p = Subscription.active (counts l.subscriber) :=
    Option.some.inj (in_step complete)
  refine ⟨_, _, t.xpub.subscriptions.matching_represents table inv.xpub topic,
    (t.subs l.subscriber).check_represents _ (inv.subs l.subscriber) topic, ?_⟩
  rw [Mtrie.mem_signalled_iff, Interest.mem_interested, Subscription.check_iff, ← same]
  exact exists_congr fun key => and_congr_left' (Interest.mem_held table p key).symm

theorem publisher_filters_subscribed :
    ∃ t : PubSub Unit Unit, Transition.run PubSub.step (PubSub.initial false false false)
        [.attach () () none, .setsockopt () true [7] ∅, .read ()] = some t ∧
      ∀ topic, ∃ signalled passes, t.xpub.subscriptions.matching topic = some signalled ∧
        (t.subs ()).check topic = some passes ∧
        ((∃ pipes ∈ signalled, () ∈ pipes) ↔ passes = true) := by
  obtain ⟨t, ran, filters⟩ := publisher_filters false false false
    ([.attach () () none, .setsockopt () true [7] ∅, .read ()] : List (PubSub.Event Unit Unit))
    (by decide)
  refine ⟨t, ran, fun topic => ?_⟩
  have linked : t.links () = some ⟨(), [], true⟩ := by
    rw [← Option.some.inj ran]
    rfl
  exact filters () ⟨(), [], true⟩ linked rfl rfl topic

/-- In every run of fewer than `2 ^ 32` events in which no pipe is full, the notifications of an
XPUB socket that does not report every cancelled subscription are changes of a set, nothing is taken
out of it that is not there, and it is always the set of the prefixes that some pipe asks for. -/
theorem xpub_notifications {ι π : Type} [DecidableEq ι] [DecidableEq π] (verboseSubs : Bool)
    (events : List (PubSub.Event ι π)) (short : events.length < UInt32.size)
    (delivers : ∀ e ∈ events, e.Delivers) :
    ∃ t changes wanted, Transition.run PubSub.step (PubSub.initial verboseSubs false true) events =
        some t ∧
      t.received ++ t.xpub.pendingData = changes.map requestOf ∧ replay ∅ changes = some wanted ∧
      ∀ key, key ∈ wanted ↔ t.xpub.subscriptions.valueAt none key ≠ none := by
  obtain ⟨t, ran, table, counts, inv, -, -, changes, history, described⟩ :=
    Transition.run_total PubSub.step
      (fun n s => ∃ table counts, PubSub.Inv n s table counts ∧ s.Notified table)
      PubSub.Event.Delivers
      (fun n s e delivers ⟨table, counts, inv, notified⟩ => by
        obtain ⟨t, table', counts', stepped, kept, described⟩ :=
          s.step_advances n table counts inv e
        exact ⟨t, stepped, table', counts', kept, described delivers notified⟩)
      0 (PubSub.initial verboseSubs false true) events delivers
      ⟨∅, fun _ => 0, PubSub.initial_inv _ (by omega) _ _ _, ⟨rfl, rfl⟩, by simp [PubSub.initial],
        [], rfl, rfl⟩
  refine ⟨t, changes, Interest.topics table, ran, history, described, fun key => ?_⟩
  rw [inv.xpub.pipes, Interest.mem_topics_iff, Mtrie.pipesOf]
  split <;> simp [*]

theorem xpub_notifications_subscribed :
    ∃ t changes wanted, Transition.run PubSub.step
        (PubSub.initial false false true : PubSub Unit Unit)
        [.attach () () none, .setsockopt () true [7] ∅, .read (), .terminate ()] = some t ∧
      t.received ++ t.xpub.pendingData = changes.map requestOf ∧ replay ∅ changes = some wanted ∧
      ∀ key, key ∈ wanted ↔ t.xpub.subscriptions.valueAt none key ≠ none :=
  xpub_notifications false
    ([.attach () () none, .setsockopt () true [7] ∅, .read (), .terminate ()] :
      List (PubSub.Event Unit Unit))
    (by decide) (by simp [PubSub.Event.Delivers])

end OfxZeroMQ
