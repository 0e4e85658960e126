import Mathlib.Logic.Function.Iterate
import OfxZeroMQ.Foundation.Transition

/-!
# Lifetimes of objects with detached workers

An owner starts worker threads on an object and later destroys it. Workers loop while the
object is running and store `finished` when they have left the loop; the destructor clears
`running` and waits for `finished`. Workers, owner and traffic interleave in any order.
-/
namespace Foundation.Lifetime

structure Flags where
  running : Bool
  finished : Bool
deriving DecidableEq

inductive Store where
  | running (value : Bool)
  | finished (value : Bool)

def Store.apply (f : Flags) : Store → Flags
  | running value => { f with running := value }
  | finished value => { f with finished := value }

def storeAll (f : Flags) (stores : List Store) : Flags := stores.foldl Store.apply f

/-- The code of the workers, on a shared state `σ` and with a position `π` of their own. -/
structure Loop (σ π ι τ : Type) where
  -- what starting a worker stores first
  stores : List Store
  entry : π
  -- a step with `running` as given; the position is `none` once the loop is left
  step : Bool → σ → π → ι → Option (σ × Option π)
  -- what happens to the shared state from outside
  traffic : σ → τ → σ

/-- A call that starts a worker, or fails before it stores anything. -/
inductive Attempt where
  | fails
  | starts
deriving DecidableEq

theorem count_starts {α : Type} [DecidableEq α] (attempt : α → Attempt) (start : α)
    (same : ∀ x, attempt x = .starts ↔ x = start) (calls : List α) :
    (calls.map attempt).count .starts = calls.count start := by
  induction calls with
  | nil => rfl
  | cons call calls ih => simp [List.count_cons, ih, same]

inductive Status (π : Type) where
  | looping (pc : π)
  -- the loop is left and `finished` not stored yet
  | leaving
  | gone
deriving DecidableEq

inductive Owner where
  | inUse
  -- starting a worker, with these stores still to be done
  | starting (stores : List Store)
  -- the destructor has cleared `running` and waits
  | waiting
  | ended

structure State (σ π : Type) where
  flags : Flags
  shared : σ
  workers : List (Status π)
  owner : Owner
  -- the calls to come
  attempts : List Attempt

def initial {σ π : Type} (flags : Flags) (shared : σ) (attempts : List Attempt) : State σ π :=
  ⟨flags, shared, [], .inUse, attempts⟩

inductive Event (ι τ : Type) where
  | owner
  | worker (n : Nat) (input : ι)
  | traffic (e : τ)

namespace Loop

variable {σ π ι τ : Type} (l : Loop σ π ι τ)

/-- The owner makes its calls one after the other and then destroys the object. -/
def ownerStep (s : State σ π) : Option (State σ π) :=
  match s.owner, s.attempts with
  | .inUse, [] => some { s with flags := { s.flags with running := false }, owner := .waiting }
  | .inUse, .fails :: rest => some { s with attempts := rest }
  | .inUse, .starts :: rest => some { s with owner := .starting l.stores, attempts := rest }
  | .starting (store :: stores), _ =>
    some { s with flags := store.apply s.flags, owner := .starting stores }
  | .starting [], _ => some { s with workers := s.workers ++ [.looping l.entry], owner := .inUse }
  | .waiting, _ => some (if s.flags.finished then { s with owner := .ended } else s)
  | .ended, _ => none

def workerStep (s : State σ π) (n : Nat) (input : ι) : Option (State σ π) :=
  match s.workers[n]? with
  | some (.looping pc) => (l.step s.flags.running s.shared pc input).map fun next =>
      { s with
        shared := next.1
        workers := s.workers.set n (next.2.elim .leaving .looping) }
  | some .leaving =>
    some { s with
      flags := { s.flags with finished := true }
      workers := s.workers.set n .gone }
  | _ => none

def next (s : State σ π) : Event ι τ → Option (State σ π)
  | .owner => l.ownerStep s
  | .worker n input => l.workerStep s n input
  | .traffic e => some { s with shared := l.traffic s.shared e }

/-- The state is reached in some run from `s`. -/
def Reaches (s t : State σ π) : Prop := ∃ events, Transition.run l.next s events = some t

/-- The state is reached by steps of the workers alone. -/
def WorkersReach (s t : State σ π) : Prop :=
  ∃ moves : List (Nat × ι),
    Transition.run l.next s (moves.map fun m => .worker m.1 m.2) = some t

end Loop

/-! ### What a lifetime should satisfy -/

namespace State

variable {σ π ι τ : Type}

/-- The destructor ends only when no worker will touch the object again. -/
def EndsAlone (s : State σ π) : Prop := s.owner = .ended → ∀ x ∈ s.workers, x = .gone

/-- A worker can still release a destructor that waits. -/
def CanRelease (l : Loop σ π ι τ) (s : State σ π) : Prop :=
  s.owner = .waiting → s.flags.finished = false →
    ∃ t, l.WorkersReach s t ∧ t.flags.finished = true

def IsBeingDestroyed (s : State σ π) : Prop := s.owner = .waiting ∨ s.owner = .ended

/-- No worker has left its loop before destruction has begun. -/
def KeepsLooping (s : State σ π) : Prop :=
  ¬ s.IsBeingDestroyed → ∀ x ∈ s.workers, ∃ pc, x = .looping pc

end State

/-! ### Runs -/

namespace Loop

variable {σ π ι τ : Type} {l : Loop σ π ι τ} {s t u : State σ π}

theorem Reaches.refl (s : State σ π) : l.Reaches s s := ⟨[], rfl⟩

theorem Reaches.trans (first : l.Reaches s t) (second : l.Reaches t u) : l.Reaches s u := by
  obtain ⟨es, ran⟩ := first
  obtain ⟨fs, rest⟩ := second
  exact ⟨es ++ fs, Transition.run_append l.next s t u es fs ran rest⟩

theorem Reaches.head {e : Event ι τ} (stepped : l.next s e = some t) (rest : l.Reaches t u) :
    l.Reaches s u := by
  obtain ⟨es, ran⟩ := rest
  exact ⟨e :: es, (Transition.run_cons l.next s u e es).mpr ⟨t, stepped, ran⟩⟩

theorem Reaches.invariant (P : State σ π → Prop)
    (preserved : ∀ s e t, l.next s e = some t → P s → P t) (reached : l.Reaches s t)
    (here : P s) : P t := by
  obtain ⟨events, ran⟩ := reached
  exact Transition.run_invariant l.next P preserved s t events ran here

theorem WorkersReach.refl (s : State σ π) : l.WorkersReach s s := ⟨[], rfl⟩

theorem WorkersReach.head {n : Nat} {input : ι} (stepped : l.workerStep s n input = some t)
    (rest : l.WorkersReach t u) : l.WorkersReach s u := by
  obtain ⟨moves, ran⟩ := rest
  exact ⟨(n, input) :: moves, (Transition.run_cons l.next s u _ _).mpr ⟨t, stepped, ran⟩⟩

theorem WorkersReach.trans (first : l.WorkersReach s t) (second : l.WorkersReach t u) :
    l.WorkersReach s u := by
  obtain ⟨xs, ran⟩ := first
  obtain ⟨ys, rest⟩ := second
  refine ⟨xs ++ ys, ?_⟩
  rw [List.map_append]
  exact Transition.run_append l.next s t u _ _ ran rest

theorem WorkersReach.invariant (P : State σ π → Prop)
    (preserved : ∀ s n i t, l.workerStep s n i = some t → P s → P t)
    (reached : l.WorkersReach s t) (here : P s) : P t := by
  obtain ⟨moves, ran⟩ := reached
  induction moves generalizing s with
  | nil =>
    cases ran
    exact here
  | cons move moves ih =>
    obtain ⟨u, stepped, rest⟩ := (Transition.run_cons l.next s t _ _).mp ran
    exact ih (preserved s move.1 move.2 u stepped here) rest

theorem WorkersReach.reaches (reached : l.WorkersReach s t) : l.Reaches s t := by
  obtain ⟨moves, ran⟩ := reached
  exact ⟨_, ran⟩

end Loop

/-! ### What is known of a loop -/

/-- `Idle` holds of the shared state while no worker is in the loop, and `Ready` while one is.
A worker leaves only when `running` is cleared, and on its own comes closer to that. -/
structure Contract {σ π ι τ : Type} (l : Loop σ π ι τ) where
  Idle : σ → Prop
  Ready : σ → π → Prop
  rank : σ → π → Nat
  idle_traffic : ∀ s e, Idle s → Idle (l.traffic s e)
  ready_traffic : ∀ s pc e, Ready s pc → Ready (l.traffic s e) pc
  enters : ∀ s, Idle s → Ready s l.entry
  stays : ∀ r s pc i t k, Ready s pc → l.step r s pc i = some (t, some k) → Ready t k
  leaves : ∀ r s pc i t, Ready s pc → l.step r s pc i = some (t, none) → r = false ∧ Idle t
  progress : ∀ s pc, Ready s pc → (∃ i t, l.step false s pc i = some (t, none)) ∨
    ∃ i t k, l.step false s pc i = some (t, some k) ∧ rank t k < rank s pc

namespace Contract

variable {σ π ι τ : Type} {l : Loop σ π ι τ} (c : Contract l)

/-- A worker that comes closer to a goal with every step can reach it. -/
theorem can_reach (rank : σ → π → Nat) (goal : σ → π → Prop) (s : State σ π) (n : Nat) (pc : π)
    (progress : ∀ shared pc, c.Ready shared pc → goal shared pc ∨
      ∃ i t k, l.step s.flags.running shared pc i = some (t, some k) ∧ rank t k < rank shared pc)
    (here : s.workers[n]? = some (.looping pc)) (ready : c.Ready s.shared pc) :
    ∃ shared final, c.Ready shared final ∧ goal shared final ∧
      l.WorkersReach s
        { s with shared := shared, workers := s.workers.set n (.looping final) } := by
  have inside : n < s.workers.length := (List.getElem?_eq_some_iff.mp here).1
  induction measure : rank s.shared pc using Nat.strongRecOn generalizing s pc with
  | ind m ih =>
    rcases progress s.shared pc ready with reached | ⟨i, shared, k, moved, less⟩
    · refine ⟨s.shared, pc, ready, reached, ?_⟩
      have same : s.workers.set n (.looping pc) = s.workers := by
        rw [← (List.getElem?_eq_some_iff.mp here).2, List.set_getElem_self inside]
      rw [same]
      exact .refl s
    · -- the position after the step is closer to the goal
      let next : State σ π :=
        { s with shared := shared, workers := s.workers.set n (.looping k) }
      have stepped : l.workerStep s n i = some next := by
        simp [Loop.workerStep, here, moved, next]
      obtain ⟨final, last, stays, reached, rest⟩ := ih _ (measure ▸ less) next k progress
        (by simp [next, inside]) (c.stays _ _ _ _ _ _ ready moved) (by simpa [next]) rfl
      exact ⟨final, last, stays, reached, .head stepped (by simpa [next] using rest)⟩

/-- Once `running` is cleared, a worker can leave by its own steps. -/
theorem can_leave (s : State σ π) (n : Nat) (pc : π) (stopped : s.flags.running = false)
    (here : s.workers[n]? = some (.looping pc)) (ready : c.Ready s.shared pc) :
    ∃ shared, c.Idle shared ∧
      l.WorkersReach s { s with shared := shared, workers := s.workers.set n .leaving } := by
  have inside : n < s.workers.length := (List.getElem?_eq_some_iff.mp here).1
  obtain ⟨last, final, ready, ⟨i, shared, left⟩, reached⟩ := c.can_reach c.rank
    (fun shared pc => ∃ i t, l.step false shared pc i = some (t, none)) s n pc
    (stopped ▸ c.progress) here ready
  let last : State σ π := { s with shared := last, workers := s.workers.set n (.looping final) }
  have stepped : l.workerStep last n i =
      some { s with shared := shared, workers := s.workers.set n .leaving } := by
    simp [Loop.workerStep, inside, stopped, left, last]
  exact ⟨shared, (c.leaves _ _ _ _ _ ready left).2, reached.trans (.head stepped (.refl _))⟩

/-- Having left, it stores `finished`. -/
theorem can_store (s : State σ π) (n : Nat) (left : s.workers[n]? = some .leaving)
    (idle : c.Idle s.shared) : l.WorkersReach s { s with
      flags := { s.flags with finished := true }
      workers := s.workers.set n .gone } := by
  obtain ⟨i⟩ : Nonempty ι := by
    rcases c.progress s.shared l.entry (c.enters _ idle) with ⟨i, _⟩ | ⟨i, _⟩ <;> exact ⟨i⟩
  have stepped : l.workerStep s n i = some { s with
      flags := { s.flags with finished := true }
      workers := s.workers.set n .gone } := by
    simp [Loop.workerStep, left]
  exact .head stepped (.refl _)

theorem can_finish (s : State σ π) (n : Nat) (pc : π) (stopped : s.flags.running = false)
    (here : s.workers[n]? = some (.looping pc)) (ready : c.Ready s.shared pc) :
    ∃ shared, l.WorkersReach s { s with
      flags := { s.flags with finished := true }
      shared := shared
      workers := s.workers.set n .gone } := by
  obtain ⟨shared, idle, left⟩ := c.can_leave s n pc stopped here ready
  have inside : n < s.workers.length := (List.getElem?_eq_some_iff.mp here).1
  have stored := c.can_store { s with shared := shared, workers := s.workers.set n .leaving } n
    (by simp [inside]) idle
  exact ⟨shared, left.trans (by simpa using stored)⟩

/-- The states of a lifetime with one worker that is started with the right flags. -/
inductive Single : State σ π → Prop where
  | before {flags : Flags} {shared : σ} {attempts : List Attempt} (idle : c.Idle shared)
    (one : attempts.count .starts = 1) (stores : storeAll flags l.stores = ⟨true, false⟩) :
    Single ⟨flags, shared, [], .inUse, attempts⟩
  | starting {flags : Flags} {shared : σ} {attempts : List Attempt} {rest : List Store}
    (idle : c.Idle shared) (none : attempts.count .starts = 0)
    (stores : storeAll flags rest = ⟨true, false⟩) :
    Single ⟨flags, shared, [], .starting rest, attempts⟩
  | looping {shared : σ} {pc : π} {attempts : List Attempt} (ready : c.Ready shared pc)
    (none : attempts.count .starts = 0) :
    Single ⟨⟨true, false⟩, shared, [.looping pc], .inUse, attempts⟩
  | draining {shared : σ} {pc : π} {attempts : List Attempt} (ready : c.Ready shared pc) :
    Single ⟨⟨false, false⟩, shared, [.looping pc], .waiting, attempts⟩
  | leaving {shared : σ} {attempts : List Attempt} (idle : c.Idle shared) :
    Single ⟨⟨false, false⟩, shared, [.leaving], .waiting, attempts⟩
  | left {shared : σ} {attempts : List Attempt} (idle : c.Idle shared) :
    Single ⟨⟨false, true⟩, shared, [.gone], .waiting, attempts⟩
  | ended {shared : σ} {attempts : List Attempt} (idle : c.Idle shared) :
    Single ⟨⟨false, true⟩, shared, [.gone], .ended, attempts⟩

namespace Single

variable {c} {s t : State σ π}

theorem ownerStep (single : c.Single s) (stepped : l.ownerStep s = some t) : c.Single t := by
  cases single with
  | before idle one stores =>
    rename_i attempts
    cases attempts with
    | nil => simp at one
    | cons attempt rest =>
      cases attempt with
      | fails =>
        cases stepped
        exact .before idle (by simpa using one) stores
      | starts =>
        cases stepped
        exact .starting idle (by simpa using one) stores
  | starting idle none stores =>
    rename_i rest
    cases rest with
    | nil =>
      simp only [storeAll, List.foldl_nil] at stores
      subst stores
      cases stepped
      exact .looping (c.enters _ idle) none
    | cons store rest =>
      cases stepped
      exact .starting idle none stores
  | looping ready none =>
    rename_i attempts
    cases attempts with
    | nil =>
      cases stepped
      exact .draining ready
    | cons attempt rest =>
      cases attempt with
      | fails =>
        cases stepped
        exact .looping ready (by simpa using none)
      | starts => simp at none
  -- the wait loop goes on until `finished` is stored
  | draining ready =>
    cases stepped
    exact .draining ready
  | leaving idle =>
    cases stepped
    exact .leaving idle
  | left idle =>
    cases stepped
    exact .ended idle
  | ended idle => simp [Loop.ownerStep] at stepped

theorem workerStep (single : c.Single s) (n : Nat) (i : ι)
    (stepped : l.workerStep s n i = some t) : c.Single t := by
  cases single with
  | before | starting | left | ended => cases n <;> simp [Loop.workerStep] at stepped
  | looping ready none =>
    cases n with
    | succ n => simp [Loop.workerStep] at stepped
    | zero =>
      simp only [Loop.workerStep, List.getElem?_cons_zero, Option.map_eq_some_iff] at stepped
      obtain ⟨⟨shared, next⟩, moved, rfl⟩ := stepped
      cases next with
      | none => simpa using (c.leaves _ _ _ _ _ ready moved).1
      | some k => exact .looping (c.stays _ _ _ _ _ _ ready moved) none
  | draining ready =>
    cases n with
    | succ n => simp [Loop.workerStep] at stepped
    | zero =>
      simp only [Loop.workerStep, List.getElem?_cons_zero, Option.map_eq_some_iff] at stepped
      obtain ⟨⟨shared, next⟩, moved, rfl⟩ := stepped
      cases next with
      | none => exact .leaving (c.leaves _ _ _ _ _ ready moved).2
      | some k => exact .draining (c.stays _ _ _ _ _ _ ready moved)
  | leaving idle =>
    cases n with
    | succ n => simp [Loop.workerStep] at stepped
    | zero =>
      cases stepped
      exact .left idle

theorem traffic (single : c.Single s) (e : τ) :
    c.Single { s with shared := l.traffic s.shared e } := by
  cases single with
  | before idle one stores => exact .before (c.idle_traffic _ _ idle) one stores
  | starting idle none stores => exact .starting (c.idle_traffic _ _ idle) none stores
  | looping ready none => exact .looping (c.ready_traffic _ _ _ ready) none
  | draining ready => exact .draining (c.ready_traffic _ _ _ ready)
  | leaving idle => exact .leaving (c.idle_traffic _ _ idle)
  | left idle => exact .left (c.idle_traffic _ _ idle)
  | ended idle => exact .ended (c.idle_traffic _ _ idle)

theorem next (s : State σ π) (e : Event ι τ) (t : State σ π) (stepped : l.next s e = some t)
    (single : c.Single s) : c.Single t := by
  cases e with
  | owner => exact single.ownerStep stepped
  | worker n i => exact single.workerStep n i stepped
  | traffic e =>
    cases stepped
    exact single.traffic e

theorem reaches (single : c.Single s) (reached : l.Reaches s t) : c.Single t :=
  reached.invariant c.Single next single

theorem endsAlone (single : c.Single s) : s.EndsAlone := by
  intro ended
  cases single with
  | ended idle => simp
  | before | starting | looping | draining | leaving | left => simp at ended

theorem keepsLooping (single : c.Single s) : s.KeepsLooping := by
  intro used
  cases single with
  | before | starting => simp
  | looping => simp
  | draining | leaving | left | ended => simp [State.IsBeingDestroyed] at used

theorem canRelease (single : c.Single s) : s.CanRelease l := by
  intro waits unfinished
  cases single with
  | draining ready =>
    rename_i shared pc attempts
    obtain ⟨_, released⟩ := c.can_finish ⟨⟨false, false⟩, shared, [.looping pc], .waiting, attempts⟩
      0 pc rfl rfl ready
    exact ⟨_, released, rfl⟩
  | leaving idle =>
    rename_i shared attempts
    exact ⟨_, c.can_store ⟨⟨false, false⟩, shared, [.leaving], .waiting, attempts⟩ 0 rfl idle, rfl⟩
  | left => simp at unfinished
  | before | starting | looping | ended => simp at waits

end Single

end Contract

/-! ### Lifetimes without a worker -/

/-- No worker was ever started, and `finished` happens to be set. -/
structure Unused {σ π : Type} (s : State σ π) : Prop where
  workers : s.workers = []
  finished : s.flags.finished = true
  none : s.attempts.count .starts = 0
  idle : ∀ stores, s.owner ≠ .starting stores

namespace Unused

variable {σ π ι τ : Type} {l : Loop σ π ι τ} {s t : State σ π}

theorem ownerStep (unused : Unused s) (stepped : l.ownerStep s = some t) : Unused t := by
  obtain ⟨flags, shared, workers, owner, attempts⟩ := s
  obtain ⟨workers, finished, none, idle⟩ := unused
  cases owner with
  | inUse =>
    cases attempts with
    | nil =>
      cases stepped
      exact ⟨workers, finished, none, by simp⟩
    | cons attempt rest =>
      cases attempt with
      | fails =>
        cases stepped
        exact ⟨workers, finished, by simpa using none, by simp⟩
      | starts => simp at none
  | starting stores => exact absurd rfl (idle stores)
  | waiting =>
    have set : flags.finished = true := finished
    simp only [Loop.ownerStep, set, if_true, Option.some.injEq] at stepped
    subst stepped
    exact ⟨workers, finished, none, by simp⟩
  | ended => simp [Loop.ownerStep] at stepped

theorem next (s : State σ π) (e : Event ι τ) (t : State σ π) (stepped : l.next s e = some t)
    (unused : Unused s) : Unused t := by
  cases e with
  | owner => exact unused.ownerStep stepped
  | worker n i => simp [Loop.next, Loop.workerStep, unused.workers] at stepped
  | traffic e =>
    cases stepped
    exact ⟨unused.workers, unused.finished, unused.none, unused.idle⟩

theorem reaches (unused : Unused s) (reached : l.Reaches s t) : Unused t :=
  reached.invariant Unused next unused

end Unused

/-! ### Lifetimes that go wrong -/

namespace Loop

variable {σ π ι τ : Type} (l : Loop σ π ι τ)

theorem reaches_started (flags : Flags) (shared : σ) (workers : List (Status π))
    (attempts : List Attempt) (stores : List Store) :
    l.Reaches ⟨flags, shared, workers, .starting stores, attempts⟩
      ⟨storeAll flags stores, shared, workers ++ [.looping l.entry], .inUse, attempts⟩ := by
  induction stores generalizing flags with
  | nil => exact .head (e := .owner) rfl (.refl _)
  | cons store stores ih => exact .head (e := .owner) rfl (ih (store.apply flags))

/-- The owner can make all its calls before any worker takes a step. -/
theorem reaches_all_started (flags : Flags) (shared : σ) (workers : List (Status π))
    (attempts : List Attempt) :
    l.Reaches ⟨flags, shared, workers, .inUse, attempts⟩
      ⟨(fun f => storeAll f l.stores)^[attempts.count .starts] flags, shared,
        workers ++ List.replicate (attempts.count .starts) (.looping l.entry), .inUse, []⟩ := by
  induction attempts generalizing flags workers with
  | nil => simpa using Reaches.refl _
  | cons attempt rest ih =>
    cases attempt with
    | fails => exact .head (e := .owner) rfl (by simpa using ih flags workers)
    | starts =>
      have others := ih (storeAll flags l.stores) (workers ++ [.looping l.entry])
      rw [List.append_assoc, List.singleton_append, ← List.replicate_succ] at others
      rw [List.count_cons_self]
      exact .head (e := .owner) rfl ((l.reaches_started flags shared workers rest _).trans others)

theorem reaches_waiting (flags : Flags) (shared : σ) (workers : List (Status π)) :
    l.Reaches ⟨flags, shared, workers, .inUse, []⟩
      ⟨{ flags with running := false }, shared, workers, .waiting, []⟩ :=
  .head (e := .owner) rfl (.refl _)

theorem reaches_ended (running : Bool) (shared : σ) (workers : List (Status π)) :
    l.Reaches ⟨⟨running, true⟩, shared, workers, .waiting, []⟩
      ⟨⟨running, true⟩, shared, workers, .ended, []⟩ :=
  .head (e := .owner) rfl (.refl _)

/-- Without a worker nobody stores `finished`. -/
theorem exists_not_canRelease (flags : Flags) (shared : σ) (attempts : List Attempt)
    (none : attempts.count .starts = 0)
    (unfinished : flags.finished = false) :
    ∃ t, l.Reaches (initial flags shared attempts) t ∧ ¬ t.CanRelease l := by
  have all := l.reaches_all_started flags shared [] attempts
  simp only [none, Function.iterate_zero, id_eq, List.replicate_zero, List.append_nil] at all
  refine ⟨_, all.trans (l.reaches_waiting _ _ _), fun release => ?_⟩
  obtain ⟨t, ⟨moves, ran⟩, finished⟩ := release rfl unfinished
  cases moves with
  | nil =>
    cases ran
    simp [unfinished] at finished
  | cons move moves => simp [Transition.run, Loop.next, Loop.workerStep] at ran

end Loop

namespace Contract

variable {σ π ι τ : Type} {l : Loop σ π ι τ} (c : Contract l) (flags : Flags) (shared : σ)
  (attempts : List Attempt)

/-- Of two workers, the one that leaves first lets the destructor end. -/
theorem exists_not_endsAlone (idle : c.Idle shared) (two : 2 ≤ attempts.count .starts) :
    ∃ t, l.Reaches (initial flags shared attempts) t ∧ ¬ t.EndsAlone := by
  obtain ⟨more, count⟩ := Nat.exists_eq_add_of_le' two
  let workers : List (Status π) := List.replicate (attempts.count .starts) (.looping l.entry)
  let started : Flags := (fun f => storeAll f l.stores)^[attempts.count .starts] flags
  let waiting : State σ π := ⟨⟨false, started.finished⟩, shared, workers, .waiting, []⟩
  have first : waiting.workers[0]? = some (.looping l.entry) := by
    simp [waiting, workers, count, List.replicate_succ]
  obtain ⟨final, finished⟩ := c.can_finish waiting 0 l.entry rfl first (c.enters _ idle)
  refine ⟨⟨⟨false, true⟩, final, workers.set 0 .gone, .ended, []⟩, ?_, fun alone => ?_⟩
  · have all := l.reaches_all_started flags shared [] attempts
    exact ((all.trans (l.reaches_waiting started shared workers)).trans finished.reaches).trans
      (l.reaches_ended false final _)
  · have second : Status.looping l.entry ∈ workers.set 0 .gone := by
      simp [workers, count, List.replicate_succ]
    simpa using alone rfl _ second

/-- A worker that starts with `running` cleared leaves at once; one that starts with
`finished` set is not waited for. -/
theorem exists_not_safe (idle : c.Idle shared) (one : attempts.count .starts = 1)
    (wrong : storeAll flags l.stores ≠ ⟨true, false⟩) :
    ∃ t, l.Reaches (initial flags shared attempts) t ∧ ¬ (t.EndsAlone ∧ t.KeepsLooping) := by
  have all := l.reaches_all_started flags shared [] attempts
  simp only [one, Function.iterate_one, List.replicate_one, List.nil_append] at all
  generalize storeAll flags l.stores = started at all wrong
  obtain ⟨running, finished⟩ := started
  cases running with
  | false =>
    obtain ⟨final, _, left⟩ :=
      c.can_leave ⟨⟨false, finished⟩, shared, [.looping l.entry], .inUse, []⟩ 0 l.entry rfl rfl
        (c.enters _ idle)
    refine ⟨_, all.trans left.reaches, fun safe => ?_⟩
    simpa using safe.2 (by simp [State.IsBeingDestroyed]) .leaving (by simp)
  | true =>
    cases finished with
    | false => exact absurd rfl wrong
    | true =>
      refine ⟨_, (all.trans (l.reaches_waiting _ _ _)).trans (l.reaches_ended _ _ _),
        fun safe => ?_⟩
      simpa using safe.1 rfl (.looping l.entry) (by simp)

/-- A lifetime is safe in every run exactly when one worker is started, with `running` set and
`finished` cleared, or none is and `finished` is set. -/
theorem safe_iff (idle : c.Idle shared) :
    (∀ t, l.Reaches (initial flags shared attempts) t →
        t.EndsAlone ∧ t.CanRelease l ∧ t.KeepsLooping) ↔
      attempts.count .starts = 1 ∧ storeAll flags l.stores = ⟨true, false⟩ ∨
        attempts.count .starts = 0 ∧ flags.finished = true := by
  constructor
  · intro safe
    rcases Nat.lt_or_ge 1 (attempts.count .starts) with two | few
    · obtain ⟨t, reached, broken⟩ := c.exists_not_endsAlone flags shared attempts idle two
      exact absurd (safe t reached).1 broken
    · rcases Nat.lt_or_ge 0 (attempts.count .starts) with some | none
      · refine Or.inl ⟨by omega, ?_⟩
        by_contra wrong
        obtain ⟨t, reached, broken⟩ := c.exists_not_safe flags shared attempts idle (by omega) wrong
        exact broken ⟨(safe t reached).1, (safe t reached).2.2⟩
      · refine Or.inr ⟨by omega, ?_⟩
        by_contra unfinished
        obtain ⟨t, reached, stuck⟩ := l.exists_not_canRelease flags shared attempts
          (by omega) (by simpa using unfinished)
        exact stuck (safe t reached).2.1
  · rintro (⟨one, stores⟩ | ⟨none, finished⟩) t reached
    · have single := (Single.before (c := c) idle one stores).reaches reached
      exact ⟨single.endsAlone, single.canRelease, single.keepsLooping⟩
    · have unused : Unused t := Unused.reaches ⟨rfl, finished, none, by simp [initial]⟩ reached
      refine ⟨fun _ x member => ?_, fun _ unfinished => ?_, fun _ x member => ?_⟩
      · simp [unused.workers] at member
      · simp [unused.finished] at unfinished
      · simp [unused.workers] at member

end Contract

end Foundation.Lifetime
