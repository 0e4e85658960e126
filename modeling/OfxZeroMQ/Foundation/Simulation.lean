import OfxZeroMQ.Foundation.Transition

/-!
# Runs in an environment

Each step of a system may depend on something its environment chooses. The system refines an
abstract function when, whatever the environment chooses, every state of a run stands for what
the function makes of the same events.
-/
namespace Foundation.Simulation

universe u v w x y

variable {ω : Type u} {σ : Type v} {ε : Type w} {α : Type x} {β : Type y}

/-- The run in which the environment chooses `choice i` for the `i`-th step. -/
def run (step : ω → σ → ε → Option σ) (choice : Nat → ω) : σ → List ε → Option σ
  | s, [] => some s
  | s, e :: es => (step (choice 0) s e).bind fun t => run step (fun i => choice (i + 1)) t es

theorem run_cons (step : ω → σ → ε → Option σ) (choice : Nat → ω) (s t : σ) (e : ε)
    (es : List ε) (stepped : step (choice 0) s e = some t) :
    run step choice s (e :: es) = run step (fun i => choice (i + 1)) t es := by
  rw [run, stepped, Option.bind_some]

section Refinement

variable (step : ω → σ → ε → Option σ) (next : α → ε → α) (abs : σ → α)

/-- A step that stands for `next`, whatever the environment chooses. -/
def StepRefines (s : σ) (e : ε) : Prop :=
  ∀ c, ∃ t, step c s e = some t ∧ abs t = next (abs s) e

/-- After every part of the events the state stands for what `next` has made of them. -/
def Refines (s : σ) (es : List ε) : Prop :=
  ∀ choice done, done <+: es →
    ∃ t, run step choice s done = some t ∧ abs t = done.foldl next (abs s)

theorem refines_nil (s : σ) : Refines step next abs s [] := by
  intro choice done part
  rw [List.prefix_nil] at part
  subst part
  exact ⟨s, by rw [run], by rw [List.foldl_nil]⟩

theorem refines_cons_iff (s : σ) (e : ε) (es : List ε) :
    Refines step next abs s (e :: es) ↔ StepRefines step next abs s e ∧
      ∀ c t, step c s e = some t → Refines step next abs t es := by
  constructor
  · intro refines
    have first : StepRefines step next abs s e := by
      intro c
      obtain ⟨t, ran, stands⟩ := refines (fun _ => c) [e] ⟨es, by simp⟩
      rw [run, Option.bind_eq_some_iff] at ran
      obtain ⟨u, stepped, rest⟩ := ran
      rw [run, Option.some.injEq] at rest
      subst rest
      exact ⟨u, stepped, stands⟩
    refine ⟨first, fun c t stepped choice done part => ?_⟩
    -- the environment chooses `c` first, and goes on as it does after the step
    obtain ⟨u, ran, stands⟩ := refines (fun i => i.casesOn c choice) (e :: done)
      (List.cons_prefix_cons.mpr ⟨rfl, part⟩)
    rw [run_cons step _ s t e done stepped] at ran
    obtain ⟨v, same, abstract⟩ := first c
    rw [stepped, Option.some.injEq] at same
    subst same
    rw [List.foldl_cons, ← abstract] at stands
    exact ⟨u, ran, stands⟩
  · rintro ⟨first, rest⟩ choice done part
    cases done with
    | nil => exact refines_nil step next abs s choice [] List.nil_prefix
    | cons d done =>
      obtain ⟨rfl, others⟩ := List.cons_prefix_cons.mp part
      obtain ⟨t, stepped, abstract⟩ := first (choice 0)
      obtain ⟨u, ran, stands⟩ := rest (choice 0) t stepped _ done others
      rw [run_cons step choice s t d done stepped, List.foldl_cons, ← abstract]
      exact ⟨u, ran, stands⟩

/-- Where a condition on what `view` shows of a state tells which steps stand for `next`, and
these steps change the view as `advance` does, a run refines exactly when the run of the view
meets the condition. -/
theorem refines_iff [Nonempty ω] (view : σ → β) (advance : β → ε → β) (guard : β → ε → Prop)
    (exact : ∀ s e, StepRefines step next abs s e ↔ guard (view s) e)
    (tracks : ∀ c s t e, guard (view s) e → step c s e = some t → view t = advance (view s) e)
    (s : σ) (es : List ε) :
    Refines step next abs s es ↔
      Transition.Meets (fun b e => some (advance b e)) guard (view s) es := by
  induction es generalizing s with
  | nil => exact iff_of_true (refines_nil step next abs s) trivial
  | cons e es ih =>
    rw [refines_cons_iff, exact s e, Transition.Meets]
    apply and_congr_right
    intro guarded
    have first := (exact s e).mpr guarded
    constructor
    · rintro rest _ ⟨⟩
      obtain ⟨c⟩ := ‹Nonempty ω›
      obtain ⟨t, stepped, -⟩ := first c
      rw [← tracks c s t e guarded stepped]
      exact (ih t).mp (rest c t stepped)
    · intro rest c t stepped
      refine (ih t).mpr ?_
      rw [tracks c s t e guarded stepped]
      exact rest _ rfl

end Refinement

end Foundation.Simulation
