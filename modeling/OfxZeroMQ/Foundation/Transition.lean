/-! Runs of a labelled transition system, and invariants of the runs that keep a guard. -/
namespace Foundation.Transition

universe u v

variable {σ : Type u} {ε : Type v}

def run (step : σ → ε → Option σ) : σ → List ε → Option σ
  | s, [] => some s
  | s, e :: es => (step s e).bind fun t => run step t es

/-- What the steps of the run that starts in `s` cost. -/
def total (step : σ → ε → Option σ) (cost : σ → σ → Nat) : σ → List ε → Nat
  | _, [] => 0
  | s, e :: es =>
    match step s e with
    | none => 0
    | some t => cost s t + total step cost t es

/-- Every step of the run that starts in `s` meets `guard`. -/
def Meets (step : σ → ε → Option σ) (guard : σ → ε → Prop) : σ → List ε → Prop
  | _, [] => True
  | s, e :: es => guard s e ∧ ∀ t, step s e = some t → Meets step guard t es

theorem run_cons (step : σ → ε → Option σ) (s u : σ) (e : ε) (es : List ε) :
    run step s (e :: es) = some u ↔ ∃ t, step s e = some t ∧ run step t es = some u := by
  simp only [run, Option.bind_eq_some_iff]

theorem run_append (step : σ → ε → Option σ) (s t u : σ) (es fs : List ε)
    (first : run step s es = some t) (second : run step t fs = some u) :
    run step s (es ++ fs) = some u := by
  induction es generalizing s with
  | nil =>
    simp only [run, Option.some.injEq] at first
    exact first ▸ second
  | cons e es ih =>
    obtain ⟨v, stepped, rest⟩ := (run_cons step s t e es).mp first
    exact (run_cons step s u e (es ++ fs)).mpr ⟨v, stepped, ih v rest⟩

/-- What every step preserves holds after every run. -/
theorem run_invariant (step : σ → ε → Option σ) (P : σ → Prop)
    (preserved : ∀ s e t, step s e = some t → P s → P t)
    (s t : σ) (es : List ε) (ran : run step s es = some t) (initial : P s) : P t := by
  induction es generalizing s with
  | nil =>
    simp only [run, Option.some.injEq] at ran
    exact ran ▸ initial
  | cons e es ih =>
    obtain ⟨u, first, rest⟩ := (run_cons step s t e es).mp ran
    exact ih u rest (preserved s e u first initial)

/-- Where a step can always be made that keeps an invariant, a run can be made. The invariant may
use up a budget, one unit for each step. -/
theorem run_total (step : σ → ε → Option σ) (P : Nat → σ → Prop) (guard : ε → Prop)
    (progress : ∀ n s e, guard e → P (n + 1) s → ∃ t, step s e = some t ∧ P n t)
    (n : Nat) (s : σ) (es : List ε) (guarded : ∀ e ∈ es, guard e) (initial : P (n + es.length) s) :
    ∃ t, run step s es = some t ∧ P n t := by
  induction es generalizing s with
  | nil => exact ⟨s, rfl, initial⟩
  | cons e es ih =>
    obtain ⟨u, first, kept⟩ := progress (n + es.length) s e (guarded e (by simp)) initial
    obtain ⟨t, rest, final⟩ := ih u (fun e later => guarded e (by simp [later])) kept
    exact ⟨t, (run_cons step s t e es).mpr ⟨u, first, rest⟩, final⟩

/-- Where every step that meets a guard can be made and keeps an invariant, every run that meets
the guard can be made. -/
theorem run_guarded (step : σ → ε → Option σ) (P : σ → Prop) (guard : σ → ε → Prop)
    (progress : ∀ s e, P s → guard s e → ∃ t, step s e = some t ∧ P t)
    (s : σ) (es : List ε) (initial : P s) (meets : Meets step guard s es) :
    ∃ t, run step s es = some t ∧ P t := by
  induction es generalizing s with
  | nil => exact ⟨s, rfl, initial⟩
  | cons e es ih =>
    obtain ⟨guarded, rest⟩ := meets
    obtain ⟨u, first, kept⟩ := progress s e initial guarded
    obtain ⟨t, ran, final⟩ := ih u kept (rest u first)
    exact ⟨t, (run_cons step s t e es).mpr ⟨u, first, ran⟩, final⟩

/-- Where every state short of a goal has a step that comes closer to it, some run gets there. -/
theorem run_reaches (step : σ → ε → Option σ) (P goal : σ → Prop) (guard : ε → Prop)
    (distance : σ → Nat)
    (closer : ∀ s, P s → ¬goal s →
      ∃ e t, guard e ∧ step s e = some t ∧ P t ∧ distance t < distance s)
    (s : σ) (initial : P s) :
    ∃ es t, (∀ e ∈ es, guard e) ∧ run step s es = some t ∧ P t ∧ goal t := by
  induction far : distance s using Nat.strongRecOn generalizing s with
  | ind n ih =>
    by_cases there : goal s
    · exact ⟨[], s, by simp, rfl, initial, there⟩
    · obtain ⟨e, u, guarded, stepped, kept, nearer⟩ := closer s initial there
      obtain ⟨es, t, all, ran, final⟩ := ih (distance u) (far ▸ nearer) u kept rfl
      refine ⟨e :: es, t, ?_, (run_cons step s t e es).mpr ⟨u, stepped, ran⟩, final⟩
      simpa [guarded] using all

/-- Two guards that agree where an invariant holds are met by the same runs, when the steps
that meet them keep the invariant. -/
theorem meets_iff (step : σ → ε → Option σ) (P : σ → Prop) (guard other : σ → ε → Prop)
    (same : ∀ s e, P s → (guard s e ↔ other s e))
    (kept : ∀ s e t, P s → guard s e → step s e = some t → P t)
    (s : σ) (es : List ε) (initial : P s) : Meets step guard s es ↔ Meets step other s es := by
  induction es generalizing s with
  | nil => rfl
  | cons e es ih =>
    simp only [Meets, same s e initial]
    constructor
    · rintro ⟨first, rest⟩
      have next (t : σ) (stepped : step s e = some t) : P t :=
        kept s e t initial ((same s e initial).mpr first) stepped
      exact ⟨first, fun t stepped => (ih t (next t stepped)).mp (rest t stepped)⟩
    · rintro ⟨first, rest⟩
      have next (t : σ) (stepped : step s e = some t) : P t :=
        kept s e t initial ((same s e initial).mpr first) stepped
      exact ⟨first, fun t stepped => (ih t (next t stepped)).mpr (rest t stepped)⟩

end Foundation.Transition
