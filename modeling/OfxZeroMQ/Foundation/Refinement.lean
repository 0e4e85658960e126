/-!
# Objects that answer calls

An object implements an abstract one when, related states given, every call gets the answer that
the abstract object gives and leaves related states. A call may use up a part of a budget, such
as the range of a counter.
-/
namespace Foundation.Refinement

universe u v w x

variable {σ : Type u} {ε : Type v} {ρ : Type w} {α : Type x}

/-- The answers to the calls, one after the other; the object fails when a call does. -/
def answers (step : σ → ε → Option (ρ × σ)) : σ → List ε → Option (List ρ × σ)
  | s, [] => some ([], s)
  | s, e :: es =>
    (step s e).bind fun (r, t) => (answers step t es).map fun (rs, u) => (r :: rs, u)

/-- The answers of an object that never fails. -/
def expected (next : α → ε → ρ × α) : α → List ε → List ρ × α
  | a, [] => ([], a)
  | a, e :: es => ((next a e).1 :: (expected next (next a e).2 es).1,
      (expected next (next a e).2 es).2)

/-- Related states stay related, and the answers agree, while the budget lasts. -/
def Implements (step : σ → ε → Option (ρ × σ)) (next : α → ε → ρ × α)
    (R : Nat → σ → α → Prop) : Prop :=
  ∀ n s a e, R (n + 1) s a → ∃ t, step s e = some ((next a e).1, t) ∧ R n t (next a e).2

theorem answers_eq (step : σ → ε → Option (ρ × σ)) (next : α → ε → ρ × α)
    (R : Nat → σ → α → Prop) (implements : Implements step next R) (n : Nat) (s : σ) (a : α)
    (es : List ε) (related : R (n + es.length) s a) :
    ∃ t, answers step s es = some ((expected next a es).1, t) ∧
      R n t (expected next a es).2 := by
  induction es generalizing s a with
  | nil => exact ⟨s, rfl, related⟩
  | cons e es ih =>
    obtain ⟨t, stepped, kept⟩ := implements (n + es.length) s a e related
    obtain ⟨u, others, final⟩ := ih t (next a e).2 kept
    exact ⟨u, by simp [answers, expected, stepped, others], final⟩

end Foundation.Refinement
