import Mathlib.Data.Fintype.Pigeonhole

/-!
# Chains of tail calls

A call either finishes with a result or hands over to one more call. On a finite type of
calls a chain that has not finished after as many calls as there are calls never finishes.
-/
namespace Foundation.Chain

variable {σ ρ : Type}

/-- Follow the chain from `s` for at most `n` calls. -/
def run (next : σ → ρ ⊕ σ) : Nat → σ → Option ρ
  | 0, _ => none
  | n + 1, s => match next s with
    | .inl r => some r
    | .inr t => run next n t

/-- The call that is active after `n` hand-overs. -/
def after (next : σ → ρ ⊕ σ) : Nat → σ → Option σ
  | 0, s => some s
  | n + 1, s => match next s with
    | .inl _ => none
    | .inr t => after next n t

theorem run_mono (next : σ → ρ ⊕ σ) (s : σ) (r : ρ) (m n : Nat) (le : m ≤ n)
    (finished : run next m s = some r) : run next n s = some r := by
  induction m generalizing s n with
  | zero => simp [run] at finished
  | succ m ih =>
    obtain ⟨n, rfl⟩ : ∃ k, n = k + 1 := ⟨n - 1, by omega⟩
    simp only [run] at finished ⊢
    cases h : next s with
    | inl q => simpa [h] using finished
    | inr t =>
      simp only [h] at finished ⊢
      exact ih t n (by omega) finished

theorem run_add (next : σ → ρ ⊕ σ) (s t : σ) (m n : Nat) (reached : after next m s = some t) :
    run next (m + n) s = run next n t := by
  induction m generalizing s with
  | zero =>
    simp only [after, Option.some.injEq] at reached
    rw [Nat.zero_add, reached]
  | succ m ih =>
    rw [Nat.succ_add]
    simp only [after] at reached
    cases h : next s with
    | inl q => simp [h] at reached
    | inr u =>
      simp only [h] at reached
      simp only [run, h]
      exact ih u reached

theorem after_add (next : σ → ρ ⊕ σ) (s t : σ) (m n : Nat) (reached : after next m s = some t) :
    after next (m + n) s = after next n t := by
  induction m generalizing s with
  | zero =>
    simp only [after, Option.some.injEq] at reached
    rw [Nat.zero_add, reached]
  | succ m ih =>
    rw [Nat.succ_add]
    simp only [after] at reached ⊢
    cases h : next s with
    | inl q => simp [h] at reached
    | inr u => exact ih u (by simpa [h] using reached)

theorem exists_after (next : σ → ρ ⊕ σ) (s : σ) (n : Nat) (running : run next n s = none) :
    ∃ t, after next n s = some t := by
  induction n generalizing s with
  | zero => exact ⟨s, rfl⟩
  | succ n ih =>
    simp only [run] at running
    simp only [after]
    cases h : next s with
    | inl q => simp [h] at running
    | inr t => exact ih t (by simpa [h] using running)

theorem run_none_of_le (next : σ → ρ ⊕ σ) (s : σ) (m n : Nat) (le : m ≤ n)
    (running : run next n s = none) : run next m s = none := by
  cases h : run next m s with
  | none => rfl
  | some r => simp [run_mono next s r m n le h] at running

/-- A chain that comes back to the same call never finishes. -/
theorem run_none_of_loop (next : σ → ρ ⊕ σ) (s : σ) (k : Nat) (positive : 0 < k)
    (loop : after next k s = some s) (running : run next k s = none) (n : Nat) :
    run next n s = none := by
  induction n using Nat.strong_induction_on with
  | _ n ih =>
    by_cases short : n ≤ k
    · exact run_none_of_le next s n k short running
    · have split : n = k + (n - k) := by omega
      rw [split, run_add next s s k (n - k) loop]
      exact ih (n - k) (by omega)

theorem run_card [Fintype σ] (next : σ → ρ ⊕ σ) (s : σ)
    (running : run next (Fintype.card σ) s = none) (n : Nat) : run next n s = none := by
  -- one visit more than there are calls, so that two visits are to the same call
  have alive : ∀ i : Fin (Fintype.card σ + 1), ∃ t, after next i s = some t := fun i =>
    exists_after next s i (run_none_of_le next s i _ (by omega) running)
  choose visit reached using alive
  obtain ⟨i, j, different, same⟩ :=
    Fintype.exists_ne_map_eq_of_card_lt visit (by simp [Fintype.card_fin])
  -- the two equal visits, in their order, close a loop
  obtain ⟨a, b, less, equal⟩ : ∃ a b : Fin (Fintype.card σ + 1),
      a.val < b.val ∧ visit a = visit b := by
    rcases Nat.lt_or_gt_of_ne (fun h => different (Fin.ext h)) with less | greater
    · exact ⟨i, j, less, same⟩
    · exact ⟨j, i, greater, same.symm⟩
  have stuck : run next (Fintype.card σ - a) (visit a) = none := by
    rw [← run_add next s (visit a) a _ (reached a)]
    rwa [show a.val + (Fintype.card σ - a) = Fintype.card σ by omega]
  have loop : after next (b - a) (visit a) = some (visit a) := by
    obtain ⟨t, ht⟩ := exists_after next (visit a) (b - a)
      (run_none_of_le next _ _ _ (by omega) stuck)
    have closes : after next b s = after next (b - a) (visit a) := by
      rw [← after_add next s (visit a) a (b - a) (reached a)]
      congr 1
      omega
    rw [← closes, reached b, equal]
  -- the chain enters the loop after `a` hand-overs and stays in it
  have never := run_none_of_loop next (visit a) (b - a) (by omega) loop
    (run_none_of_le next _ _ _ (by omega) stuck)
  by_cases early : n ≤ a
  · exact run_none_of_le next s n _ (by omega) running
  · rw [show n = a.val + (n - a) by omega, run_add next s (visit a) a _ (reached a)]
    exact never (n - a)

/-- The chain from `s` finishes with `r`. -/
def Ends (next : σ → ρ ⊕ σ) (s : σ) (r : ρ) : Prop := ∃ n, run next n s = some r

theorem Ends.of_inl {next : σ → ρ ⊕ σ} {s : σ} {r : ρ} (h : next s = .inl r) : Ends next s r :=
  ⟨1, by simp [run, h]⟩

theorem Ends.of_inr {next : σ → ρ ⊕ σ} {s t : σ} {r : ρ} (h : next s = .inr t)
    (ends : Ends next t r) : Ends next s r := by
  obtain ⟨n, finished⟩ := ends
  exact ⟨n + 1, by simp [run, h, finished]⟩

theorem Ends.unique {next : σ → ρ ⊕ σ} {s : σ} {q r : ρ} (first : Ends next s q)
    (second : Ends next s r) : q = r := by
  obtain ⟨m, left⟩ := first
  obtain ⟨n, right⟩ := second
  have same := run_mono next s q m (max m n) (by omega) left
  rw [run_mono next s r n (max m n) (by omega) right, Option.some.injEq] at same
  exact same.symm

/-- The chain from `s` goes on for ever. -/
def Never (next : σ → ρ ⊕ σ) (s : σ) : Prop := ∀ n, run next n s = none

theorem never_inr_iff {next : σ → ρ ⊕ σ} {s t : σ} (h : next s = .inr t) :
    Never next s ↔ Never next t := by
  constructor
  · intro never n
    have later := never (n + 1)
    simpa only [run, h] using later
  · intro never n
    cases n with
    | zero => rfl
    | succ n => simp [run, h, never n]

/-- As many calls as there are decide whether a chain finishes. -/
theorem run_card_eq_some_iff [Fintype σ] (next : σ → ρ ⊕ σ) (s : σ) (r : ρ) :
    run next (Fintype.card σ) s = some r ↔ Ends next s r := by
  constructor
  · exact fun finished => ⟨_, finished⟩
  · rintro ⟨n, finished⟩
    cases h : run next (Fintype.card σ) s with
    | none => simp [run_card next s h n] at finished
    | some q => rw [Ends.unique ⟨_, h⟩ ⟨n, finished⟩]

theorem Ends.not_never {next : σ → ρ ⊕ σ} {s : σ} {r : ρ} (ends : Ends next s r) :
    ¬ Never next s := by
  obtain ⟨n, finished⟩ := ends
  intro never
  simp [never n] at finished

theorem run_card_eq_none_iff [Fintype σ] (next : σ → ρ ⊕ σ) (s : σ) :
    run next (Fintype.card σ) s = none ↔ Never next s :=
  ⟨run_card next s, fun never => never _⟩

/-- What holds of every result a call can finish with holds of the chain's result. -/
theorem result_of_run (next : σ → ρ ⊕ σ) (P : ρ → Prop)
    (finishes : ∀ s r, next s = .inl r → P r) (n : Nat) (s : σ) (r : ρ)
    (finished : run next n s = some r) : P r := by
  induction n generalizing s with
  | zero => simp [run] at finished
  | succ n ih =>
    simp only [run] at finished
    cases h : next s with
    | inl q =>
      simp only [h, Option.some.injEq] at finished
      exact finished ▸ finishes s q h
    | inr t => exact ih t (by simpa [h] using finished)

end Foundation.Chain
