import Mathlib.Data.List.Basic

/-! Computations that can fail, one after the other, and traversals of a list by them. -/
namespace Foundation.Traverse

universe u

variable {ε : Type*}

/-! ### One computation after another -/

section Bind

variable {α β : Type u}

@[simp] theorem ok_bind (a : α) (f : α → Except ε β) : (Except.ok a >>= f) = f a := rfl

@[simp] theorem error_bind (e : ε) (f : α → Except ε β) :
    (Except.error e >>= f) = .error e := rfl

@[simp] theorem pure_eq_ok (a : α) : (pure a : Except ε α) = .ok a := rfl

/-- Two computations succeed when the first one does and the second one does with its result. -/
theorem bind_eq_ok_iff (x : Except ε α) (f : α → Except ε β) (b : β) :
    (x >>= f) = .ok b ↔ ∃ a, x = .ok a ∧ f a = .ok b := by
  cases x <;> simp

/-- Two computations fail when the first one fails or the second one does after it. -/
theorem bind_eq_error_iff (x : Except ε α) (f : α → Except ε β) (e : ε) :
    (x >>= f) = .error e ↔ x = .error e ∨ ∃ a, x = .ok a ∧ f a = .error e := by
  cases x <;> simp

end Bind

/-! ### Traversals -/

variable {α β : Type*}

/-- A traversal succeeds exactly when every element does. -/
theorem mapM_eq_ok (f : α → Except ε β) (xs : List α) (ys : List β) :
    xs.mapM f = .ok ys ↔ xs.map f = ys.map .ok := by
  induction xs generalizing ys with
  | nil => cases ys <;> simp
  | cons x xs ih =>
    simp only [List.mapM_cons, bind_eq_ok_iff, pure_eq_ok, Except.ok.injEq, ih, List.map_cons]
    constructor
    · rintro ⟨y, first, rest, others, rfl⟩
      rw [first, others, List.map_cons]
    · intro mapped
      cases ys with
      | nil => simp at mapped
      | cons y rest =>
        rw [List.map_cons, List.cons.injEq] at mapped
        exact ⟨y, mapped.1, rest, mapped.2, rfl⟩

/-- A traversal that fails does so with the error of one of the elements. -/
theorem exists_of_mapM_eq_error (f : α → Except ε β) (xs : List α) (e : ε)
    (failed : xs.mapM f = .error e) : ∃ x ∈ xs, f x = .error e := by
  induction xs with
  | nil => simp at failed
  | cons x xs ih =>
    rw [List.mapM_cons, bind_eq_error_iff] at failed
    rcases failed with here | ⟨y, -, later⟩
    · exact ⟨x, by simp, here⟩
    · rw [bind_eq_error_iff] at later
      rcases later with others | ⟨ys, -, never⟩
      · obtain ⟨z, member, same⟩ := ih others
        exact ⟨z, List.mem_cons_of_mem x member, same⟩
      · simp at never

end Foundation.Traverse
