/-! Messages as runs of frames, each frame marked whether more frames of its message follow. -/
namespace Foundation.Framing

variable {α : Type}

/-- The frames of one message with the bit set on all but the last. -/
def mark : List α → List (α × Bool)
  | [] => []
  | [x] => [(x, false)]
  | x :: y :: rest => (x, true) :: mark (y :: rest)

theorem mark_ne_nil (xs : List α) (nonempty : xs ≠ []) : mark xs ≠ [] := by
  match xs with
  | [] => exact absurd rfl nonempty
  | [x] => simp [mark]
  | x :: y :: rest => simp [mark]

/-- What a sender has handed over: complete messages and the frames of an unfinished one. -/
structure Assembly (α : Type) where
  delivered : List (List α)
  pending : List α
deriving DecidableEq

def Assembly.push (a : Assembly α) (x : α × Bool) : Assembly α :=
  if x.2 then { a with pending := a.pending ++ [x.1] }
  else ⟨a.delivered ++ [a.pending ++ [x.1]], []⟩

def Assembly.pushAll (a : Assembly α) (xs : List (α × Bool)) : Assembly α := xs.foldl push a

theorem pushAll_append (a : Assembly α) (xs ys : List (α × Bool)) :
    a.pushAll (xs ++ ys) = (a.pushAll xs).pushAll ys := List.foldl_append

/-- A marked message completes exactly one message, together with what was pending. -/
theorem pushAll_mark (a : Assembly α) (xs : List α) (nonempty : xs ≠ []) :
    a.pushAll (mark xs) = ⟨a.delivered ++ [a.pending ++ xs], []⟩ := by
  induction xs generalizing a with
  | nil => exact absurd rfl nonempty
  | cons x rest ih =>
    cases rest with
    | nil => simp [mark, Assembly.pushAll, Assembly.push]
    | cons y rest =>
      have step : a.pushAll (mark (x :: y :: rest)) =
          (a.push (x, true)).pushAll (mark (y :: rest)) := rfl
      rw [step, ih _ (by simp)]
      simp [Assembly.push]

/-- Frames that all announce more only extend the unfinished message. -/
theorem pushAll_more (a : Assembly α) (xs : List α) :
    a.pushAll (xs.map fun x => (x, true)) = { a with pending := a.pending ++ xs } := by
  induction xs generalizing a with
  | nil => simp [Assembly.pushAll]
  | cons x rest ih =>
    have step : a.pushAll ((x :: rest).map fun x => (x, true)) =
        (a.push (x, true)).pushAll (rest.map fun x => (x, true)) := rfl
    rw [step, ih]
    simp [Assembly.push]

theorem length_delivered_pushAll (a : Assembly α) (xs : List (α × Bool)) :
    (a.pushAll xs).delivered.length = a.delivered.length + xs.countP fun x => !x.2 := by
  induction xs generalizing a with
  | nil => simp [Assembly.pushAll]
  | cons x rest ih =>
    have step : a.pushAll (x :: rest) = (a.push x).pushAll rest := rfl
    rw [step, ih, List.countP_cons]
    cases h : x.2 <;> simp [Assembly.push, h]
    omega

theorem countP_mark (xs : List α) (nonempty : xs ≠ []) :
    ((mark xs).countP fun x => !x.2) = 1 := by
  induction xs with
  | nil => exact absurd rfl nonempty
  | cons x rest ih =>
    cases rest with
    | nil => simp [mark]
    | cons y rest => simpa [mark, List.countP_cons] using ih (by simp)

end Foundation.Framing
