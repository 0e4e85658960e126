/-!
# Relays

A relay takes messages in and hands them on, one after the other. It is balanced when what
it has handed on, with what it still holds, is what it has taken in; a message that is lost
leaves it short for good.
-/
namespace Foundation

structure Relay (μ : Type) where
  taken : List μ
  held : List μ
  handed : List μ

namespace Relay

variable {μ : Type}

/-- The moves that lose nothing. -/
inductive Step : Relay μ → Relay μ → Prop where
  | stay (r : Relay μ) : Step r r
  | take (taken handed : List μ) (m : μ) : Step ⟨taken, [], handed⟩ ⟨taken ++ [m], [m], handed⟩
  | hand (taken handed : List μ) (m : μ) : Step ⟨taken, [m], handed⟩ ⟨taken, [], handed ++ [m]⟩

/-- The held message is dropped. -/
inductive Loss : Relay μ → Relay μ → Prop where
  | drop (taken handed : List μ) (m : μ) : Loss ⟨taken, [m], handed⟩ ⟨taken, [], handed⟩

/-- Everything that was taken in is handed on or still held, in its order. -/
def Balanced (r : Relay μ) : Prop := r.handed ++ r.held = r.taken

/-- Something that was taken in is gone. -/
def Short (r : Relay μ) : Prop := r.handed.length + r.held.length < r.taken.length

theorem Balanced.not_short {r : Relay μ} (balanced : r.Balanced) : ¬ r.Short := by
  have total := congrArg List.length balanced
  rw [List.length_append] at total
  rw [Short]
  omega

/-- A move that loses nothing keeps a relay balanced. -/
theorem Step.balanced {r q : Relay μ} (step : Step r q) (balanced : r.Balanced) : q.Balanced := by
  cases step with
  | stay => exact balanced
  | take taken handed m =>
    simp only [Balanced, List.append_nil] at balanced ⊢
    rw [balanced]
  | hand taken handed m => simpa [Balanced] using balanced

/-- A move that loses nothing does not make up for a loss. -/
theorem Step.short {r q : Relay μ} (step : Step r q) (short : r.Short) : q.Short := by
  cases step with
  | stay => exact short
  | take taken handed m =>
    simp only [Short, List.length_append, List.length_nil, List.length_singleton] at short ⊢
    omega
  | hand taken handed m =>
    simp only [Short, List.length_append, List.length_nil, List.length_singleton] at short ⊢
    omega

/-- A loss leaves the relay short, whatever it was before. -/
theorem Loss.short {r q : Relay μ} (loss : Loss r q) (total : r.Balanced ∨ r.Short) :
    q.Short := by
  cases loss with
  | drop taken handed m =>
    -- a relay is never ahead of what it has taken in, so the loss leaves it behind
    rcases total with balanced | short
    · have length := congrArg List.length balanced
      simp only [List.length_append, List.length_singleton] at length
      simp only [Short, List.length_nil]
      omega
    · simp only [Short, List.length_nil, List.length_singleton] at short ⊢
      omega

end Relay

end Foundation
