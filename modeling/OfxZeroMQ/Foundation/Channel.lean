import Mathlib.Data.List.Basic

/-!
# Channels with a reader that falls asleep

A writer prepares items and flushes those that are complete. A reader that finds nothing falls
asleep, and the next flush that sends something tells the writer to wake it up.
-/
namespace Foundation

universe u

structure Channel (α : Type u) where
  -- what the reader can read
  sent : List α
  -- complete items that are not flushed
  ready : List α
  -- items that are to be continued
  unfinished : List α
  asleep : Bool
deriving DecidableEq

namespace Channel

variable {α : Type u}

def empty : Channel α := ⟨[], [], [], false⟩

def write (ch : Channel α) (value : α) (incomplete : Bool) : Channel α :=
  if incomplete then { ch with unfinished := ch.unfinished ++ [value] }
  else { ch with ready := ch.ready ++ (ch.unfinished ++ [value]), unfinished := [] }

/-- Take back the last item that is to be continued. -/
def unwrite (ch : Channel α) : Option α × Channel α :=
  (ch.unfinished.getLast?, { ch with unfinished := ch.unfinished.dropLast })

/-- The result is `false` when the reader has to be woken up. -/
def flush (ch : Channel α) : Bool × Channel α :=
  if ch.ready = [] then (true, ch)
  else (!ch.asleep, { ch with sent := ch.sent ++ ch.ready, ready := [], asleep := false })

def checkRead (ch : Channel α) : Bool × Channel α :=
  match ch.sent with
  | [] => (false, { ch with asleep := true })
  | _ :: _ => (true, ch)

def read (ch : Channel α) : Option α × Channel α :=
  match ch.sent with
  | [] => (none, { ch with asleep := true })
  | value :: sent => (some value, { ch with sent := sent })

/-- Everything in the channel, in order. -/
def contents (ch : Channel α) : List α := ch.sent ++ (ch.ready ++ ch.unfinished)

theorem contents_write (ch : Channel α) (value : α) (incomplete : Bool) :
    (ch.write value incomplete).contents = ch.contents ++ [value] := by
  cases incomplete <;> simp [contents, write]

theorem contents_flush (ch : Channel α) : ch.flush.2.contents = ch.contents := by
  rw [flush]
  split <;> simp [contents]

/-- A sleeping reader has read everything. -/
def Fair (ch : Channel α) : Prop := ch.asleep = true → ch.sent = []

end Channel

end Foundation
