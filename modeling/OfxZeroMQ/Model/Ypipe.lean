import Mathlib.Data.List.Basic

/-!
# The queue between two threads

`zmq::ypipe_t` is written by one thread and read by another one. A pointer to an element of the
queue is the position of the element, counted from the first one that was ever pushed; the
terminator is behind the last item. The two threads share only `c`.
-/
namespace OfxZeroMQ

structure Ypipe (α : Type) where
  -- `_queue`, with the items that were popped
  items : List α
  front : Nat
  w : Nat
  r : Option Nat
  f : Nat
  c : Option Nat
  /-- `flush` has found the reader asleep, and has not yet set `c`. -/
  waking : Bool

inductive YpipeCall (α : Type) where
  | write (value : α) (incomplete : Bool)
  | unwrite
  -- `flush` up to its compare-and-swap
  | flush
  -- the rest of a `flush` whose compare-and-swap failed
  | wake
  | checkRead
  | read

inductive YpipeAnswer (α : Type) where
  | done
  | result (b : Bool)
  | value (v : Option α)
  -- the writing thread is inside `flush`
  | flushing
  -- the writing thread cannot make the call
  | refused
deriving DecidableEq

namespace Ypipe

variable {α : Type}

def empty : Ypipe α := ⟨[], 0, 0, some 0, 0, some 0, false⟩

/-- The position of the terminator. -/
def back (s : Ypipe α) : Nat := s.items.length

def write (s : Ypipe α) (value : α) (incomplete : Bool) : Ypipe α :=
  let s := { s with items := s.items ++ [value] }
  if incomplete then s else { s with f := s.back }

def unwrite (s : Ypipe α) : Option α × Ypipe α :=
  if s.f = s.back then (none, s)
  else (s.items.getLast?, { s with items := s.items.dropLast })

def flush (s : Ypipe α) : YpipeAnswer α × Ypipe α :=
  if s.w = s.f then (.result true, s)
  else if s.c = some s.w then (.result true, { s with c := some s.f, w := s.f })
  else (.flushing, { s with waking := true })

def wake (s : Ypipe α) : YpipeAnswer α × Ypipe α :=
  (.result false, { s with c := some s.f, w := s.f, waking := false })

def checkRead (s : Ypipe α) : Bool × Ypipe α :=
  if s.r ≠ some s.front ∧ s.r ≠ none then (true, s)
  else
    let r := s.c
    let s := { s with r := r, c := if s.c = some s.front then none else s.c }
    (decide (r ≠ some s.front ∧ r ≠ none), s)

/-- It is `none` where it would read the terminator. -/
def read (s : Ypipe α) : Option (Option α × Ypipe α) :=
  let (available, s) := s.checkRead
  if available then s.items[s.front]?.map fun value => (some value, { s with front := s.front + 1 })
  else some (none, s)

def step (s : Ypipe α) : YpipeCall α → Option (YpipeAnswer α × Ypipe α)
  | .write value incomplete =>
    if s.waking then some (.refused, s) else some (.done, s.write value incomplete)
  | .unwrite =>
    if s.waking then some (.refused, s) else some (.value s.unwrite.1, s.unwrite.2)
  | .flush => if s.waking then some (.refused, s) else some s.flush
  | .wake => if s.waking then some s.wake else some (.refused, s)
  | .checkRead => some (.result s.checkRead.1, s.checkRead.2)
  | .read => s.read.map fun (value, s) => (.value value, s)

end Ypipe

end OfxZeroMQ
