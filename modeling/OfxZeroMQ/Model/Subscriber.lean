import Mathlib.Data.Finset.Sort
import OfxZeroMQ.Foundation.Subscription
import OfxZeroMQ.Model.Message

/-!
# Subscriber

A SUB socket counts subscriptions; `Subscriber` remembers its filters in a `std::set`. Each
operation is given twice: as it is when no socket call throws, and with calls that may.
-/
namespace OfxZeroMQ

open Foundation

structure Subscriber where
  -- the filters the object remembers
  filters : Finset Bytes
  -- the subscriptions of the socket
  subscriptions : Subscription.Counts UInt8
  -- the addresses the socket is connected to
  addresses : List Bytes

namespace Subscriber

def fresh : Subscriber := ⟨∅, 0, []⟩

/-- Every call subscribes once more, also for a filter the set has already. -/
def addFilter (s : Subscriber) (filter : Bytes) : Subscriber :=
  { s with
    filters := insert filter s.filters
    subscriptions := Subscription.add s.subscriptions filter }

def connect (s : Subscriber) (address : Bytes) : Subscriber :=
  let s := if s.filters = ∅ then s.addFilter [] else s
  { s with addresses := s.addresses ++ [address] }

/-- The result says whether the set had the filter. -/
def removeFilter (s : Subscriber) (filter : Bytes) : Bool × Subscriber :=
  if filter ∈ s.filters then
    (true, { s with
      filters := s.filters.erase filter
      subscriptions := Subscription.rm s.subscriptions filter })
  else (false, s)

def removeAllFilters (s : Subscriber) : Subscriber :=
  { s with
    filters := ∅
    subscriptions := Subscription.rmAll s.subscriptions s.filters }

/-- Whether the socket lets a message with this first frame through. -/
def accepts (s : Subscriber) (topic : Bytes) : Bool := Subscription.check s.subscriptions topic

/-- The operations of a `Subscriber` that touch its filters. -/
inductive Operation where
  | connect (address : Bytes)
  | addFilter (filter : Bytes)
  | removeFilter (filter : Bytes)
  | removeAllFilters
deriving DecidableEq

def step (s : Subscriber) : Operation → Option Subscriber
  | .connect address => some (s.connect address)
  | .addFilter filter => some (s.addFilter filter)
  | .removeFilter filter => some (s.removeFilter filter).2
  | .removeAllFilters => some s.removeAllFilters

/-! ### Operations whose socket calls may throw

`throws i` says whether the `i`-th socket call of the operation throws, which leaves the socket
alone. The object an exception leaves behind is the error. -/

def trySubscribe (s : Subscriber) (throws : Bool) (filter : Bytes) :
    Except Subscriber Subscriber :=
  if throws then .error s
  else .ok { s with subscriptions := Subscription.add s.subscriptions filter }

def tryUnsubscribe (s : Subscriber) (throws : Bool) (filter : Bytes) :
    Except Subscriber Subscriber :=
  if throws then .error s
  else .ok { s with subscriptions := Subscription.rm s.subscriptions filter }

/-- `Socket::connect` -/
def trySocketConnect (s : Subscriber) (throws : Bool) (address : Bytes) :
    Except Subscriber Subscriber :=
  if throws then .error s else .ok { s with addresses := s.addresses ++ [address] }

def tryAddFilter (s : Subscriber) (throws : Nat → Bool) (filter : Bytes) :
    Except Subscriber Subscriber :=
  trySubscribe { s with filters := insert filter s.filters } (throws 0) filter

def tryConnect (s : Subscriber) (throws : Nat → Bool) (address : Bytes) :
    Except Subscriber Subscriber :=
  if s.filters = ∅ then do
    let s ← s.tryAddFilter throws []
    s.trySocketConnect (throws 1) address
  else s.trySocketConnect (throws 0) address

def tryRemoveFilter (s : Subscriber) (throws : Nat → Bool) (filter : Bytes) :
    Except Subscriber (Bool × Subscriber) :=
  if filter ∈ s.filters then do
    let s ← tryUnsubscribe { s with filters := s.filters.erase filter } (throws 0) filter
    return (true, s)
  else return (false, s)

/-- The loop of `removeAllFilters`. -/
def tryUnsubscribeAll (s : Subscriber) (throws : Nat → Bool) :
    List Bytes → Except Subscriber Subscriber
  | [] => .ok s
  | v :: vs => do
    let s ← s.tryUnsubscribe (throws 0) v
    s.tryUnsubscribeAll (fun i => throws (i + 1)) vs

/-- The filters in the order of `std::set`, which is lexicographic. -/
def filterList (s : Subscriber) : List Bytes := s.filters.sort (· ≤ ·)

def tryRemoveAllFilters (s : Subscriber) (throws : Nat → Bool) :
    Except Subscriber Subscriber := do
  let s ← s.tryUnsubscribeAll throws s.filterList
  return { s with filters := ∅ }

def tryStep (s : Subscriber) (throws : Nat → Bool) : Operation → Except Subscriber Subscriber
  | .connect address => s.tryConnect throws address
  | .addFilter filter => s.tryAddFilter throws filter
  | .removeFilter filter => (s.tryRemoveFilter throws filter).map Prod.snd
  | .removeAllFilters => s.tryRemoveAllFilters throws

end Subscriber

end OfxZeroMQ
