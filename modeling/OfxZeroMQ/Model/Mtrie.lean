import Mathlib.Data.Finset.Erase
import Mathlib.Data.Finset.Insert
import OfxZeroMQ.Foundation.PrefixTree
import OfxZeroMQ.Model.Message

/-!
# The subscriptions an XPUB socket holds

`zmq::generic_mtrie_t` knows for each prefix which pipes asked for it. An operation is `none` where
it fails an assertion or uses a node that is not there.
-/
namespace OfxZeroMQ

open Foundation Foundation.PrefixTree

/-- `generic_mtrie_t`: the value of a node is `_pipes`, which is null where there are none. -/
abbrev Mtrie (ι : Type) := Node (Option (Finset ι))

/-- `rm_result` -/
inductive RmResult where
  | notFound
  | lastValueRemoved
  | valuesRemain
deriving DecidableEq

namespace Mtrie

variable {ι : Type} [DecidableEq ι]

def empty : Mtrie ι := Node.fresh none

/-- Nothing is asserted of the number of nodes. -/
def add (t : Mtrie ι) (key : Bytes) (pipe : ι) : Option (Bool × Mtrie ι) :=
  Node.add none (fun pipes => (pipes.isNone, some (insert pipe (pipes.getD ∅))))
    (fun _ _ => true) t key

/-- The slot that is kept when a single one is left: the first that is taken. -/
def single {α : Type} (next : RangeTable α) (_c : Nat) : Option (Nat × α) :=
  (RangeTable.firstFrom next.slots 0).bind fun i =>
    next.slots[i]?.join.map fun node => (next.min + i, node)

/-- What `rm` does where the prefix ends; `none` is the assertion that fails. -/
def erase (pipe : ι) : Option (Finset ι) → Option RmResult × Option (Finset ι)
  | none => (some .notFound, none)
  | some pipes =>
    let erased := decide (pipe ∈ pipes)
    let pipes := pipes.erase pipe
    if pipes = ∅ then (if erased then some .lastValueRemoved else none, none)
    else (some (if erased then .valuesRemain else .notFound), some pipes)

def rm (t : Mtrie ι) (key : Bytes) (pipe : ι) : Option (RmResult × Mtrie ι) :=
  (Node.remove none (erase pipe) (some .notFound) (RangeTable.prune single) t key).bind
    fun (result, t) => result.map fun result => (result, t)

/-- What `rm` of a pipe does at a node, and whether it calls `func_` there. -/
def leave (pipe : ι) (callOnUniq : Bool) : Option (Finset ι) → Bool × Option (Finset ι)
  | none => (false, none)
  | some pipes =>
    if pipe ∈ pipes then
      let pipes := pipes.erase pipe
      (!callOnUniq || decide (pipes = ∅), if pipes = ∅ then none else some pipes)
    else (false, some pipes)

/-- `rm` of a pipe, with the prefixes that `func_` is called with, in this order. -/
def rmPipe (t : Mtrie ι) (pipe : ι) (callOnUniq : Bool) : Option (List Bytes × Mtrie ι) :=
  Node.sweep none (leave pipe callOnUniq) [] t

/-- `match`: the sets whose pipes are signalled, in this order. The loop goes on in a single node
without looking whether it is there. -/
def matching : Mtrie ι → Bytes → Option (List (Finset ι))
  | t, [] => some t.value.toList
  | t, c :: data =>
    if t.next.slots.length = 0 then some t.value.toList
    else if t.next.slots.length = 1 then
      if c.toNat ≠ t.next.min then some t.value.toList
      else (t.next.get c.toNat).bind fun node =>
        (matching node data).map fun others => t.value.toList ++ others
    else if !t.next.covers c.toNat then some t.value.toList
    else match t.next.get c.toNat with
      | none => some t.value.toList
      | some node => (matching node data).map fun others => t.value.toList ++ others

end Mtrie

/-! ### Calls -/

inductive MtrieCall (ι : Type) where
  | add (key : Bytes) (pipe : ι)
  | rm (key : Bytes) (pipe : ι)
  | rmPipe (pipe : ι) (callOnUniq : Bool)
  | matching (data : Bytes)

inductive MtrieAnswer (ι : Type) where
  | added (first : Bool)
  | removed (result : RmResult)
  | keys (ks : List Bytes)
  | pipes (signalled : List (Finset ι))
deriving DecidableEq

def Mtrie.step {ι : Type} [DecidableEq ι] (t : Mtrie ι) :
    MtrieCall ι → Option (MtrieAnswer ι × Mtrie ι)
  | .add key pipe => (t.add key pipe).map fun (first, t) => (.added first, t)
  | .rm key pipe => (t.rm key pipe).map fun (result, t) => (.removed result, t)
  | .rmPipe pipe callOnUniq => (t.rmPipe pipe callOnUniq).map fun (ks, t) => (.keys ks, t)
  | .matching data => (t.matching data).map fun signalled => (.pipes signalled, t)

end OfxZeroMQ
