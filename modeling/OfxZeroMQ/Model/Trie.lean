import OfxZeroMQ.Foundation.PrefixTree
import OfxZeroMQ.Foundation.Subscription
import OfxZeroMQ.Model.Message

/-!
# The subscriptions of a SUB socket

`zmq::trie_t` counts how often each prefix was subscribed. `xsub_t` keeps one, takes messages for
it, and passes on those that change something for the publishers.
-/
namespace OfxZeroMQ

open Foundation Foundation.PrefixTree

/-- `trie_t`: the value of a node is `_refcnt`. `_min`, `_count` and `_next` are its table, which
has one slot where `_next` is a node. An operation is `none` where it fails an assertion or uses a
node that is not there. -/
abbrev Trie := Node UInt32

namespace Trie

def empty : Trie := Node.fresh 0

def add (t : Trie) (key : Bytes) : Option (Bool × Trie) :=
  Node.add 0 (fun refcnt => (refcnt + 1 == 1, refcnt + 1))
    (fun count liveNodes => if count = 1 then liveNodes == 1 else 1 < liveNodes) t key

/-- The slot that is kept when a single one is left: the one at the other end of the table. -/
def single {α : Type} (next : RangeTable α) (c : Nat) : Option (Nat × α) :=
  let count := next.slots.length
  if c = next.min then next.slots[count - 1]?.join.map fun node => (next.min + (count - 1), node)
  else if c = next.min + count - 1 then next.slots[0]?.join.map fun node => (next.min, node)
  else none

def rm (t : Trie) (key : Bytes) : Option (Bool × Trie) :=
  Node.remove 0 (fun refcnt => if refcnt = 0 then (false, 0) else (refcnt - 1 == 0, refcnt - 1))
    false (RangeTable.prune single) t key

/-- The loop goes on in a single node without looking whether it is there. -/
def check : Trie → Bytes → Option Bool
  | t, [] => some (t.value != 0)
  | t, c :: data =>
    if t.value != 0 then some true
    else if !t.next.covers c.toNat then some false
    else if t.next.slots.length = 1 then
      (t.next.get c.toNat).bind fun node => check node data
    else match t.next.get c.toNat with
      | none => some false
      | some node => check node data

/-- The keys that `func_` is called with, in this order. -/
def apply (t : Trie) : Option (List Bytes) := (t.entries 0 []).map fun found => found.map Prod.fst

end Trie

/-! ### Calls -/

inductive TrieCall where
  | add (key : Bytes)
  | rm (key : Bytes)
  | check (data : Bytes)
  | apply

inductive TrieAnswer where
  | result (b : Bool)
  | keys (ks : List Bytes)
deriving DecidableEq

def Trie.step (t : Trie) : TrieCall → Option (TrieAnswer × Trie)
  | .add key => (t.add key).map fun (b, t) => (.result b, t)
  | .rm key => (t.rm key).map fun (b, t) => (.result b, t)
  | .check data => (t.check data).map fun b => (.result b, t)
  | .apply => t.apply.map fun ks => (.keys ks, t)

end OfxZeroMQ
