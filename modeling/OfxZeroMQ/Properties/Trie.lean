import OfxZeroMQ.Foundation.Refinement
import OfxZeroMQ.Model.Trie

/-!
# A trie is a multiset of prefixes

No assertion of `trie_t` fails and no missing node is used, whatever keys are added and removed,
and its answers are those of the multiset of the keys.
-/
namespace OfxZeroMQ

open Foundation Foundation.PrefixTree Foundation.Refinement

namespace Trie

/-! ### Deleting a node -/

theorem single_findsOther {α : Type} :
    RangeTable.FindsOther (single : RangeTable α → Nat → Option (Nat × α)) := by
  intro t c tight taken two
  have inside := t.covers_of_get c taken
  obtain ⟨low, high⟩ := (t.covers_iff c).mp inside
  have nonempty : t.slots ≠ [] := List.length_pos_iff.mp (by omega)
  obtain ⟨first, last⟩ := tight nonempty
  have gone (j : Nat) := t.get_put c j none inside
  have size := t.length_eq_one_iff tight nonempty
  have slot (i : Nat) : (t.put c none).slots[i]?.join = (t.put c none).get (t.min + i) :=
    ((t.put c none).get_add i).symm
  have one : (t.put c none).live = 1 := by
    have both := t.live_put c none inside
    rw [if_pos (Option.isSome_iff_ne_none.mpr taken), two] at both
    simpa using both
  simp only [single, slot, RangeTable.length_put, RangeTable.min_put]
  by_cases at_min : c = t.min
  · obtain ⟨x, found⟩ := Option.ne_none_iff_exists'.mp last
    have kept : (t.put c none).get (t.min + (t.slots.length - 1)) = some x := by
      rw [gone, if_neg (by omega), ← Nat.add_sub_assoc (by omega), found]
    rw [if_pos at_min, kept]
    exact ⟨_, x, rfl, kept⟩
  · obtain ⟨x, found⟩ := Option.ne_none_iff_exists'.mp first
    have kept : (t.put c none).get (t.min + 0) = some x := by
      rw [gone, Nat.add_zero, if_neg (Ne.symm at_min), found]
    have at_max : c = t.min + t.slots.length - 1 := by
      by_contra inner
      have both := (t.put c none).eq_of_live_one t.min (t.min + t.slots.length - 1) one
        (by rw [gone, if_neg (Ne.symm at_min)]; exact first)
        (by rw [gone, if_neg (Ne.symm inner)]; exact last)
      omega
    rw [if_neg at_min, if_pos at_max, kept]
    exact ⟨t.min, x, rfl, kept⟩

/-! ### The multiset of a trie -/

/-- The counters are the multiplicities. -/
structure Represents (t : Trie) (s : Subscription.Counts UInt8) : Prop where
  wf : t.WF 0
  count : ∀ key, (t.valueAt 0 key).toNat = s.count key

theorem empty_represents : empty.Represents 0 := by
  refine ⟨Node.WF.fresh, fun key => ?_⟩
  rw [empty, Node.valueAt_fresh]
  rfl

theorem add_represents (t : Trie) (s : Subscription.Counts UInt8) (represents : t.Represents s)
    (key : Bytes) (room : s.count key + 1 < UInt32.size) :
    ∃ u, t.add key = some (decide (s.count key = 0), u) ∧
      u.Represents (Subscription.add s key) := by
  have same := represents.count key
  have counted : (t.valueAt 0 key + 1).toNat = s.count key + 1 := by
    rw [UInt32.toNat_add, same]
    exact Nat.mod_eq_of_lt room
  obtain ⟨u, added, wf, -, values⟩ := Node.add_spec
    (fun refcnt : UInt32 => (refcnt + 1 == 1, refcnt + 1))
    (fun count liveNodes => if count = 1 then liveNodes == 1 else 1 < liveNodes)
    (by
      intro n l positive single
      by_cases one : n = 1
      · simp [one, single.mp one]
      · simp only [one, if_false, decide_eq_true_eq]
        omega)
    t represents.wf key (fun zero => by
      have : (t.valueAt 0 key + 1).toNat = 0 := congrArg UInt32.toNat zero
      omega)
  refine ⟨u, ?_, wf, ?_⟩
  · rw [add, added]
    simp only [Option.some.injEq, Prod.mk.injEq, and_true]
    rw [Bool.eq_iff_iff, beq_iff_eq, decide_eq_true_iff, ← UInt32.toNat_inj, counted]
    simp
  · intro q
    rw [values]
    split
    · next equal =>
      subst equal
      rw [counted, Subscription.add, Multiset.count_cons_self]
    · next differ => rw [represents.count, Subscription.add, Multiset.count_cons_of_ne differ]

theorem rm_refcnt (refcnt : UInt32) :
    ∃ left, (if refcnt = 0 then (false, 0) else (refcnt - 1 == 0, refcnt - 1)) =
      (decide (refcnt.toNat = 1), left) ∧ left.toNat = refcnt.toNat - 1 := by
  by_cases zero : refcnt = 0
  · subst zero
    exact ⟨0, rfl, rfl⟩
  · have positive : refcnt.toNat ≠ 0 := fun none => zero (UInt32.toNat_inj.mp none)
    have counted : (refcnt - 1).toNat = refcnt.toNat - 1 :=
      UInt32.toNat_sub_of_le refcnt 1 (UInt32.le_iff_toNat_le.mpr (Nat.pos_of_ne_zero positive))
    refine ⟨refcnt - 1, ?_, counted⟩
    rw [if_neg zero, Prod.mk.injEq, Bool.eq_iff_iff, beq_iff_eq, decide_eq_true_iff,
      ← UInt32.toNat_inj, counted, UInt32.toNat_zero]
    exact ⟨by omega, rfl⟩

theorem rm_represents (t : Trie) (s : Subscription.Counts UInt8) (represents : t.Represents s)
    (key : Bytes) : ∃ u, t.rm key = some (decide (s.count key = 1), u) ∧
      u.Represents (Subscription.rm s key) := by
  obtain ⟨u, removed, wf, values⟩ := Node.remove_spec
    (fun refcnt : UInt32 => if refcnt = 0 then (false, 0) else (refcnt - 1 == 0, refcnt - 1)) false
    (RangeTable.prune single) (RangeTable.prune_prunes single single_findsOther) rfl
    t represents.wf key
  obtain ⟨left, changed, counted⟩ := rm_refcnt (t.valueAt 0 key)
  simp only [changed] at removed values
  rw [represents.count] at removed counted
  refine ⟨u, removed, wf, fun q => ?_⟩
  rw [values, Subscription.count_rm]
  split
  · next same => rw [same, counted]
  · exact represents.count q

/-! ### Matching -/

/-- Some node on the way along the data has a counter. -/
theorem check_eq (t : Trie) (wf : t.WF 0) (data : Bytes) :
    t.check data = some ((t.valuesAlong 0 data).any fun refcnt => refcnt != 0) := by
  induction data generalizing t with
  | nil => simp [check, Node.valuesAlong]
  | cons c data ih =>
    rw [check, Node.valuesAlong_cons, List.any_cons]
    cases here : t.value != 0 with
    | true => simp
    | false =>
      cases found : t.next.get c.toNat with
      | none =>
        have tight := wf.tight
        by_cases covered : t.next.covers c.toNat = true
        · -- a single slot is not free
          obtain ⟨low, high⟩ := (t.next.covers_iff c.toNat).mp covered
          have more : t.next.slots.length ≠ 1 := by
            intro one
            have first := (tight (List.length_pos_iff.mp (by omega))).1
            rw [show t.next.min = c.toNat by omega] at first
            exact first found
          simp [covered, more]
        · simp [covered]
      | some child =>
        have covered := t.next.covers_of_get c.toNat (found ▸ Option.some_ne_none child)
        have below := ih child (wf.child c.toNat found).1
        simp [covered, below]

theorem check_represents (t : Trie) (s : Subscription.Counts UInt8) (represents : t.Represents s)
    (data : Bytes) : t.check data = some (Subscription.check s data) := by
  rw [check_eq t represents.wf, Option.some.injEq, Bool.eq_iff_iff, Subscription.check_iff]
  simp only [Node.valuesAlong, List.any_map, List.any_eq_true, Function.comp, bne_iff_ne,
    List.mem_inits, Subscription.mem_active, ← represents.count]
  refine exists_congr fun p => ?_
  rw [and_comm, Nat.pos_iff_ne_zero, ne_eq, ne_eq, ← UInt32.toNat_inj, UInt32.toNat_zero]

theorem apply_represents (t : Trie) (s : Subscription.Counts UInt8) (represents : t.Represents s) :
    t.apply = some (inOrder (Subscription.active s)) := by
  obtain ⟨found, listed, mem, sorted⟩ := Node.entries_spec t represents.wf []
  rw [apply, listed, Option.map_some, Option.some.injEq]
  apply eq_inOrder _ sorted
  intro p
  rw [List.mem_map, Subscription.mem_active, ← represents.count]
  constructor
  · rintro ⟨⟨q, v⟩, member, rfl⟩
    obtain ⟨positive, r, rfl, rfl⟩ := (mem q v).mp member
    exact Nat.pos_of_ne_zero fun zero => positive (UInt32.toNat_inj.mp zero)
  · intro positive
    refine ⟨(p, t.valueAt 0 p), (mem _ _).mpr ⟨?_, p, rfl, rfl⟩, rfl⟩
    intro zero
    rw [zero] at positive
    exact Nat.lt_irrefl 0 positive

/-! ### Runs -/

/-- What a multiset of keys answers. -/
def answer (s : Subscription.Counts UInt8) :
    TrieCall → TrieAnswer × Subscription.Counts UInt8
  | .add key => (.result (decide (s.count key = 0)), Subscription.add s key)
  | .rm key => (.result (decide (s.count key = 1)), Subscription.rm s key)
  | .check data => (.result (Subscription.check s data), s)
  | .apply => (.keys (inOrder (Subscription.active s)), s)

/-- The counters have room for `n` more keys. -/
def Room (n : Nat) (t : Trie) (s : Subscription.Counts UInt8) : Prop :=
  t.Represents s ∧ ∀ key, s.count key + n < UInt32.size

theorem step_implements : Implements step answer Room := by
  rintro n t s call ⟨represents, room⟩
  have less (key : Bytes) : s.count key + n < UInt32.size := by
    have := room key
    omega
  cases call with
  | add key =>
    obtain ⟨u, added, kept⟩ := t.add_represents s represents key (by have := room key; omega)
    refine ⟨u, by simp [step, added, answer], kept, fun q => ?_⟩
    have := room q
    have most : (Subscription.add s key).count q ≤ s.count q + 1 := by
      rw [Subscription.add, Multiset.count_cons]
      split <;> omega
    simp only [answer]
    omega
  | rm key =>
    obtain ⟨u, removed, kept⟩ := t.rm_represents s represents key
    refine ⟨u, by simp [step, removed, answer], kept, fun q => ?_⟩
    have := less q
    simp only [answer, Subscription.count_rm]
    split <;> omega
  | check data =>
    refine ⟨t, ?_, represents, less⟩
    rw [step, t.check_represents s represents data]
    rfl
  | apply =>
    refine ⟨t, ?_, represents, less⟩
    rw [step, t.apply_represents s represents]
    rfl

end Trie

/-- In every run of fewer than `2 ^ 32` calls no assertion of `trie_t` fails and no node that is
not there is used, and every call answers what the multiset of the keys answers: whether a key is
new, whether its last copy was removed, whether some key starts the data, and which keys there are,
in order. -/
theorem trie_answers (calls : List TrieCall) (short : calls.length < UInt32.size) :
    ∃ t, answers Trie.step Trie.empty calls = some ((expected Trie.answer 0 calls).1, t) ∧
      t.Represents (expected Trie.answer 0 calls).2 := by
  obtain ⟨t, answered, represents, -⟩ := answers_eq Trie.step Trie.answer Trie.Room
    Trie.step_implements 0 Trie.empty 0 calls ⟨Trie.empty_represents, fun key => by simpa⟩
  exact ⟨t, answered, represents⟩

theorem trie_answers_twice :
    ∃ t, answers Trie.step Trie.empty
      [.add [7], .add [7], .add [7, 8], .rm [7], .check [7], .rm [7], .check [7, 9]] =
      some ([.result true, .result false, .result true, .result false, .result true, .result true,
        .result false], t) := by
  obtain ⟨t, answered, -⟩ := trie_answers
    [.add [7], .add [7], .add [7, 8], .rm [7], .check [7], .rm [7], .check [7, 9]] (by decide)
  exact ⟨t, answered⟩

end OfxZeroMQ
