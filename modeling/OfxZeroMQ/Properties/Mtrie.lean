import OfxZeroMQ.Foundation.Interest
import OfxZeroMQ.Foundation.Refinement
import OfxZeroMQ.Model.Mtrie

/-!
# A multi-trie is a table of pipes and prefixes

Whatever is added and removed, prefix by prefix or pipe by pipe, no assertion of `generic_mtrie_t`
fails, and it answers as the set of the pairs does.
-/
namespace OfxZeroMQ

open Foundation Foundation.PrefixTree Foundation.Refinement

namespace Mtrie

variable {ι : Type} [DecidableEq ι]

theorem single_findsOther {α : Type} :
    RangeTable.FindsOther (single : RangeTable α → Nat → Option (Nat × α)) := by
  intro t c tight taken two
  have inside := t.covers_of_get c taken
  have one : (t.put c none).live = 1 := by
    have both := t.live_put c none inside
    rw [if_pos (Option.isSome_iff_ne_none.mpr taken), two] at both
    simpa using both
  obtain ⟨k, left⟩ : ∃ k, (t.put c none).get k ≠ none := by
    by_contra free
    have empty := (t.put c none).live_eq_zero fun k =>
      not_not.mp fun some_slot => free ⟨k, some_slot⟩
    omega
  have low := ((t.put c none).covers_iff k).mp ((t.put c none).covers_of_get k left)
  rw [RangeTable.get_of_le _ k low.1] at left
  obtain ⟨i, found⟩ := RangeTable.firstFrom_of_taken (t.put c none).slots 0 _ (Nat.zero_le _)
    (Option.isSome_iff_ne_none.mpr left)
  obtain ⟨-, there, -⟩ := RangeTable.firstFrom_eq_some _ 0 i found
  obtain ⟨x, here⟩ := Option.isSome_iff_exists.mp there
  refine ⟨(t.put c none).min + i, x, ?_, by rw [RangeTable.get_add, here]⟩
  rw [single, found, Option.bind_some, here, Option.map_some]

/-- `_pipes` of a node with these pipes. -/
def pipesOf (pipes : Finset ι) : Option (Finset ι) := if pipes = ∅ then none else some pipes

theorem pipesOf_empty : pipesOf (∅ : Finset ι) = none := rfl

/-- The set at a node holds the pipes that asked for its prefix, and is deleted when it is empty. -/
structure Represents (t : Mtrie ι) (s : Interest.Table ι UInt8) : Prop where
  wf : t.WF none
  pipes : ∀ key, t.valueAt none key = pipesOf (Interest.holders s key)

theorem empty_represents : (empty : Mtrie ι).Represents ∅ := by
  refine ⟨Node.WF.fresh, fun key => ?_⟩
  rw [empty, Node.valueAt_fresh]
  rfl

theorem add_represents (t : Mtrie ι) (s : Interest.Table ι UInt8) (represents : t.Represents s)
    (key : Bytes) (pipe : ι) :
    ∃ u, t.add key pipe = some (decide (Interest.holders s key = ∅), u) ∧
      u.Represents (insert (pipe, key) s) := by
  obtain ⟨u, added, wf, -, values⟩ := Node.add_spec
    (fun pipes : Option (Finset ι) => (pipes.isNone, some (insert pipe (pipes.getD ∅))))
    (fun _ _ => true) (fun _ _ _ _ => rfl) t represents.wf key (Option.some_ne_none _)
  have before := represents.pipes key
  refine ⟨u, ?_, wf, fun q => ?_⟩
  · rw [add, added, before, pipesOf]
    split <;> simp [*]
  · rw [values, Interest.holders_insert]
    split
    · next same =>
      subst same
      rw [before, pipesOf, pipesOf, if_neg (Finset.insert_ne_empty _ _)]
      split <;> simp [*]
    · exact represents.pipes q

/-- What the removal of a subscription reports. -/
def removal (s : Interest.Table ι UInt8) (pipe : ι) (key : Bytes) : RmResult :=
  if (pipe, key) ∈ s then
    if Interest.holders s key = {pipe} then .lastValueRemoved else .valuesRemain
  else .notFound

/-- The assertion holds for every set that a node can have. -/
theorem erase_pipesOf (s : Interest.Table ι UInt8) (pipe : ι) (key : Bytes) :
    erase pipe (pipesOf (Interest.holders s key)) =
      (some (removal s pipe key), pipesOf ((Interest.holders s key).erase pipe)) := by
  by_cases nobody : Interest.holders s key = ∅
  · have missing : (pipe, key) ∉ s := by
      rw [← Interest.mem_holders, nobody]
      exact Finset.notMem_empty pipe
    rw [nobody, Finset.erase_empty, pipesOf_empty, erase, removal, if_neg missing]
  · rw [pipesOf, if_neg nobody, erase, removal, pipesOf]
    by_cases member : (pipe, key) ∈ s
    · have holder := (Interest.mem_holders s key pipe).mpr member
      have last : (Interest.holders s key).erase pipe = ∅ ↔ Interest.holders s key = {pipe} := by
        rw [Finset.erase_eq_empty_iff]
        exact or_iff_right nobody
      simp only [holder, member, if_true, decide_true, last]
      split <;> rfl
    · have other := mt (Interest.mem_holders s key pipe).mp member
      simp [other, member, Finset.erase_eq_of_notMem, nobody]

theorem rm_represents (t : Mtrie ι) (s : Interest.Table ι UInt8) (represents : t.Represents s)
    (key : Bytes) (pipe : ι) :
    ∃ u, t.rm key pipe = some (removal s pipe key, u) ∧ u.Represents (s.erase (pipe, key)) := by
  obtain ⟨u, removed, wf, values⟩ := Node.remove_spec (erase pipe) (some RmResult.notFound)
    (RangeTable.prune single) (RangeTable.prune_prunes single single_findsOther) rfl
    t represents.wf key
  simp only [represents.pipes, erase_pipesOf] at removed values
  refine ⟨u, by rw [rm, removed]; rfl, wf, fun q => ?_⟩
  rw [values, Interest.holders_erase]
  split
  · next same => rw [same]
  · rfl

/-- The prefixes that `func_` is called with when a pipe is removed. -/
def dropped (s : Interest.Table ι UInt8) (pipe : ι) (callOnUniq : Bool) : Finset Bytes :=
  (Interest.held s pipe).filter fun key =>
    callOnUniq = true → Interest.holders s key = {pipe}

theorem leave_pipesOf (pipes : Finset ι) (pipe : ι) (callOnUniq : Bool) :
    leave pipe callOnUniq (pipesOf pipes) =
      (decide (pipe ∈ pipes ∧ (callOnUniq = true → pipes = {pipe})),
        pipesOf (pipes.erase pipe)) := by
  by_cases nobody : pipes = ∅
  · subst nobody
    simp [pipesOf, leave]
  · rw [pipesOf, if_neg nobody, leave, pipesOf]
    by_cases holder : pipe ∈ pipes
    · have last : pipes.erase pipe = ∅ ↔ pipes = {pipe} := by
        rw [Finset.erase_eq_empty_iff]
        exact or_iff_right nobody
      simp only [holder, if_true, last, true_and]
      cases callOnUniq <;> simp
    · simp [holder, Finset.erase_eq_of_notMem, nobody]

theorem rmPipe_represents (t : Mtrie ι) (s : Interest.Table ι UInt8)
    (represents : t.Represents s) (pipe : ι) (callOnUniq : Bool) :
    ∃ u, t.rmPipe pipe callOnUniq =
        some (inOrder (dropped s pipe callOnUniq), u) ∧
      u.Represents (Interest.leave s pipe) := by
  obtain ⟨u, wf, values, lists⟩ :=
    Node.sweep_spec (leave pipe callOnUniq) rfl t represents.wf
  obtain ⟨found, listed, swept⟩ := lists []
  obtain ⟨_, same, mem, sorted⟩ := Node.entries_spec t represents.wf []
  rw [listed, Option.some.injEq] at same
  subst same
  refine ⟨u, ?_, wf, fun q => ?_⟩
  · rw [rmPipe, swept, Option.some.injEq, Prod.mk.injEq, and_iff_left rfl]
    apply eq_inOrder
    · exact sorted.sublist (List.filter_sublist.map Prod.fst)
    · intro p
      rw [dropped, Finset.mem_filter, Interest.mem_held, ← Interest.mem_holders, List.mem_map]
      constructor
      · rintro ⟨⟨q, v⟩, member, rfl⟩
        obtain ⟨present, called⟩ := List.mem_filter.mp member
        obtain ⟨-, r, rfl, rfl⟩ := (mem q v).mp present
        simp only [represents.pipes, leave_pipesOf, decide_eq_true_eq] at called
        exact called
      · intro called
        refine ⟨(p, t.valueAt none p), List.mem_filter.mpr ⟨(mem _ _).mpr ⟨?_, p, rfl, rfl⟩, ?_⟩,
          rfl⟩
        · rw [represents.pipes, pipesOf, if_neg (Finset.ne_empty_of_mem called.1)]
          exact Option.some_ne_none _
        · simp only [represents.pipes, leave_pipesOf, decide_eq_true_eq]
          exact called
  · rw [values, represents.pipes, leave_pipesOf, Interest.holders_leave]

/-! ### Matching -/

/-- The sets on the way along the data, as far as there are nodes. -/
theorem matching_eq (t : Mtrie ι) (wf : t.WF none) (data : Bytes) :
    t.matching data = some ((t.valuesAlong none data).filterMap id) := by
  induction data generalizing t with
  | nil =>
    rw [matching]
    cases here : t.value <;> simp [Node.valuesAlong, here]
  | cons c data ih =>
    have head : ((t.valuesAlong none (c :: data)).filterMap id) = t.value.toList ++
        ((t.next.get c.toNat).elim [] fun child =>
          (child.valuesAlong none data).filterMap id) := by
      rw [Node.valuesAlong_cons]
      cases t.next.get c.toNat <;> cases t.value <;> simp
    rw [matching, head]
    cases found : t.next.get c.toNat with
    | none =>
      by_cases single : t.next.slots.length = 1
      · have other : c.toNat ≠ t.next.min := by
          intro same
          have first := (wf.tight (List.length_pos_iff.mp (by omega))).1
          rw [← same] at first
          exact first found
        simp [single, other]
      · simp [single]
    | some child =>
      have covered := t.next.covers_of_get c.toNat (found ▸ Option.some_ne_none child)
      obtain ⟨low, high⟩ := (t.next.covers_iff c.toNat).mp covered
      have below := ih child (wf.child c.toNat found).1
      by_cases single : t.next.slots.length = 1
      · have first : c.toNat = t.next.min := by omega
        rw [if_neg (by omega), if_pos single, if_neg (not_not.mpr first), Option.bind_some, below]
        rfl
      · simp [single, show t.next.slots.length ≠ 0 by omega, covered, below]

theorem filterMap_pipesOf (sets : List (Finset ι)) :
    (sets.map pipesOf).filterMap id = sets.filter fun pipes => pipes ≠ ∅ := by
  induction sets with
  | nil => rfl
  | cons pipes sets ih =>
    rw [List.map_cons, List.filterMap_cons, List.filter_cons, ih]
    by_cases nobody : pipes = ∅ <;> simp [pipesOf, nobody]

theorem matching_represents (t : Mtrie ι) (s : Interest.Table ι UInt8)
    (represents : t.Represents s) (data : Bytes) :
    t.matching data =
      some ((data.inits.map (Interest.holders s)).filter fun pipes => pipes ≠ ∅) := by
  have along : t.valuesAlong none data = (data.inits.map (Interest.holders s)).map pipesOf := by
    rw [Node.valuesAlong, List.map_map]
    exact List.map_congr_left fun key _ => represents.pipes key
  rw [matching_eq t represents.wf, along, filterMap_pipesOf]

/-- The pipes that are signalled are those of the subscribers that want the data. -/
theorem mem_signalled_iff (s : Interest.Table ι UInt8) (data : Bytes) (pipe : ι) :
    (∃ pipes ∈ (data.inits.map (Interest.holders s)).filter fun pipes => pipes ≠ ∅,
      pipe ∈ pipes) ↔ pipe ∈ Interest.interested s data := by
  rw [Interest.mem_interested_iff]
  constructor
  · rintro ⟨pipes, member, here⟩
    obtain ⟨key, part, rfl⟩ := List.mem_map.mp (List.mem_of_mem_filter member)
    exact ⟨key, part, here⟩
  · rintro ⟨key, part, here⟩
    refine ⟨_, List.mem_filter.mpr ⟨List.mem_map_of_mem part, ?_⟩, here⟩
    exact decide_eq_true (Finset.ne_empty_of_mem here)

/-! ### Runs -/

/-- What a table of pipes and prefixes answers. -/
def answer (s : Interest.Table ι UInt8) :
    MtrieCall ι → MtrieAnswer ι × Interest.Table ι UInt8
  | .add key pipe =>
    (.added (decide (Interest.holders s key = ∅)), insert (pipe, key) s)
  | .rm key pipe => (.removed (removal s pipe key), s.erase (pipe, key))
  | .rmPipe pipe callOnUniq =>
    (.keys (inOrder (dropped s pipe callOnUniq)), Interest.leave s pipe)
  | .matching data =>
    (.pipes ((data.inits.map (Interest.holders s)).filter fun pipes => pipes ≠ ∅), s)

theorem step_implements :
    Implements step answer fun _ (t : Mtrie ι) s => t.Represents s := by
  intro n t s call represents
  cases call with
  | add key pipe =>
    obtain ⟨u, added, kept⟩ := t.add_represents s represents key pipe
    exact ⟨u, by simp [step, added, answer], kept⟩
  | rm key pipe =>
    obtain ⟨u, removed, kept⟩ := t.rm_represents s represents key pipe
    exact ⟨u, by simp [step, removed, answer], kept⟩
  | rmPipe pipe callOnUniq =>
    obtain ⟨u, removed, kept⟩ := t.rmPipe_represents s represents pipe callOnUniq
    exact ⟨u, by rw [step, removed]; rfl, kept⟩
  | matching data =>
    exact ⟨t, by rw [step, t.matching_represents s represents data]; rfl, represents⟩

end Mtrie

/-- In every run no assertion of `generic_mtrie_t` fails and no node that is not there is used, and
every call answers what the set of the pairs of a pipe and a prefix answers: whether a prefix is
new, what a removal has left, the prefixes a pipe leaves behind, in order, and the pipes that data
is for, along the prefixes of the data. -/
theorem mtrie_answers {ι : Type} [DecidableEq ι] (calls : List (MtrieCall ι)) :
    ∃ t, answers Mtrie.step Mtrie.empty calls = some ((expected Mtrie.answer ∅ calls).1, t) ∧
      t.Represents (expected Mtrie.answer ∅ calls).2 :=
  answers_eq Mtrie.step Mtrie.answer (fun _ t s => t.Represents s) Mtrie.step_implements 0
    Mtrie.empty ∅ calls Mtrie.empty_represents

end OfxZeroMQ
