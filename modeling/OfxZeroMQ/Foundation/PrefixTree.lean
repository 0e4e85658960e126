import Mathlib.Data.Finset.Sort
import Mathlib.Data.List.Infix
import OfxZeroMQ.Foundation.RangeTable

/-!
# Prefix trees over bytes

Each node has a value and a table of the nodes below it. A node without a value and without nodes
below it is redundant: it is deleted, and the table gives up the slots it no longer needs.
-/
namespace Foundation.PrefixTree

universe u v

inductive Node (β : Type u) where
  | mk (value : β) (live : Nat) (next : RangeTable (Node β))

namespace Node

variable {β : Type u}

def value : Node β → β
  | mk value _ _ => value

/-- The number of nodes below, as the node counts them. -/
def live : Node β → Nat
  | mk _ live _ => live

def next : Node β → RangeTable (Node β)
  | mk _ _ next => next

@[simp] theorem value_mk (x : β) (live : Nat) (next : RangeTable (Node β)) :
    (mk x live next).value = x := rfl

@[simp] theorem live_mk (x : β) (live : Nat) (next : RangeTable (Node β)) :
    (mk x live next).live = live := rfl

@[simp] theorem next_mk (x : β) (live : Nat) (next : RangeTable (Node β)) :
    (mk x live next).next = next := rfl

def fresh (vacant : β) : Node β := ⟨vacant, 0, .empty⟩

variable (vacant : β)

/-- The value at the end of the path `key`. -/
def valueAt : Node β → List UInt8 → β
  | t, [] => t.value
  | t, c :: key =>
    match t.next.get c.toNat with
    | some child => valueAt child key
    | none => vacant

@[simp] theorem valueAt_nil (t : Node β) : valueAt vacant t [] = t.value := by
  rw [valueAt]

theorem valueAt_cons (t : Node β) (c : UInt8) (key : List UInt8) :
    valueAt vacant t (c :: key) =
      (t.next.get c.toNat).elim vacant fun child => valueAt vacant child key := by
  rw [valueAt]
  cases t.next.get c.toNat <;> rfl

theorem valueAt_fresh (key : List UInt8) : valueAt vacant (fresh vacant) key = vacant := by
  cases key with
  | nil => rfl
  | cons c key => simp [valueAt, fresh, RangeTable.get, RangeTable.empty]

/-- The values of a tree whose entry for one byte was changed. -/
theorem valueAt_update (t u : Node β) (c : UInt8) (child : Option (Node β)) (key : List UInt8)
    (x : β) (value : u.value = t.value)
    (next : ∀ j, u.next.get j = if j = c.toNat then child else t.next.get j)
    (below : ∀ q, child.elim vacant (fun child => valueAt vacant child q) =
      if q = key then x else valueAt vacant t (c :: q)) (q : List UInt8) :
    valueAt vacant u q = if q = c :: key then x else valueAt vacant t q := by
  cases q with
  | nil => simpa using value
  | cons d q =>
    rw [valueAt_cons, next]
    rcases eq_or_ne d c with rfl | differ
    · rw [if_pos rfl, below q]
      simp
    · have other : d.toNat ≠ c.toNat := fun same => differ (UInt8.toNat_inj.mp same)
      rw [if_neg other, if_neg (by simp [differ]), valueAt_cons]

variable [DecidableEq β]

def isRedundant (t : Node β) : Bool := decide (t.value = vacant) && t.live == 0

/-! ### Operations -/

section Operations

variable {ρ : Type v} (f : β → ρ × β)

/-- Apply `f` to the value at the end of the path, which is made where it is missing. `created`
is what the caller asserts of the slots of a table and of the number of nodes in it when it has
got a new one. -/
def add (created : Nat → Nat → Bool) : Node β → List UInt8 → Option (ρ × Node β)
  | t, [] => some ((f t.value).1, ⟨(f t.value).2, t.live, t.next⟩)
  | t, c :: key =>
    let next := t.next.cover c.toNat
    match next.get c.toNat with
    | some child =>
      (add created child key).map fun (r, child) =>
        (r, ⟨t.value, t.live, next.put c.toNat (some child)⟩)
    | none =>
      if created next.slots.length (t.live + 1) then
        (add created (fresh vacant) key).map fun (r, child) =>
          (r, ⟨t.value, t.live + 1, next.put c.toNat (some child)⟩)
      else none

/-- Apply `f` to the value at the end of the path, if there is such a node, and delete what the
path leaves redundant. `prune` takes a node out of a table. -/
def remove (miss : ρ)
    (prune : Nat → RangeTable (Node β) → Nat → Option (Nat × RangeTable (Node β))) :
    Node β → List UInt8 → Option (ρ × Node β)
  | t, [] => some ((f t.value).1, ⟨(f t.value).2, t.live, t.next⟩)
  | t, c :: key =>
    if !t.next.covers c.toNat then some (miss, t)
    else match t.next.get c.toNat with
    | none => some (miss, t)
    | some child =>
      (remove miss prune child key).bind fun (r, child) =>
        if child.isRedundant vacant then
          (prune t.live t.next c.toNat).map fun (live, next) => (r, ⟨t.value, live, next⟩)
        else some (r, ⟨t.value, t.live, t.next.put c.toNat (some child)⟩)

end Operations

mutual

/-- Every value in the tree with its path, which starts with `buff`. Where there is a single slot,
it is not looked at whether the slot is taken. -/
def entries (buff : List UInt8) : Node β → Option (List (List UInt8 × β))
  | ⟨value, _, ⟨min, slots⟩⟩ =>
    if slots.length = 1 ∧ slots[0]?.join.isNone then none
    else (entriesFrom buff min slots).map fun below =>
      (if value = vacant then [] else [(buff, value)]) ++ below

def entriesFrom (buff : List UInt8) (c : Nat) :
    List (Option (Node β)) → Option (List (List UInt8 × β))
  | [] => some []
  | none :: slots => entriesFrom buff (c + 1) slots
  | some child :: slots =>
    (entries (buff ++ [UInt8.ofNat c]) child).bind fun first =>
      (entriesFrom buff (c + 1) slots).map fun others => first ++ others

end

mutual

/-- Apply `g` to every value, list the paths where it says so, and delete what becomes redundant.
A single slot is not looked at, and is given up when its node is deleted. -/
def sweep (g : β → Bool × β) (buff : List UInt8) :
    Node β → Option (List (List UInt8) × Node β)
  | ⟨value, live, ⟨min, slots⟩⟩ =>
    let reported := if (g value).1 then [buff] else []
    if slots.length = 0 then some (reported, ⟨(g value).2, live, ⟨min, slots⟩⟩)
    else if slots.length = 1 ∧ slots[0]?.join.isNone then none
    else (sweepFrom g buff min live slots).bind fun (keys, live, slots) =>
      if slots.length = 1 then
        if slots[0]?.join.isSome then
          some (reported ++ keys, ⟨(g value).2, live, ⟨min, slots⟩⟩)
        else if live = 0 then some (reported ++ keys, ⟨(g value).2, live, ⟨min, []⟩⟩)
        else none
      else (RangeTable.compact live ⟨min, slots⟩).map fun next =>
        (reported ++ keys, ⟨(g value).2, live, next⟩)

def sweepFrom (g : β → Bool × β) (buff : List UInt8) (c live : Nat) :
    List (Option (Node β)) → Option (List (List UInt8) × Nat × List (Option (Node β)))
  | [] => some ([], live, [])
  | none :: slots => (sweepFrom g buff (c + 1) live slots).map fun (keys, live, slots) =>
      (keys, live, none :: slots)
  | some child :: slots =>
    (sweep g (buff ++ [UInt8.ofNat c]) child).bind fun (keys, child) =>
      if child.isRedundant vacant then
        if live = 0 then none
        else (sweepFrom g buff (c + 1) (live - 1) slots).map fun (others, live, slots) =>
          (keys ++ others, live, none :: slots)
      else (sweepFrom g buff (c + 1) live slots).map fun (others, live, slots) =>
        (keys ++ others, live, some child :: slots)

end

/-! ### Trees as the operations build them -/

inductive WF : Node β → Prop
  | mk (value : β) (live : Nat) (next : RangeTable (Node β)) (tight : next.Tight)
      (counted : live = next.live) (within : next.min + next.slots.length ≤ 256)
      (children : ∀ c child, next.get c = some child → WF child)
      (needed : ∀ c child, next.get c = some child → child.isRedundant vacant = false) :
      WF ⟨value, live, next⟩

section Lemmas

variable {vacant}

theorem WF.tight {t : Node β} (wf : WF vacant t) : t.next.Tight := by
  cases wf
  assumption

theorem WF.counted {t : Node β} (wf : WF vacant t) : t.live = t.next.live := by
  cases wf
  assumption

theorem WF.child {t child : Node β} (wf : WF vacant t) (c : Nat)
    (found : t.next.get c = some child) :
    WF vacant child ∧ child.isRedundant vacant = false := by
  cases wf with
  | mk _ _ _ _ _ _ children needed => exact ⟨children c child found, needed c child found⟩

theorem WF.fresh : WF vacant (fresh vacant) := by
  refine .mk vacant 0 .empty ?_ rfl (by simp [RangeTable.empty]) ?_ ?_
  · intro nonempty
    exact absurd rfl nonempty
  all_goals
    intro c child found
    simp [RangeTable.get, RangeTable.empty] at found

theorem isRedundant_iff (t : Node β) :
    t.isRedundant vacant = true ↔ t.value = vacant ∧ t.live = 0 := by
  simp [isRedundant]

/-- A redundant node has no value below it either. -/
theorem valueAt_of_redundant (t : Node β) (wf : WF vacant t)
    (redundant : t.isRedundant vacant = true) (key : List UInt8) :
    valueAt vacant t key = vacant := by
  obtain ⟨none_here, none_below⟩ := (isRedundant_iff t).mp redundant
  cases key with
  | nil => exact none_here
  | cons c key =>
    rw [wf.counted] at none_below
    rw [valueAt, RangeTable.get_of_live_zero _ none_below]

/-! ### Adding -/

/-- A node that is not redundant in the place of another one, or of none. -/
theorem insert_wf (t u : Node β) (wf : WF vacant t) (c : UInt8) (child : WF vacant u)
    (needed : u.isRedundant vacant = false) (live : Nat)
    (counted : live = t.live + if (t.next.get c.toNat).isSome then 0 else 1) :
    WF vacant ⟨t.value, live, t.next.insert c.toNat u⟩ := by
  cases wf with
  | mk value _ next tight before within children others =>
    refine .mk _ _ _ (next.tight_insert c.toNat u tight) ?_ ?_ ?_ ?_
    · rw [next_mk, next.live_insert, counted, ← before]
      rfl
    · exact next.insert_within c.toNat 256 u within c.toNat_lt
    all_goals
      intro d v found
      rw [RangeTable.get_insert] at found
      split at found
    · cases found
      exact child
    · exact children d v found
    · cases found
      exact needed
    · exact others d v found

theorem add_spec {ρ : Type v} (f : β → ρ × β) (created : Nat → Nat → Bool)
    (asserted : ∀ n l, 0 < l → (n = 1 ↔ l = 1) → created n l = true)
    (t : Node β) (wf : WF vacant t) (key : List UInt8)
    (some_value : (f (valueAt vacant t key)).2 ≠ vacant) :
    ∃ u, t.add vacant f created key = some ((f (valueAt vacant t key)).1, u) ∧ WF vacant u ∧
      u.isRedundant vacant = false ∧
      ∀ q, valueAt vacant u q =
        if q = key then (f (valueAt vacant t key)).2 else valueAt vacant t q := by
  induction key generalizing t with
  | nil =>
    obtain ⟨value, live, next⟩ := t
    refine ⟨⟨(f value).2, live, next⟩, rfl, ?_, ?_, ?_⟩
    · cases wf with
      | mk _ _ _ tight counted within children needed =>
        exact .mk _ _ _ tight counted within children needed
    · have here : (f value).2 ≠ vacant := some_value
      simp [isRedundant, here]
    · intro q
      cases q <;> simp [valueAt]
  | cons c key ih =>
    -- the node below, which is a fresh one if there was none
    let child := (t.next.get c.toNat).getD (fresh vacant)
    let live := t.live + if (t.next.get c.toNat).isSome then 0 else 1
    have below (q : List UInt8) : valueAt vacant child q = valueAt vacant t (c :: q) := by
      rw [valueAt_cons]
      cases found : t.next.get c.toNat with
      | none => simp [child, found, valueAt_fresh]
      | some _ => simp [child, found]
    have child_wf : WF vacant child := by
      cases found : t.next.get c.toNat with
      | none => simpa [child, found] using WF.fresh
      | some _ => simpa [child, found] using (wf.child c.toNat found).1
    obtain ⟨u, added, u_wf, needed, values⟩ := ih child child_wf (by rwa [below])
    rw [below] at added values
    have inserted := insert_wf t u wf c u_wf needed live rfl
    have taken : (t.next.insert c.toNat u).get c.toNat = some u := by simp [RangeTable.get_insert]
    have counted : live = (t.next.insert c.toNat u).live := inserted.counted
    have positive := RangeTable.live_pos _ c.toNat (taken ▸ Option.some_ne_none u)
    refine ⟨⟨t.value, live, t.next.insert c.toNat u⟩, ?_, inserted, ?_, ?_⟩
    · rw [add]
      simp only [RangeTable.get_cover]
      cases found : t.next.get c.toNat with
      | some _ =>
        simp only [child, found, Option.getD_some] at added
        simp [added, live, found, RangeTable.insert]
      | none =>
        have nonempty : (t.next.insert c.toNat u).slots ≠ [] := by
          intro empty
          simp [RangeTable.get, empty] at taken
        have size := RangeTable.length_eq_one_iff _ inserted.tight nonempty
        rw [next_mk, ← counted, RangeTable.length_insert] at size
        have fine := asserted _ live (by omega) size
        simp only [child, found, Option.getD_none] at added
        simp only [live, found, Option.isSome_none, Bool.false_eq_true, if_false] at fine ⊢
        simp [added, fine, RangeTable.insert]
    · simp only [isRedundant, live_mk, Bool.and_eq_false_iff, beq_eq_false_iff_ne]
      right
      omega
    · apply valueAt_update vacant t ⟨t.value, live, t.next.insert c.toNat u⟩ c (some u) key _ rfl
      · exact fun j => RangeTable.get_insert t.next c.toNat j u
      · intro q
        simpa [below] using values q

/-! ### Removing -/

theorem prune_wf (t : Node β) (wf : WF vacant t) (c live : Nat) (next : RangeTable (Node β))
    (tight : next.Tight) (counted : live = next.live)
    (gone : ∀ j, next.get j = if j = c then none else t.next.get j)
    (smaller : next.min + next.slots.length ≤ t.next.min + t.next.slots.length) :
    WF vacant ⟨t.value, live, next⟩ := by
  cases wf with
  | mk value _ _ _ _ within children needed =>
    refine .mk _ _ _ tight counted (Nat.le_trans smaller within) ?_ ?_
    all_goals
      intro d child found
      rw [gone] at found
      split at found
    · simp at found
    · exact children d child found
    · simp at found
    · exact needed d child found

theorem remove_spec {ρ : Type v} (f : β → ρ × β) (miss : ρ)
    (prune : Nat → RangeTable (Node β) → Nat → Option (Nat × RangeTable (Node β)))
    (prunes : RangeTable.Prunes prune) (nothing : f vacant = (miss, vacant))
    (t : Node β) (wf : WF vacant t) (key : List UInt8) :
    ∃ u, t.remove vacant f miss prune key = some ((f (valueAt vacant t key)).1, u) ∧
      WF vacant u ∧ ∀ q, valueAt vacant u q =
        if q = key then (f (valueAt vacant t key)).2 else valueAt vacant t q := by
  induction key generalizing t with
  | nil =>
    obtain ⟨value, live, next⟩ := t
    refine ⟨⟨(f value).2, live, next⟩, rfl, ?_, ?_⟩
    · cases wf with
      | mk _ _ _ tight counted within children needed =>
        exact .mk _ _ _ tight counted within children needed
    · intro q
      cases q <;> simp [valueAt]
  | cons c key ih =>
    rw [remove]
    cases found : t.next.get c.toNat with
    | none =>
      have missing : valueAt vacant t (c :: key) = vacant := by rw [valueAt_cons, found]; rfl
      refine ⟨t, ?_, wf, ?_⟩
      · rw [missing, nothing]
        split <;> rfl
      · intro q
        rw [missing, nothing]
        split
        · next same => rw [same, missing]
        · rfl
    | some child =>
      have covered := t.next.covers_of_get c.toNat (found ▸ Option.some_ne_none child)
      have below (q : List UInt8) : valueAt vacant t (c :: q) = valueAt vacant child q := by
        rw [valueAt_cons, found]
        rfl
      obtain ⟨u, removed, u_wf, values⟩ := ih child (wf.child c.toNat found).1
      rw [← below] at removed values
      simp only [covered, Bool.not_true, Bool.false_eq_true, if_false, removed,
        Option.bind_some]
      -- A child that is left without values is taken out of the table, which may shrink.
      by_cases redundant : u.isRedundant vacant = true
      · obtain ⟨next, pruned, tight, counted, gone, smaller⟩ :=
          prunes t.next c.toNat child wf.tight found
        rw [← wf.counted] at pruned counted
        refine ⟨⟨t.value, t.live - 1, next⟩, by simp [redundant, pruned],
          prune_wf t wf c.toNat _ next tight counted.symm gone smaller, ?_⟩
        apply valueAt_update vacant t ⟨t.value, t.live - 1, next⟩ c none key _ rfl gone
        intro q
        have empty := values q
        rw [valueAt_of_redundant u u_wf redundant] at empty
        rw [below q]
        exact empty
      · have same : t.next.put c.toNat (some u) = t.next.insert c.toNat u := by
          rw [RangeTable.insert, RangeTable.cover, if_pos covered]
        refine ⟨⟨t.value, t.live, t.next.insert c.toNat u⟩, by simp [redundant, same],
          insert_wf t u wf c u_wf (by simpa using redundant) t.live (by simp [found]), ?_⟩
        apply valueAt_update vacant t ⟨t.value, t.live, t.next.insert c.toNat u⟩ c (some u) key _
          rfl
        · exact fun j => RangeTable.get_insert t.next c.toNat j u
        · intro q
          rw [below q]
          exact values q

/-! ### Going through the tree -/

/-- The values at the beginnings of `data`, from the shortest to the longest. -/
def valuesAlong (vacant : β) (t : Node β) (data : List UInt8) : List β :=
  data.inits.map (valueAt vacant t)

omit [DecidableEq β] in
theorem valuesAlong_cons (t : Node β) (c : UInt8) (data : List UInt8) :
    valuesAlong vacant t (c :: data) = t.value :: (t.next.get c.toNat).elim
      (data.inits.map fun _ => vacant) fun child => valuesAlong vacant child data := by
  have tail : (data.inits.map fun q => valueAt vacant t (c :: q)) = (t.next.get c.toNat).elim
      (data.inits.map fun _ => vacant) fun child => valuesAlong vacant child data := by
    simp only [valueAt_cons]
    cases t.next.get c.toNat <;> rfl
  rw [valuesAlong, List.inits, List.map_cons, valueAt_nil, List.map_map, ← tail]
  rfl

/-- What `entries` lists for a node with the path `buff`. -/
structure Lists (vacant : β) (buff : List UInt8) (value : List UInt8 → β)
    (found : List (List UInt8 × β)) : Prop where
  mem : ∀ p v, (p, v) ∈ found ↔ v ≠ vacant ∧ ∃ q, p = buff ++ q ∧ value q = v
  sorted : (found.map Prod.fst).Pairwise (· < ·)

/-- The values below a node, reached through the slots for the bytes from `c` on. -/
def valueBelow (vacant : β) (c : Nat) (slots : List (Option (Node β))) : List UInt8 → β
  | [] => vacant
  | d :: q => ((⟨c, slots⟩ : RangeTable (Node β)).get d.toNat).elim vacant fun child =>
      valueAt vacant child q

omit [DecidableEq β] in
theorem valueBelow_of_lt (c : Nat) (slots : List (Option (Node β))) (d : UInt8)
    (q : List UInt8) (before : d.toNat < c) : valueBelow vacant c slots (d :: q) = vacant := by
  rw [valueBelow, RangeTable.get_of_lt _ _ before]
  rfl

omit [DecidableEq β] in
theorem valueBelow_cons (c : Nat) (slot : Option (Node β)) (slots : List (Option (Node β)))
    (d : UInt8) (q : List UInt8) : valueBelow vacant c (slot :: slots) (d :: q) =
      if d.toNat = c then slot.elim vacant fun child => valueAt vacant child q
      else valueBelow vacant (c + 1) slots (d :: q) := by
  rcases Nat.lt_trichotomy d.toNat c with before | rfl | after
  · rw [if_neg (by omega), valueBelow_of_lt c _ d q before,
      valueBelow_of_lt (c + 1) _ d q (by omega)]
  · rw [if_pos rfl, valueBelow, RangeTable.get_of_le _ _ (Nat.le_refl _), Nat.sub_self]
    rfl
  · rw [if_neg (by omega), valueBelow, valueBelow,
      RangeTable.get_of_le _ _ (show c ≤ d.toNat by omega),
      RangeTable.get_of_le _ _ (show c + 1 ≤ d.toNat by omega)]
    simp only
    rw [show d.toNat - c = d.toNat - (c + 1) + 1 by omega, List.getElem?_cons_succ]

omit [DecidableEq β] in
/-- A value that is found behind the first slot has a path that starts with a greater byte. -/
theorem exists_of_valueBelow_succ (c : Nat) (slots : List (Option (Node β))) (q : List UInt8)
    (found : valueBelow vacant (c + 1) slots q ≠ vacant) :
    ∃ d r, q = d :: r ∧ c < d.toNat := by
  cases q with
  | nil => exact absurd rfl found
  | cons d r =>
    refine ⟨d, r, rfl, ?_⟩
    by_contra before
    exact found (valueBelow_of_lt (c + 1) slots d r (by omega))

theorem entriesFrom_spec (buff : List UInt8) (slots : List (Option (Node β)))
    (each : ∀ child, some child ∈ slots → ∀ buff, ∃ found,
      entries vacant buff child = some found ∧
        Lists vacant buff (valueAt vacant child) found)
    (c : Nat) (within : c + slots.length ≤ 256) :
    ∃ found, entriesFrom vacant buff c slots = some found ∧
      Lists vacant buff (valueBelow vacant c slots) found := by
  induction slots generalizing c with
  | nil =>
    refine ⟨[], by rw [entriesFrom], ?_, by simp⟩
    intro p v
    simp only [List.not_mem_nil, false_iff, not_and, not_exists]
    intro some_value q _ same
    cases q with
    | nil => exact some_value same.symm
    | cons d q =>
      rw [valueBelow, RangeTable.get_of_not_covers _ _ (by simp [RangeTable.covers])] at same
      exact some_value same.symm
  | cons slot slots ih =>
    rw [List.length_cons] at within
    obtain ⟨others, listed, mem, sorted⟩ :=
      ih (fun child member => each child (List.mem_cons_of_mem slot member)) (c + 1) (by omega)
    -- Keys of the later slots start with a greater byte, so the first slot does not hide them.
    have later (q : List UInt8) (found : valueBelow vacant (c + 1) slots q ≠ vacant) :
        valueBelow vacant c (slot :: slots) q = valueBelow vacant (c + 1) slots q := by
      obtain ⟨d, r, rfl, after⟩ := exists_of_valueBelow_succ c slots q found
      rw [valueBelow_cons, if_neg (by omega)]
    cases slot with
    | none =>
      refine ⟨others, by rw [entriesFrom, listed], ?_, sorted⟩
      intro p v
      rw [mem]
      refine and_congr_right fun some_value => exists_congr fun q => and_congr_right fun _ => ?_
      constructor
      · rintro rfl
        exact later q some_value
      · intro here
        cases q with
        | nil => exact absurd here.symm some_value
        | cons d q =>
          rw [valueBelow_cons] at here
          split at here
          · exact absurd here.symm some_value
          · exact here
    | some child =>
      obtain ⟨first, here, first_mem, first_sorted⟩ :=
        each child (by simp) (buff ++ [UInt8.ofNat c])
      have byte : (UInt8.ofNat c).toNat = c := by
        rw [UInt8.toNat_ofNat']
        omega
      refine ⟨first ++ others, by simp [entriesFrom, here, listed], ?_, ?_⟩
      · intro p v
        rw [List.mem_append, first_mem, mem, ← and_or_left]
        refine and_congr_right fun some_value => ?_
        constructor
        · rintro (⟨q, rfl, same⟩ | ⟨q, rfl, rfl⟩)
          · refine ⟨UInt8.ofNat c :: q, by simp, ?_⟩
            rw [valueBelow_cons, if_pos byte]
            exact same
          · exact ⟨q, rfl, later q some_value⟩
        · rintro ⟨q, rfl, same⟩
          cases q with
          | nil => exact absurd same.symm some_value
          | cons d q =>
            rw [valueBelow_cons] at same
            split at same
            · next first_byte =>
              left
              have : d = UInt8.ofNat c := by rw [← first_byte, UInt8.ofNat_toNat]
              exact ⟨q, by simp [this], same⟩
            · exact Or.inr ⟨d :: q, rfl, same⟩
      · rw [List.map_append, List.pairwise_append]
        refine ⟨first_sorted, sorted, ?_⟩
        intro x left y right
        obtain ⟨⟨p, v⟩, member, rfl⟩ := List.mem_map.mp left
        obtain ⟨⟨r, w⟩, other, rfl⟩ := List.mem_map.mp right
        obtain ⟨_, q, rfl, _⟩ := (first_mem p v).mp member
        obtain ⟨some_value, q', rfl, same⟩ := (mem r w).mp other
        obtain ⟨d, q', rfl, after⟩ := exists_of_valueBelow_succ c slots q' (same ▸ some_value)
        rw [List.append_assoc]
        apply List.append_left_lt
        rw [List.singleton_append, List.cons_lt_cons_iff]
        left
        rw [UInt8.lt_iff_toNat_lt, byte]
        exact after

omit [DecidableEq β] in
theorem single_taken (min : Nat) (slots : List (Option (Node β)))
    (tight : (⟨min, slots⟩ : RangeTable (Node β)).Tight) :
    ¬ (slots.length = 1 ∧ slots[0]?.join.isNone) := by
  rintro ⟨one, free⟩
  have first := (tight fun empty => by simp [show slots = [] from empty] at one).1
  rw [RangeTable.get_of_le ⟨min, slots⟩ min (Nat.le_refl min), Nat.sub_self] at first
  exact first (Option.isNone_iff_eq_none.mp free)

/-- The entries of a tree are its values that are not vacant, in the order of their paths. -/
theorem entries_spec (t : Node β) (wf : WF vacant t) (buff : List UInt8) :
    ∃ found, entries vacant buff t = some found ∧
      Lists vacant buff (valueAt vacant t) found := by
  induction wf generalizing buff with
  | mk value live next tight counted within children needed ih =>
    obtain ⟨min, slots⟩ := next
    have each (child : Node β) (member : some child ∈ slots) (buff : List UInt8) :
        ∃ found, entries vacant buff child = some found ∧
          Lists vacant buff (valueAt vacant child) found := by
      obtain ⟨i, bound, there⟩ := List.mem_iff_getElem.mp member
      apply ih (min + i) child
      rw [RangeTable.get_add ⟨min, slots⟩ i]
      simp [bound, there]
    obtain ⟨others, listed, mem, sorted⟩ := entriesFrom_spec buff slots each min within
    have taken := single_taken min slots tight
    have deeper (q : List UInt8) (some_value : valueBelow vacant min slots q ≠ vacant) :
        valueAt vacant ⟨value, live, ⟨min, slots⟩⟩ q = valueBelow vacant min slots q := by
      cases q with
      | nil => exact absurd rfl some_value
      | cons d q => rw [valueAt_cons, valueBelow]; rfl
    refine ⟨(if value = vacant then [] else [(buff, value)]) ++ others,
      by rw [entries, if_neg taken, listed]; rfl, ?_, ?_⟩
    · intro p v
      rw [List.mem_append, mem]
      constructor
      · rintro (here | ⟨some_value, q, rfl, rfl⟩)
        · split at here
          · simp at here
          · next some_value =>
            obtain ⟨rfl, rfl⟩ := Prod.mk.inj (List.mem_singleton.mp here)
            exact ⟨some_value, [], by simp, rfl⟩
        · exact ⟨some_value, q, rfl, deeper q some_value⟩
      · rintro ⟨some_value, q, rfl, same⟩
        cases q with
        | nil =>
          have here : value = v := same
          subst here
          simp [some_value]
        | cons d q =>
          refine Or.inr ⟨some_value, d :: q, rfl, ?_⟩
          rw [← same, valueAt_cons, valueBelow]
          rfl
    · rw [List.map_append, List.pairwise_append]
      refine ⟨by split <;> simp, sorted, ?_⟩
      intro x here y right
      obtain ⟨⟨r, w⟩, other, rfl⟩ := List.mem_map.mp right
      obtain ⟨some_value, q, rfl, same⟩ := (mem r w).mp other
      have path : x = buff ++ [] := by
        split at here
        · simp at here
        · simpa using here
      rw [path]
      apply List.append_left_lt
      cases q with
      | nil => exact absurd same.symm some_value
      | cons d q => exact List.nil_lt_cons d q

/-! ### Sweeping -/

section Sweep

variable (g : β → Bool × β)

/-- What became of a slot. -/
structure Swept (vacant : β) (g : β → Bool × β) (old new : Option (Node β)) : Prop where
  values : ∀ q, new.elim vacant (fun child => valueAt vacant child q) =
    (g (old.elim vacant fun child => valueAt vacant child q)).2
  wf : ∀ child, new = some child → WF vacant child ∧ child.isRedundant vacant = false

/-- Sweeping `t` changes every value, lists the paths that `g` chooses, and leaves a tree as the
operations build them. -/
def Sweeps (vacant : β) (g : β → Bool × β) (t : Node β) : Prop :=
  ∃ u, WF vacant u ∧ (∀ q, valueAt vacant u q = (g (valueAt vacant t q)).2) ∧
    ∀ buff, ∃ found, entries vacant buff t = some found ∧
      sweep vacant g buff t = some ((found.filter fun x => (g x.2).1).map Prod.fst, u)

theorem sweepFrom_spec (nothing : g vacant = (false, vacant)) (slots : List (Option (Node β)))
    (each : ∀ child, some child ∈ slots → Sweeps vacant g child) :
    ∃ new : List (Option (Node β)), new.length = slots.length ∧
      (∀ i : Nat, Swept vacant g slots[i]?.join new[i]?.join) ∧
      ∀ buff c n, ∃ found, entriesFrom vacant buff c slots = some found ∧
        sweepFrom vacant g buff c (n + slots.countP Option.isSome) slots =
          some ((found.filter fun x => (g x.2).1).map Prod.fst,
            n + new.countP Option.isSome, new) := by
  have free : Swept vacant g none none := ⟨fun q => by simp [nothing], by simp⟩
  induction slots with
  | nil => exact ⟨[], rfl, fun i => by simpa using free, fun buff c n => ⟨[], rfl, rfl⟩⟩
  | cons slot slots ih =>
    obtain ⟨new, length, swept, rest⟩ := ih fun child member => each child (by simp [member])
    have extend (x : Option (Node β)) (first : Swept vacant g slot x) (i : Nat) :
        Swept vacant g (slot :: slots)[i]?.join (x :: new)[i]?.join := by
      cases i with
      | zero => simpa using first
      | succ i => simpa using swept i
    cases slot with
    | none =>
      refine ⟨none :: new, by simp [length], extend none free, fun buff c n => ?_⟩
      obtain ⟨found, listed, ran⟩ := rest buff (c + 1) n
      exact ⟨found, by simp [entriesFrom, listed], by simp [sweepFrom, ran]⟩
    | some child =>
      obtain ⟨u, u_wf, values, lists⟩ := each child (by simp)
      by_cases redundant : u.isRedundant vacant = true
      · refine ⟨none :: new, by simp [length], extend none ⟨fun q => ?_, by simp⟩,
          fun buff c n => ?_⟩
        · rw [Option.elim_none, Option.elim_some, ← values,
            valueAt_of_redundant u u_wf redundant]
        · obtain ⟨here, first, there⟩ := lists (buff ++ [UInt8.ofNat c])
          obtain ⟨found, listed, ran⟩ := rest buff (c + 1) n
          refine ⟨here ++ found, by simp [entriesFrom, first, listed], ?_⟩
          simp [sweepFrom, there, redundant, ran, ← Nat.add_assoc]
      · refine ⟨some u :: new, by simp [length],
          extend (some u) ⟨fun q => by simpa using values q, ?_⟩, fun buff c n => ?_⟩
        · rintro _ ⟨⟩
          exact ⟨u_wf, by simpa using redundant⟩
        · obtain ⟨here, first, there⟩ := lists (buff ++ [UInt8.ofNat c])
          obtain ⟨found, listed, ran⟩ := rest buff (c + 1) (n + 1)
          refine ⟨here ++ found, by simp [entriesFrom, first, listed], ?_⟩
          simp [sweepFrom, there, redundant, ran, ← Nat.add_assoc, Nat.add_right_comm]

/-- A node whose table has become that of the swept slots. -/
theorem node_swept (value : β) (live : Nat) (old new : RangeTable (Node β))
    (within : old.min + old.slots.length ≤ 256) (tight : new.Tight) (counted : live = new.live)
    (smaller : new.min + new.slots.length ≤ old.min + old.slots.length)
    (swept : ∀ j, Swept vacant g (old.get j) (new.get j)) :
    WF vacant ⟨(g value).2, live, new⟩ ∧
      ∀ n q, valueAt vacant ⟨(g value).2, live, new⟩ q =
        (g (valueAt vacant ⟨value, n, old⟩ q)).2 := by
  constructor
  · exact .mk _ _ _ tight counted (Nat.le_trans smaller within)
      (fun d child found => ((swept d).wf child found).1)
      fun d child found => ((swept d).wf child found).2
  · intro n q
    cases q with
    | nil => rfl
    | cons d q =>
      rw [valueAt_cons, valueAt_cons]
      exact (swept d.toNat).values q

theorem sweep_spec (nothing : g vacant = (false, vacant)) (t : Node β) (wf : WF vacant t) :
    Sweeps vacant g t := by
  induction wf with
  | mk value live next tight counted within children needed ih =>
    obtain ⟨min, slots⟩ := next
    have each (child : Node β) (member : some child ∈ slots) : Sweeps vacant g child := by
      obtain ⟨i, bound, there⟩ := List.mem_iff_getElem.mp member
      apply ih (min + i) child
      rw [RangeTable.get_add ⟨min, slots⟩ i]
      simp [bound, there]
    obtain ⟨new, length, swept, ran⟩ := sweepFrom_spec g nothing slots each
    have slot (j : Nat) : Swept vacant g ((⟨min, slots⟩ : RangeTable (Node β)).get j)
        ((⟨min, new⟩ : RangeTable (Node β)).get j) := by
      rcases Nat.lt_or_ge j min with before | after
      · rw [RangeTable.get_of_lt _ j before, RangeTable.get_of_lt _ j before]
        exact ⟨fun q => by simp [nothing], by simp⟩
      · rw [RangeTable.get_of_le _ j after, RangeTable.get_of_le _ j after]
        exact swept (j - min)
    have taken := single_taken min slots tight
    -- what is left is the table that the branches end with
    suffices table : ∃ left : RangeTable (Node β), left.Tight ∧
        (⟨min, new⟩ : RangeTable (Node β)).Shrinks left ∧
        ∀ buff keys, (sweepFrom vacant g buff min live slots = some (keys, left.live, new)) →
          sweep vacant g buff ⟨value, live, ⟨min, slots⟩⟩ =
            some ((if (g value).1 then [buff] else []) ++ keys,
              ⟨(g value).2, left.live, left⟩) by
      obtain ⟨left, left_tight, shrinks, ended⟩ := table
      obtain ⟨left_wf, values⟩ := node_swept g value left.live ⟨min, slots⟩ left within left_tight
        rfl (length ▸ shrinks.within) fun j => shrinks.get j ▸ slot j
      refine ⟨_, left_wf, values live, fun buff => ?_⟩
      obtain ⟨found, listed, here⟩ := ran buff min 0
      rw [Nat.zero_add, Nat.zero_add] at here
      refine ⟨(if value = vacant then [] else [(buff, value)]) ++ found,
        by rw [entries, if_neg taken, listed]; rfl, ?_⟩
      rw [ended buff _ (by rw [counted, shrinks.live]; exact here)]
      by_cases same : value = vacant
      · simp [same, nothing]
      · cases chosen : (g value).1 with
        | true => simp [same, chosen]
        | false => simp [same, chosen]
    by_cases none_there : slots.length = 0
    · obtain rfl := List.length_eq_zero_iff.mp none_there
      obtain rfl := List.length_eq_zero_iff.mp (length.trans none_there)
      refine ⟨⟨min, []⟩, tight, ⟨fun j => rfl, rfl, Nat.le_refl _⟩, fun buff keys here => ?_⟩
      have no_keys : keys = [] := by
        rw [sweepFrom] at here
        simp only [Option.some.injEq, Prod.mk.injEq] at here
        exact here.1.symm
      simp [sweep, no_keys, counted]
    · by_cases one : slots.length = 1
      · obtain ⟨x, rfl⟩ := List.length_eq_one_iff.mp (length.trans one)
        cases x with
        | none =>
          refine ⟨⟨min, []⟩, fun nonempty => absurd rfl nonempty, ⟨fun j => ?_, rfl, by simp⟩,
            fun buff keys here => ?_⟩
          · rw [RangeTable.get_of_not_covers _ j (by simp [RangeTable.covers])]
            exact (RangeTable.get_of_live_zero _ rfl j).symm
          · rw [sweep, if_neg none_there, if_neg taken, here]
            rfl
        | some child =>
          refine ⟨⟨min, [some child]⟩, fun _ => by simp [RangeTable.get],
            ⟨fun j => rfl, rfl, Nat.le_refl _⟩, fun buff keys here => ?_⟩
          rw [sweep, if_neg none_there, if_neg taken, here]
          rfl
      · obtain ⟨left, compacted, left_tight, shrinks⟩ :=
          RangeTable.compact_spec (⟨min, new⟩ : RangeTable (Node β)) (by simp only; omega)
        refine ⟨left, left_tight, shrinks, fun buff keys here => ?_⟩
        rw [← shrinks.live] at compacted
        simp [sweep, none_there, one, here, length, compacted]

end Sweep

end Lemmas

end Node

/-! ### Paths in order -/

theorem path_isTrans : IsTrans (List UInt8) (· ≤ ·) := inferInstance
theorem path_antisymm : Std.Antisymm fun p q : List UInt8 => p ≤ q := inferInstance
theorem path_total : Std.Total fun p q : List UInt8 => p ≤ q := inferInstance

/-- The paths of a set in the order in which a tree is gone through. -/
def inOrder (set : Finset (List UInt8)) : List (List UInt8) :=
  @Finset.sort _ set (· ≤ ·) _ path_isTrans path_antisymm path_total

@[simp] theorem mem_inOrder (set : Finset (List UInt8)) (p : List UInt8) :
    p ∈ inOrder set ↔ p ∈ set := Finset.mem_sort _

theorem nodup_inOrder (set : Finset (List UInt8)) : (inOrder set).Nodup :=
  Finset.sort_nodup _ _

@[simp] theorem toFinset_inOrder (set : Finset (List UInt8)) : (inOrder set).toFinset = set :=
  Finset.sort_toFinset _ _

theorem eq_inOrder (paths : List (List UInt8)) (sorted : paths.Pairwise (· < ·))
    (set : Finset (List UInt8)) (mem : ∀ p, p ∈ paths ↔ p ∈ set) : paths = inOrder set := by
  have different : paths.Nodup := by
    refine List.Pairwise.imp ?_ sorted
    rintro p _ less rfl
    exact List.lt_irrefl p less
  have same : paths.Perm (inOrder set) := by
    rw [List.perm_ext_iff_of_nodup different (nodup_inOrder set)]
    intro p
    rw [mem, mem_inOrder]
  exact same.eq_of_pairwise' (sorted.imp List.le_of_lt) (Finset.pairwise_sort _ _)

end Foundation.PrefixTree
