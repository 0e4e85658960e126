/-! Overload resolution: ranking of implicit conversions and the best viable function. -/
namespace Foundation.Overload

/-- Ranks of implicit conversion sequences, best first. -/
inductive Rank where
  | exact
  | promotion
  | conversion
  | userDefined
deriving DecidableEq

def Rank.level : Rank → Nat
  | .exact => 0
  | .promotion => 1
  | .conversion => 2
  | .userDefined => 3

/-- What a reference parameter adds to the ranking of its conversion. -/
structure Reference where
  -- an rvalue reference bound to an rvalue
  bindsRvalue : Bool
  addsConst : Bool
deriving DecidableEq

/-- An implicit conversion sequence; `reference` is `none` for a parameter passed by value. -/
structure Conversion where
  rank : Rank
  reference : Option Reference
deriving DecidableEq

def Reference.better (r q : Reference) : Bool :=
  (r.bindsRvalue && !q.bindsRvalue) ||
    (r.bindsRvalue == q.bindsRvalue && !r.addsConst && q.addsConst)

/-- Reference tie-breakers only compare two reference bindings of one rank. -/
def Conversion.better (c d : Conversion) : Bool :=
  decide (c.rank.level < d.rank.level) ||
    (c.rank == d.rank && match c.reference, d.reference with
      | some r, some q => r.better q
      | _, _ => false)

/-- A viable candidate: `template` is `none` for an ordinary function and the depth in
the partial ordering for a specialization of a template (deeper is more specialized). -/
structure Candidate (φ : Type) where
  function : φ
  template : Option Nat
  conversion : Conversion
deriving DecidableEq

variable {φ : Type}

def moreSpecialized : Option Nat → Option Nat → Bool
  | none, some _ => true
  | some m, some n => decide (n < m)
  | _, none => false

def Candidate.better (f g : Candidate φ) : Bool :=
  f.conversion.better g.conversion ||
    (!g.conversion.better f.conversion && moreSpecialized f.template g.template)

/-- The candidate that is better than every other one; `none` when the call is ambiguous
or nothing is viable. -/
def bestViable [DecidableEq φ] (cs : List (Candidate φ)) : Option (Candidate φ) :=
  cs.find? fun f => cs.all fun g => decide (g.function = f.function) || f.better g

theorem Reference.better_asymm (r q : Reference) (h : r.better q = true) :
    q.better r = false := by
  obtain ⟨a, b⟩ := r
  obtain ⟨c, d⟩ := q
  revert h
  cases a <;> cases b <;> cases c <;> cases d <;> simp [Reference.better]

theorem Conversion.better_asymm (c d : Conversion) (h : c.better d = true) :
    d.better c = false := by
  simp only [Conversion.better, Bool.or_eq_true, decide_eq_true_eq, Bool.and_eq_true,
    beq_iff_eq] at h
  rcases h with lower | ⟨same, tie⟩
  · have ranks : ¬ d.rank = c.rank := by
      intro equal
      rw [equal] at lower
      omega
    simp [Conversion.better, ranks]
    omega
  · have levels : ¬ d.rank.level < c.rank.level := by rw [same]; omega
    cases hc : c.reference with
    | none => simp [hc] at tie
    | some r =>
      cases hd : d.reference with
      | none => simp [hc, hd] at tie
      | some q =>
        simp only [hc, hd] at tie
        simp [Conversion.better, levels, hc, hd, Reference.better_asymm r q tie]

theorem moreSpecialized_asymm (m n : Option Nat) (h : moreSpecialized m n = true) :
    moreSpecialized n m = false := by
  cases m <;> cases n <;> simp_all [moreSpecialized]
  omega

/-- No two candidates are each better than the other, so the selected one is unique. -/
theorem Candidate.better_asymm (f g : Candidate φ) (h : f.better g = true) :
    g.better f = false := by
  simp only [Candidate.better, Bool.or_eq_true, Bool.and_eq_true, Bool.not_eq_true'] at h
  rcases h with first | ⟨notWorse, special⟩
  · simp [Candidate.better, first, Conversion.better_asymm _ _ first]
  · simp [Candidate.better, notWorse, moreSpecialized_asymm _ _ special]

/-- A candidate that is better than all others is the one the call selects. -/
theorem bestViable_eq_some [DecidableEq φ] (cs : List (Candidate φ)) (f : Candidate φ)
    (member : f ∈ cs) (distinct : ∀ g ∈ cs, g.function = f.function → g = f)
    (beats : ∀ g ∈ cs, g.function ≠ f.function → f.better g = true) :
    bestViable cs = some f := by
  have wins : (cs.all fun g => decide (g.function = f.function) || f.better g) = true := by
    simp only [List.all_eq_true, Bool.or_eq_true, decide_eq_true_eq]
    intro g hg
    by_cases same : g.function = f.function
    · exact Or.inl same
    · exact Or.inr (beats g hg same)
  have found : (bestViable cs).isSome = true :=
    List.find?_isSome.mpr ⟨f, member, wins⟩
  obtain ⟨g, hg⟩ := Option.isSome_iff_exists.mp found
  -- what `find?` returns beats every other candidate, `f` among them
  have memberG : g ∈ cs := List.mem_of_find?_eq_some hg
  have winsG := List.find?_some hg
  simp only [List.all_eq_true, Bool.or_eq_true, decide_eq_true_eq] at winsG
  by_cases same : g.function = f.function
  · rw [hg, distinct g memberG same]
  · have forward := beats g memberG same
    rcases winsG f member with equal | backward
    · exact absurd equal.symm same
    · rw [Candidate.better_asymm f g forward] at backward
      exact absurd backward Bool.false_ne_true

/-- The functions of `fs` the argument converts to the parameter of. -/
def viable (fs : List φ) (template : φ → Option Nat) (conversion : φ → Option Conversion) :
    List (Candidate φ) :=
  fs.filterMap fun f => (conversion f).map fun c => ⟨f, template f, c⟩

/-- Overload resolution among `fs` for one argument. -/
def select [DecidableEq φ] (fs : List φ) (template : φ → Option Nat)
    (conversion : φ → Option Conversion) : Option φ :=
  (bestViable (viable fs template conversion)).map Candidate.function

/-- What is selected is viable. -/
theorem conversion_of_select [DecidableEq φ] (fs : List φ) (template : φ → Option Nat)
    (conversion : φ → Option Conversion) (f : φ)
    (selected : select fs template conversion = some f) : (conversion f).isSome = true := by
  obtain ⟨g, best, rfl⟩ := Option.map_eq_some_iff.mp selected
  obtain ⟨h, _, found⟩ := List.mem_filterMap.mp (List.mem_of_find?_eq_some best)
  obtain ⟨c, converts, rfl⟩ := Option.map_eq_some_iff.mp found
  simp [converts]

theorem select_eq_some [DecidableEq φ] (fs : List φ) (template : φ → Option Nat)
    (conversion : φ → Option Conversion) (f : φ) (c : Conversion) (member : f ∈ fs)
    (converts : conversion f = some c)
    (beats : ∀ g d, g ≠ f → conversion g = some d →
      (Candidate.mk f (template f) c).better ⟨g, template g, d⟩ = true) :
    select fs template conversion = some f := by
  have best : bestViable (viable fs template conversion) = some ⟨f, template f, c⟩ := by
    apply bestViable_eq_some
    · exact List.mem_filterMap.mpr ⟨f, member, by simp [converts]⟩
    · intro g hg same
      obtain ⟨h, _, found⟩ := List.mem_filterMap.mp hg
      obtain ⟨d, hd, rfl⟩ := Option.map_eq_some_iff.mp found
      simp only at same
      subst same
      rw [converts, Option.some.injEq] at hd
      rw [hd]
    · intro g hg different
      obtain ⟨h, _, found⟩ := List.mem_filterMap.mp hg
      obtain ⟨d, hd, rfl⟩ := Option.map_eq_some_iff.mp found
      exact beats h d different hd
  rw [select, best, Option.map_some]

/-! ### Several arguments -/

/-- A viable candidate of a call with several arguments, with the conversion of each. -/
structure CallCandidate (φ : Type) where
  function : φ
  template : Option Nat
  conversions : List Conversion
deriving DecidableEq

/-- No argument is converted worse, and one is converted better or the function decides. -/
def CallCandidate.better (f g : CallCandidate φ) : Bool :=
  let arguments := f.conversions.zip g.conversions
  arguments.all (fun a => !a.2.better a.1) &&
    (arguments.any (fun a => a.1.better a.2) || moreSpecialized f.template g.template)

/-- Overload resolution among `fs` for several arguments. -/
def selectCall [DecidableEq φ] (fs : List φ) (template : φ → Option Nat)
    (conversions : φ → Option (List Conversion)) : Option φ :=
  let viable := fs.filterMap fun f => (conversions f).map fun cs => ⟨f, template f, cs⟩
  (viable.find? fun f : CallCandidate φ =>
    viable.all fun g => decide (g.function = f.function) || f.better g).map CallCandidate.function

end Foundation.Overload
