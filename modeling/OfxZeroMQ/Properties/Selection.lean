import OfxZeroMQ.Model.Dispatch

/-!
# Overload selection

Which constructor of `Message` and which overload of `to_zmq_message` a type selects, and
the encoder that an encoding call ends in.
-/
namespace OfxZeroMQ

open Foundation.Overload

/-- Whether an overload of `to_zmq_message` other than the one for standard-layout types
takes the type, or a base class of it, by reference. -/
def CppType.hasOverload : CppType → Bool
  | .string | .vector _ | .ofRectangle | .ofBuffer | .ofPixels _ | .hasPixels _ | .zmqMessage
  | .message => true
  | .userClass k => k.adl.isSome
  | _ => false

/-- Whether a conversion function of the type competes with the conversion to `Message`. -/
def CppType.isAmbiguous : CppType → Bool
  | .ofJson _ _ => true
  | .userClass k => k.toString
  | _ => false

/-- Only `std::size_t` itself converts to `std::size_t` as an exact match. -/
theorem CppType.toSize_ne (t : CppType) (notSizeT : t ≠ .sizeT) : t.toSize ≠ some .exact := by
  cases t with
  | sizeT => exact absurd rfl notSizeT
  | fixed f => exact f.notSizeT
  | ofJson k _ | userClass k => exact k.notSizeT
  | _ => simp [CppType.toSize]

/-! ### Rankings that decide the selections -/

theorem Conversion.better_of_level (c d : Conversion) (lower : c.rank.level < d.rank.level) :
    c.better d = true := by
  simp [Conversion.better, lower]

theorem Rank.level_pos (r : Rank) (inexact : r ≠ .exact) : 0 < r.level := by
  cases r <;> simp [Rank.level] at inexact ⊢

/-- The forwarding reference loses to `const X &` only on a const lvalue. -/
theorem Category.forwardingRef_better (c : Category) (notConst : c ≠ .constLvalue) :
    c.forwardingRef.better (c.constRef .exact) = true := by
  cases c with
  | constLvalue => exact absurd rfl notConst
  | lvalue | rvalue | constRvalue => rfl

/-! ### Constructors -/

namespace MessageCtor

/-- Unless one of the inherited constructors matches as well, the forwarding template is
selected: whatever else converts needs a conversion or adds `const`. -/
theorem selected_forward (direct : Bool) (t : CppType) (c : Category)
    (notSize : direct = true → t.toSize ≠ some .exact)
    (notRange : direct = true → t.isRange = true → c ≠ .constLvalue)
    (notZmqMessage : t ≠ .zmqMessage) (notMessage : t ≠ .message) :
    selected direct t c = some .forward := by
  refine select_eq_some all template _ .forward c.forwardingRef (by decide) rfl ?_
  intro g d different converts
  -- the conversions decide, before it matters that this one is a template
  have beats : c.forwardingRef.better d = true → (Candidate.mk forward (template forward)
      c.forwardingRef).better ⟨g, template g, d⟩ = true := fun h => by
    simp [Candidate.better, h]
  apply beats
  cases g with
  | forward => exact absurd rfl different
  | size =>
    cases direct with
    | false => simp [isExplicit] at converts
    | true =>
      simp only [isExplicit, Bool.not_true, Bool.and_false, Bool.false_eq_true, if_false,
        conversion, Option.map_eq_some_iff] at converts
      obtain ⟨r, rank, rfl⟩ := converts
      have inexact : r ≠ .exact := fun h => notSize rfl (h ▸ rank)
      exact Conversion.better_of_level _ _ (Rank.level_pos r inexact)
  | range =>
    cases direct with
    | false => simp [isExplicit] at converts
    | true =>
      simp only [isExplicit, Bool.not_true, Bool.and_false, Bool.false_eq_true, if_false,
        conversion, Option.ite_none_right_eq_some, Option.some.injEq] at converts
      obtain ⟨range, rfl⟩ := converts
      exact Category.forwardingRef_better c (notRange rfl range)
  | base | baseRvalue | move | copy => cases t <;> simp_all [isExplicit, conversion]

/-- A const lvalue that is a range binds to `const Range &` as well as to the forwarding
reference, and the more specialized template is selected. -/
theorem selected_range (t : CppType) (range : t.isRange = true)
    (notSize : t.toSize ≠ some .exact) : selected true t .constLvalue = some .range := by
  refine select_eq_some all template _ .range (Category.constLvalue.constRef .exact) (by decide)
    (by simp [isExplicit, conversion, range]) ?_
  intro g d different converts
  cases g with
  | range => exact absurd rfl different
  | size =>
    simp only [isExplicit, Bool.not_true, Bool.and_false, Bool.false_eq_true, if_false,
      conversion, Option.map_eq_some_iff] at converts
    obtain ⟨r, rank, rfl⟩ := converts
    have inexact : r ≠ .exact := fun h => notSize (h ▸ rank)
    have better := Conversion.better_of_level (Category.constLvalue.constRef .exact) (byValue r)
      (Rank.level_pos r inexact)
    simp [Candidate.better, better]
  | forward =>
    simp only [isExplicit, Bool.false_and, Bool.false_eq_true, if_false, conversion,
      Option.some.injEq] at converts
    subst converts
    rfl
  | base | baseRvalue | move | copy =>
    cases t <;> simp_all [isExplicit, conversion, CppType.isRange]

theorem selected_size (c : Category) : selected true .sizeT c = some .size := by
  cases c <;> rfl

end MessageCtor

/-! ### Overloads -/

namespace ToOverload

theorem selected_standardLayout (t : CppType) (c : Category) (standard : t.isStandardLayout = true)
    (noOverload : t.hasOverload = false) : selected t c = some .standardLayout := by
  refine select_eq_some all template _ .standardLayout (c.constRef .exact) (by decide)
    (by simp [conversion, standard]) ?_
  intro g d different converts
  -- every other overload takes the type through a conversion function, if at all
  have conversionRank : g ≠ .standardLayout → d = c.constRef .userDefined := by
    intro _
    cases g with
    | standardLayout => exact absurd rfl different
    | _ => cases t <;> simp_all [conversion, CppType.hasOverload]
  rw [conversionRank different]
  cases c <;> rfl

theorem selected_message (t : CppType) (c : Category) (notStandard : t.isStandardLayout = false)
    (noOverload : t.hasOverload = false) (unambiguous : t.isAmbiguous = false) :
    selected t c = some .message := by
  refine select_eq_some all template _ .message (c.constRef .userDefined) (by decide) ?_ ?_
  · cases t <;> simp_all [conversion, CppType.isStandardLayout]
  · intro g d different converts
    cases g with
    | message => exact absurd rfl different
    | _ =>
      cases t <;> simp_all [conversion, CppType.hasOverload, CppType.isStandardLayout,
        CppType.isAmbiguous]

theorem selected_adl (k : ClassType) (c : Category) (adl : k.adl.isSome = true) :
    selected (.userClass k) c = some .adl := by
  refine select_eq_some all template _ .adl (c.constRef .exact) (by decide)
    ?_ ?_
  · obtain ⟨conv, found⟩ := Option.isSome_iff_exists.mp adl
    simp [conversion, found]
  · intro g d different converts
    cases g with
    | adl => exact absurd rfl different
    | standardLayout =>
      simp only [conversion, Option.ite_none_right_eq_some, Option.some.injEq] at converts
      rw [← converts.2]
      cases c <;> rfl
    | message =>
      simp only [conversion, Option.some.injEq] at converts
      rw [← converts]
      cases c <;> rfl
    | string =>
      simp only [conversion, Option.ite_none_right_eq_some, Option.some.injEq] at converts
      rw [← converts.2]
      cases c <;> rfl
    | _ => simp [conversion] at converts

/-- The conversion to a string and the one to a message are of one rank, so that a class with
both is taken by neither overload. -/
theorem selected_ambiguous (t : CppType) (c : Category) (notStandard : t.isStandardLayout = false)
    (noOverload : t.hasOverload = false) (ambiguous : t.isAmbiguous = true) :
    selected t c = none := by
  have candidates : viable all template (conversion t c) =
      [⟨.message, none, c.constRef .userDefined⟩, ⟨.string, none, c.constRef .userDefined⟩] := by
    cases t with
    | ofJson k text =>
      have standard : conversion (.ofJson k text) c .standardLayout = none := by
        simp [conversion, notStandard]
      simp only [viable, all, List.filterMap_cons, standard]
      rfl
    | userClass k =>
      have standard : conversion (.userClass k) c .standardLayout = none := by
        simp [conversion, notStandard]
      have string : conversion (.userClass k) c .string = some (c.constRef .userDefined) :=
        if_pos ambiguous
      have adl : conversion (.userClass k) c .adl = none := by
        simpa [conversion, CppType.hasOverload] using noOverload
      simp only [viable, all, List.filterMap_cons, standard, string, adl]
      rfl
    | _ => exact absurd ambiguous (by simp [CppType.isAmbiguous])
  rw [selected, select, candidates]
  cases c <;> rfl

end ToOverload

/-! ### The frame an overload makes -/

/-- An overload takes the type by reference, so that no call goes on from there. -/
def CppType.isEncodable (t : CppType) : Bool := t.isStandardLayout || t.hasOverload

/-- The frame that the selected overload makes of a value. -/
def CppType.encoding : (t : CppType) → t.Val → Bytes
  | .string, v => v
  | .vector _, v => (v.map Object.bytes).flatten
  | .ofRectangle, v => v.x.bytes ++ v.y.bytes ++ v.z.bytes ++ v.width.bytes ++ v.height.bytes
  | .ofBuffer, v => v
  | .ofPixels _, v | .hasPixels _, v =>
    (uint32 v.width).bytes ++ (uint32 v.height).bytes ++ v.format.bytes ++ v.samples
  | .zmqMessage, v => v
  | .message, v => v
  | .userClass k, v => match k.adl with
    | some c => c.toZmqMessage v
    | none => (k.representation v).bytes
  | t, v => (t.representation v).getD []

/-- The overload that an encodable type selects, and the frame it makes. -/
theorem ToOverload.exists_selected (mem : Memory) (t : CppType) (v : t.Val) (c : Category)
    (encodable : t.isEncodable = true) (notMoved : t = .zmqMessage → c ≠ .rvalue) :
    ∃ f m, selected t c = some f ∧ (f = .message → t = .message) ∧ f ≠ .zmqMessageRvalue ∧
      f.result mem t v = some m ∧ m.data = t.encoding v := by
  cases t with
  | sizeT | fixed _ | sendFlag | receiveFlag | pointer | array _ _ =>
    exact ⟨.standardLayout, _, selected_standardLayout _ c rfl rfl, by simp, by simp, rfl, rfl⟩
  | string => exact ⟨.string, _, by cases c <;> rfl, by simp, by simp, rfl, rfl⟩
  | vector e => exact ⟨.vector, _, by cases c <;> rfl, by simp, by simp, rfl, rfl⟩
  | ofRectangle =>
    exact ⟨.ofRectangle, _, by cases c <;> rfl, by simp, by simp, rfl,
      ToZmqMessage.ofRectangle_data mem .empty v⟩
  | ofBuffer => exact ⟨.ofBuffer, _, by cases c <;> rfl, by simp, by simp, rfl, rfl⟩
  | ofPixels p =>
    exact ⟨.ofPixels, _, by cases c <;> rfl, by simp, by simp, rfl,
      ToZmqMessage.ofPixels_data mem .empty v⟩
  | hasPixels p =>
    exact ⟨.hasPixels, _, by cases c <;> rfl, by simp, by simp, rfl,
      ToZmqMessage.ofPixels_data mem .empty v⟩
  | ofJson k text =>
    have standard : (CppType.ofJson k text).isStandardLayout = true := by
      simpa [CppType.isEncodable, CppType.hasOverload] using encodable
    exact ⟨.standardLayout, _, selected_standardLayout _ c standard rfl, by simp, by simp, rfl, rfl⟩
  | zmqMessage =>
    refine ⟨.zmqMessage, _, ?_, by simp, by simp, rfl, ToZmqMessage.zmqMessage_data mem .empty v⟩
    cases c with
    | rvalue => exact absurd rfl (notMoved rfl)
    | lvalue | constLvalue | constRvalue => rfl
  | message =>
    exact ⟨.message, _, by cases c <;> rfl, by simp, by simp, rfl,
      ToZmqMessage.message_data mem .empty v⟩
  | multipart => exact absurd encodable (by decide)
  | userClass k =>
    cases adl : k.adl with
    | some conv =>
      exact ⟨.adl, ⟨conv.toZmqMessage v⟩, selected_adl k c (by simp [adl]), by simp, by simp,
        by simp [ToOverload.result, adl], by simp [CppType.encoding, adl]⟩
    | none =>
      have noOverload : (CppType.userClass k).hasOverload = false := by
        simp [CppType.hasOverload, adl]
      have standard : (CppType.userClass k).isStandardLayout = true := by
        simpa [CppType.isEncodable, noOverload] using encodable
      exact ⟨.standardLayout, _, selected_standardLayout _ c standard noOverload, by simp,
        by simp, rfl, by simp [CppType.encoding, adl, ToZmqMessage.standardLayout]⟩

/-! ### Chains of calls -/

namespace Call

open Foundation.Chain

theorem resolve_eq_some_iff (t : Convertible) (c : Category) (call : Call) (r : Resolution) :
    resolve t c call = some r ↔ Ends (next t c) call r :=
  run_card_eq_some_iff (next t c) call r

section Ends

variable (t : Convertible) (c : Category)

/-- The function object ends in the overload it selects, unless that overload calls on. -/
theorem ends_function (f : ToOverload) (selected : ToOverload.selected t.type c = some f)
    (notMessage : f = .message → t.type = .message) (notRvalue : f ≠ .zmqMessageRvalue) :
    Ends (next t c) .function (.encoder (.overload f)) := by
  apply Ends.of_inl
  rw [next, selected]
  cases f with
  | message => simp [ofOverload, notMessage rfl]
  | zmqMessageRvalue => exact absurd rfl notRvalue
  | _ => rfl

/-- Without a specialization, and for every argument but an rvalue, `Message::from` ends in
the function object. -/
theorem ends_fromValue (r : Resolution) (unspecialized : t.adlConverter = none ∨ c ≠ .rvalue)
    (function : Ends (next t c) .function r) : Ends (next t c) .fromValue r := by
  refine Ends.of_inr (t := .converter) rfl (Ends.of_inr (t := .function) ?_ function)
  rcases unspecialized with none | notRvalue
  · simp [next, none]
  · cases c with
    | rvalue => exact absurd rfl notRvalue
    | lvalue | constLvalue | constRvalue => rfl

theorem ends_assign (r : Resolution) (notCopied : t.type = .message → c ≠ .constLvalue)
    (fromValue : Ends (next t c) .fromValue r) : Ends (next t c) .assign r := by
  refine Ends.of_inr (t := .fromValue) ?_ fromValue
  rw [next]
  exact notCopied

theorem ends_construct (r : Resolution)
    (selected : MessageCtor.selected true t.type c = some .forward)
    (fromValue : Ends (next t c) .fromValue r) : Ends (next t c) .construct r :=
  Ends.of_inr (t := .fromValue) (by rw [next, selected]; rfl) fromValue

/-- A constructor that is not the forwarding template fills the frame itself. -/
theorem ends_construct_ctor (f : MessageCtor)
    (selected : MessageCtor.selected true t.type c = some f) (notForward : f ≠ .forward)
    (notCopy : f ≠ .copy) : Ends (next t c) .construct (.encoder (.ctor f)) := by
  apply Ends.of_inl
  rw [next, selected]
  cases f with
  | forward => exact absurd rfl notForward
  | copy => exact absurd rfl notCopy
  | _ => rfl

end Ends

end Call

/-- What an encoding call leaves, from the encoder it ends in. -/
theorem encode_eq_ok (mem : Memory) (a : Argument) (call : Call) (e : Encoder) (m : Message)
    (ends : Foundation.Chain.Ends (Call.next a.type a.category) call (.encoder e))
    (result : e.result mem a.type a.value = some m) : encode mem a call = .ok m.data := by
  simp only [encode, (Call.resolve_eq_some_iff _ _ _ _).mpr ends, result]

theorem encode_function (mem : Memory) (t : Convertible) (c : Category) (v : t.type.Val)
    (encodable : t.type.isEncodable = true) (notMoved : t.type = .zmqMessage → c ≠ .rvalue) :
    encode mem ⟨t, c, v⟩ .function = .ok (t.type.encoding v) := by
  obtain ⟨f, m, selected, notMessage, notRvalue, result, data⟩ :=
    ToOverload.exists_selected mem t.type v c encodable notMoved
  rw [← data]
  exact encode_eq_ok mem ⟨t, c, v⟩ .function (.overload f) m
    (Call.ends_function t c f selected notMessage notRvalue) result

end OfxZeroMQ
