import OfxZeroMQ.Properties.Encoding

/-!
# Specializations of `adl_converter`

Decoding names the plain type and always finds the specialization. Encoding finds it for
rvalues that are not const only, and only on the ways that pass through `Message::from`.
-/
namespace OfxZeroMQ

open Foundation.Chain (Ends)

namespace ToOverload

/-- The arguments whose overload calls on: a message that is moved from is assigned, and what no
other overload takes is converted to a `Message` first. -/
theorem selected_calls_on_iff (t : CppType) (c : Category) :
    (selected t c = some .zmqMessageRvalue ∨ selected t c = some .message ∧ t ≠ .message) ↔
      t = .zmqMessage ∧ c = .rvalue ∨ t.isStandardLayout = false ∧ t.hasOverload = false ∧
        t.isAmbiguous = false := by
  cases t with
  | sizeT | fixed _ | sendFlag | receiveFlag | pointer | array _ _ =>
    rw [selected_standardLayout _ _ rfl rfl]
    simp [CppType.isStandardLayout]
  | string =>
    have own : selected .string c = some .string := by cases c <;> rfl
    simp [own, CppType.isStandardLayout]
  | vector e =>
    have own : selected (.vector e) c = some .vector := by cases c <;> rfl
    simp [own, CppType.isStandardLayout]
  | ofRectangle =>
    have own : selected .ofRectangle c = some .ofRectangle := by cases c <;> rfl
    simp [own, CppType.hasOverload]
  | ofBuffer =>
    have own : selected .ofBuffer c = some .ofBuffer := by cases c <;> rfl
    simp [own, CppType.hasOverload]
  | ofPixels p =>
    have own : selected (.ofPixels p) c = some .ofPixels := by cases c <;> rfl
    simp [own, CppType.hasOverload]
  | hasPixels p =>
    have own : selected (.hasPixels p) c = some .hasPixels := by cases c <;> rfl
    simp [own, CppType.hasOverload]
  | ofJson k text =>
    -- The deduction for `ofJson` fails, so what is left depends on how the type is made.
    cases standard : k.standardLayout with
    | true =>
      rw [selected_standardLayout (.ofJson k text) _ standard rfl]
      simp [CppType.isStandardLayout, standard]
    | false =>
      rw [selected_ambiguous (.ofJson k text) _ standard rfl rfl]
      simp [CppType.isAmbiguous]
  | zmqMessage =>
    cases c with
    | rvalue =>
      have moved : selected .zmqMessage .rvalue = some .zmqMessageRvalue := rfl
      simp [moved]
    | lvalue | constLvalue | constRvalue =>
      have own (c : Category) (notRvalue : c ≠ .rvalue) :
          selected .zmqMessage c = some .zmqMessage := by
        cases c with
        | rvalue => exact absurd rfl notRvalue
        | lvalue | constLvalue | constRvalue => rfl
      simp [own, CppType.isStandardLayout]
  | message =>
    have own : selected .message c = some .message := by cases c <;> rfl
    simp [own, CppType.hasOverload]
  | multipart =>
    have own : selected .multipart c = some .message := by cases c <;> rfl
    simp [own, CppType.isStandardLayout, CppType.hasOverload, CppType.isAmbiguous]
  | userClass k =>
    cases adl : k.adl.isSome with
    | true => simp [selected_adl k c adl, CppType.hasOverload, adl]
    | false =>
      have noOverload : (CppType.userClass k).hasOverload = false := adl
      cases standard : k.standardLayout with
      | true =>
        rw [selected_standardLayout (.userClass k) _ standard noOverload]
        simp [CppType.isStandardLayout, standard]
      | false =>
        cases ambiguous : k.toString with
        | true =>
          rw [selected_ambiguous (.userClass k) _ standard noOverload ambiguous]
          simp [CppType.isAmbiguous, ambiguous]
        | false =>
          rw [selected_message (.userClass k) _ standard noOverload ambiguous]
          simp [CppType.isStandardLayout, CppType.isAmbiguous, standard, noOverload, ambiguous]

end ToOverload

/-! ### Where the specialization is reached -/

namespace Call

/-- An lvalue deduces a reference type and a const rvalue a const one, which no specialization
is written for. -/
theorem resolve_ne_user (t : Convertible) (c : Category) (call : Call) (notRvalue : c ≠ .rvalue) :
    resolve t c call ≠ some (.encoder .user) := by
  intro resolved
  refine Foundation.Chain.result_of_run (next t c) (· ≠ .encoder .user) ?_ _ call _ resolved rfl
  rintro s r finished rfl
  cases s with
  | construct | convert =>
    simp only [next, ofCtor] at finished
    split at finished <;> simp at finished
  | fromValue => simp [next] at finished
  | assign =>
    simp only [next] at finished
    split at finished <;> simp at finished
  | converter =>
    cases c with
    | rvalue => exact absurd rfl notRvalue
    | lvalue | constLvalue | constRvalue => simp [next] at finished
  | function =>
    simp only [next, ofOverload] at finished
    split at finished <;> try split at finished
    all_goals simp at finished

section Specialized

variable (t : Convertible) (conv : Converter t.type.Val)
  (specialized : t.adlConverter = some conv)

include specialized

theorem ends_user : Ends (next t .rvalue) .fromValue (.encoder .user) :=
  Ends.of_inr (t := .converter) rfl (Ends.of_inl (by simp [next, specialized]))

/-- `Message{v}` reaches the specialization unless a constructor for the type itself fills
the message. -/
theorem construct_user_iff : Ends (next t .rvalue) .construct (.encoder .user) ↔
    t.type ≠ .sizeT ∧ t.type ≠ .zmqMessage ∧ t.type ≠ .message := by
  have filled (f : MessageCtor) (selected : MessageCtor.selected true t.type .rvalue = some f)
      (notForward : f ≠ .forward) (notCopy : f ≠ .copy) :
      ¬ Ends (next t .rvalue) .construct (.encoder .user) := fun user => by
    have ctor := ends_construct_ctor t .rvalue f selected notForward notCopy
    exact absurd (Ends.unique ctor user) (by simp)
  constructor
  · intro user
    refine ⟨fun type => ?_, fun type => ?_, fun type => ?_⟩
    · exact filled .size (by rw [type]; rfl) (by simp) (by simp) user
    · exact filled .baseRvalue (by rw [type]; rfl) (by simp) (by simp) user
    · exact filled .move (by rw [type]; rfl) (by simp) (by simp) user
  · rintro ⟨notSizeT, notZmqMessage, notMessage⟩
    exact ends_construct t .rvalue _ (MessageCtor.selected_forward true t.type .rvalue
      (fun _ => t.type.toSize_ne notSizeT) (by simp) notZmqMessage notMessage)
      (ends_user t conv specialized)

/-- The function object reaches the specialization only through an overload that calls on. -/
theorem function_user_iff : Ends (next t .rvalue) .function (.encoder .user) ↔
    t.type = .zmqMessage ∨ t.type.isStandardLayout = false ∧ t.type.hasOverload = false ∧
      t.type.isAmbiguous = false := by
  have calls_on := ToOverload.selected_calls_on_iff t.type .rvalue
  rw [eq_self, and_true] at calls_on
  rw [← calls_on]
  have user := ends_user t conv specialized
  constructor
  · intro reached
    -- an overload that fills the frame itself is another end of the chain
    cases selected : ToOverload.selected t.type .rvalue with
    | none =>
      have stuck : Ends (next t .rvalue) .function .illFormed :=
        Ends.of_inl (by rw [next, selected]; rfl)
      exact absurd (Ends.unique stuck reached) (by simp)
    | some f =>
      by_cases calls : f = .zmqMessageRvalue ∨ f = .message ∧ t.type ≠ .message
      · rcases calls with rfl | ⟨rfl, notMessage⟩
        · exact Or.inl rfl
        · exact Or.inr ⟨rfl, notMessage⟩
      · rw [not_or, not_and_not_right] at calls
        have overload := ends_function t .rvalue f selected calls.2 calls.1
        exact absurd (Ends.unique overload reached) (by simp)
  · rintro (selected | ⟨selected, notMessage⟩)
    · exact Ends.of_inr (t := .assign) (by rw [next, selected]; rfl)
        (ends_assign t .rvalue _ (by simp) user)
    · have forward : MessageCtor.selected false t.type .rvalue = some .forward := by
        refine MessageCtor.selected_forward false t.type .rvalue (by simp) (by simp) ?_ notMessage
        intro zmqMessage
        rw [zmqMessage] at selected
        exact absurd selected (by decide)
      refine Ends.of_inr (t := .convert) ?_ (Ends.of_inr (t := .fromValue) ?_ user)
      · rw [next, selected]
        cases type : t.type with
        | message => exact absurd type notMessage
        | _ => rfl
      · rw [next, forward]
        rfl

end Specialized

end Call

namespace EntryPoint

/-- The types whose rvalues reach the specialization. -/
def ReachesConverter (t : CppType) : EntryPoint → Prop
  | fromValue | assign => True
  | construct | send | addArgument => t ≠ .sizeT ∧ t ≠ .zmqMessage ∧ t ≠ .message
  | addArguments _ _ | sendMultipart _ _ =>
    t = .zmqMessage ∨ t.isStandardLayout = false ∧ t.hasOverload = false ∧ t.isAmbiguous = false

/-- The entry point encodes with the specialization for the type of its argument, and
decoding the frame gives the value back. -/
def Honours (mem : Memory) (t : Convertible) (c : Category) (e : EntryPoint) : Prop :=
  Call.resolve t (e.category c) e.call = some (.encoder .user) ∧
    ∀ v, ∃ bytes, e.Makes mem ⟨t, c, v⟩ bytes ∧ ∀ old, decode mem t bytes old = v

/-- A value whose call ends in the specialization is encoded by it and decoded again. -/
theorem honours_of_resolve (mem : Memory) (t : Convertible) (c : Category) (e : EntryPoint)
    (conv : Converter t.type.Val) (specialized : t.adlConverter = some conv)
    (undoes : conv.Undoes)
    (resolved : Call.resolve t (e.category c) e.call = some (.encoder .user)) :
    e.Honours mem t c := by
  refine ⟨resolved, fun v => ⟨conv.toZmqMessage v, ?_, ?_⟩⟩
  · refine (makes_iff mem e ⟨t, c, v⟩ _ ?_).mpr ?_
    · -- a message that is moved is written as the first argument, hence is no rvalue
      rintro rfl
      have notUser (c : Category) := Call.resolve_ne_user t (category c (.sendMultipart [] []))
      cases c <;> exact absurd resolved (notUser _ _ (by simp [category, Category.named]))
    · have ends := (Call.resolve_eq_some_iff _ _ _ _).mp resolved
      exact encode_eq_ok mem ⟨t, e.category c, v⟩ e.call .user ⟨conv.toZmqMessage v⟩ ends
        (by simp [Encoder.result, specialized])
  · intro old
    simp only [decode, specialized]
    exact undoes v old

end EntryPoint

/-- A specialization is honoured exactly for values that reach their encoding call as
rvalues that are not const, on the ways and for the types that pass through `Message::from`. -/
theorem adlConverter_honoured_iff (mem : Memory) (t : Convertible) (conv : Converter t.type.Val)
    (specialized : t.adlConverter = some conv) (undoes : conv.Undoes) (c : Category)
    (e : EntryPoint) :
    e.Honours mem t c ↔ e.category c = .rvalue ∧ e.ReachesConverter t.type := by
  have reaches : Call.resolve t .rvalue e.call = some (.encoder .user) ↔
      e.ReachesConverter t.type := by
    rw [Call.resolve_eq_some_iff]
    have user := Call.ends_user t conv specialized
    cases e with
    | fromValue => exact iff_of_true user trivial
    | assign => exact iff_of_true (Call.ends_assign t .rvalue _ (by simp) user) trivial
    | construct | send | addArgument => exact Call.construct_user_iff t conv specialized
    | addArguments _ _ | sendMultipart _ _ => exact Call.function_user_iff t conv specialized
  constructor
  · rintro ⟨resolved, _⟩
    have rvalue : e.category c = .rvalue := by
      by_contra notRvalue
      exact Call.resolve_ne_user t _ _ notRvalue resolved
    exact ⟨rvalue, reaches.mp (rvalue ▸ resolved)⟩
  · rintro ⟨rvalue, reached⟩
    exact e.honours_of_resolve mem t c conv specialized undoes (rvalue ▸ reaches.mpr reached)

/-- One byte, which the application sends behind a tag. -/
def taggedByte : Convertible :=
  ⟨.fixed ⟨1, Nat.one_pos, none, none_ne_exact, true⟩,
    some ⟨fun v => 9 :: v.bytes, fun frame _ => Object.ofBytes 1 (frame.drop 1)⟩⟩

/-- As an lvalue the byte is sent without its tag, and decoding drops it. -/
theorem taggedByte_lvalue :
    EntryPoint.construct.frame .zero ⟨taggedByte, .lvalue, ⟨[5], rfl⟩⟩ = .ok [5] ∧
      decode .zero taggedByte [5] ⟨[7], rfl⟩ = ⟨[0], rfl⟩ ∧
      ¬ EntryPoint.construct.Honours .zero taggedByte .lvalue := by
  refine ⟨rfl, rfl, ?_⟩
  rintro ⟨_, honoured⟩
  obtain ⟨bytes, makes, gives⟩ := honoured ⟨[5], rfl⟩
  have made : Except.ok [5] = Except.ok (ε := Stuck) bytes := makes.1
  rw [← Except.ok.inj made] at gives
  have dropped := congrArg Object.bytes (gives ⟨[7], rfl⟩)
  exact absurd dropped (by decide)

theorem taggedByte_rvalue : EntryPoint.construct.Honours .zero taggedByte .rvalue :=
  (adlConverter_honoured_iff .zero taggedByte _ rfl (fun v _ => Object.ofBytes_bytes v) .rvalue
    .construct).mpr ⟨rfl, by simp [EntryPoint.ReachesConverter, taggedByte]⟩

end OfxZeroMQ
