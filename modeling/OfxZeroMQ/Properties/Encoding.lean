import OfxZeroMQ.Model.EntryPoint
import OfxZeroMQ.Properties.RoundTrip

/-!
# One encoding, whatever the entry point

Every entry point hands its value to one encoding call. Where these calls end in one
encoder the entry points agree; a `std::size_t`, a text that is no `std::string` and a type
with a specialized `adl_converter` each take an encoder of their own on some of the ways.
-/
namespace OfxZeroMQ

open Foundation.Chain (Ends)
open Foundation.Traverse

/-! ### From an entry point to its encoding call -/

namespace EntryPoint

theorem passed_place (before after : List Argument) (a : Argument) :
    (passed (before ++ a :: after))[before.length]? =
      some { a with category := if before.isEmpty then a.category.named else a.category } := by
  cases before with
  | nil => rfl
  | cons b before => simp [passed]

theorem addArguments_place (mem : Memory) (parts : MultipartMessage)
    (before after : List Argument) (a : Argument) (made : MultipartMessage)
    (added : MultipartMessage.addArguments mem parts (before ++ a :: after) = .ok made)
    (bytes : Bytes) (encoded : (addArguments before after).frame mem a = .ok bytes) :
    made[parts.length + before.length]? = some bytes := by
  obtain ⟨_, encodings, mapped, rfl⟩ :=
    (MultipartMessage.addArguments_eq_ok mem parts _ made).mp added
  have place := congrArg (·[before.length]?) mapped
  simp only [List.getElem?_map, passed_place before after a, Option.map_some] at place
  have same : MultipartMessage.convert mem
      { a with category := if before.isEmpty then a.category.named else a.category } =
        .ok bytes := encoded
  rw [same] at place
  obtain ⟨frame, found, equal⟩ := Option.map_eq_some_iff.mp place.symm
  rw [List.getElem?_append_right (by omega), Nat.add_sub_cancel_left, found,
    Except.ok.inj equal]

/-- Only `Socket::send(mess)` with a non-const `MultipartMessage` encodes nothing. -/
theorem frames_send (mem : Memory) (a : Argument)
    (encoded : a.type.type = .multipart → a.category ≠ .lvalue) :
    send.frames mem a = do
      let (_, o) ← Outbox.idle.sendValue mem true a.type a.value .default
      return o.calls.map SendCall.frame := by
  obtain ⟨⟨t, adl⟩, c, v⟩ := a
  cases t with
  | multipart =>
    cases c with
    | lvalue => exact absurd rfl (encoded rfl)
    | constLvalue | rvalue | constRvalue => rfl
  | _ => rfl

/-- As a constant, a `MultipartMessage` has no encoding. -/
theorem frame_send_multipart (mem : Memory) (a : Argument) (multipart : a.type.type = .multipart) :
    send.frame mem a = .error .diverges := by
  obtain ⟨⟨t, adl⟩, c, v⟩ := a
  simp only at multipart
  subst multipart
  rfl

theorem send_place (mem : Memory) (a : Argument) (made : MultipartMessage)
    (whole : send.frames mem a = .ok made) (bytes : Bytes)
    (encoded : send.frame mem a = .ok bytes) : made[0]? = some bytes := by
  have notMultipart : a.type.type ≠ .multipart := fun multipart => by
    simp [frame_send_multipart mem a multipart] at encoded
  rw [frames_send mem a fun multipart => absurd multipart notMultipart] at whole
  simp only [frame, category, call] at encoded
  by_cases pointer : a.type.type.isPointer = true
  · simp [Outbox.sendValue, pointer] at whole
  · simp only [Outbox.sendValue, if_neg pointer, encoded, ok_bind, pure_eq_ok,
      Except.ok.injEq] at whole
    subst whole
    rfl

theorem sendMultipart_place (mem : Memory) (before after : List Argument) (a : Argument)
    (made : MultipartMessage) (whole : (sendMultipart before after).frames mem a = .ok made)
    (bytes : Bytes) (encoded : (sendMultipart before after).frame mem a = .ok bytes)
    (notMoved : before = [] → after = [] → a.type.type ≠ .multipart) :
    made[before.length]? = some bytes := by
  rw [frames, bind_eq_ok_iff] at whole
  obtain ⟨⟨message, flag⟩, sent, taken⟩ := whole
  simp only [pure_eq_ok, Except.ok.injEq] at taken
  subst taken
  have built := ((multipartToSend_eq_ok mem _ message flag).mp sent).2.1
  rw [MultipartMessage.construct_eq_addArguments mem _ (by simp) ?_] at built
  · simpa using addArguments_place mem [] before after a message built bytes encoded
  · -- the value is the only argument, and no multipart message by assumption
    intro b alone
    obtain ⟨rfl, rfl, rfl⟩ : before = [] ∧ a = b ∧ after = [] := by
      simpa [List.append_eq_singleton_iff] using alone
    exact notMoved rfl rfl

theorem makes_iff (mem : Memory) (e : EntryPoint) (a : Argument) (bytes : Bytes)
    (notMoved : e = .sendMultipart [] [] → a.type.type ≠ .multipart) :
    e.Makes mem a bytes ↔ e.frame mem a = .ok bytes := by
  refine ⟨And.left, fun encoded => ⟨encoded, ?_⟩⟩
  intro made whole
  cases e with
  | fromValue | construct | assign | addArgument =>
    simp only [frame, category, call] at encoded
    simp only [frames, MultipartMessage.addArgument, encoded, ok_bind, pure_eq_ok,
      Except.ok.injEq] at whole
    subst whole
    rfl
  | send => exact send_place mem a made whole bytes encoded
  | addArguments before after =>
    simpa [position] using addArguments_place mem [] before after a made whole bytes encoded
  | sendMultipart before after =>
    refine sendMultipart_place mem before after a made whole bytes encoded ?_
    rintro rfl rfl
    exact notMoved rfl

end EntryPoint

/-- Every entry point makes the frame of the selected overload, unless `Message{v}` finds the
constructor for a size; the constructor for a range, which takes const lvalues, must copy the
same bytes. -/
theorem EntryPoint.frame_eq (mem : Memory) (t : Convertible) (v : t.type.Val) (c : Category)
    (e : EntryPoint) (encodable : t.type.isEncodable = true)
    (unspecialized : t.adlConverter = none ∨ e.category c ≠ .rvalue)
    (notZmqMessage : t.type ≠ .zmqMessage) (notMessage : t.type ≠ .message)
    (notSize : e.call = .construct → t.type.toSize ≠ some .exact)
    (range : e.call = .construct → e.category c = .constLvalue → t.type.isRange = true →
      t.type.asRange v = some (t.type.encoding v)) :
    e.frame mem ⟨t, c, v⟩ = .ok (t.type.encoding v) := by
  obtain ⟨f, m, selected, calls, notRvalue, result, data⟩ := ToOverload.exists_selected mem t.type
    v (e.category c) encodable fun moved => absurd moved notZmqMessage
  rw [← data]
  rw [← data] at range
  have function := Call.ends_function t (e.category c) f selected calls notRvalue
  have fromValue := Call.ends_fromValue t (e.category c) _ unspecialized function
  have overload (ends : Ends (Call.next t (e.category c)) e.call (.encoder (.overload f))) :
      e.frame mem ⟨t, c, v⟩ = .ok m.data :=
    encode_eq_ok mem ⟨t, e.category c, v⟩ e.call _ m ends result
  have construct (built : e.call = .construct) : e.frame mem ⟨t, c, v⟩ = .ok m.data := by
    -- the inherited constructor for ranges takes const lvalues, and copies the elements
    by_cases copies : t.type.isRange = true ∧ e.category c = .constLvalue
    · have ctor := Call.ends_construct_ctor t .constLvalue .range
        (MessageCtor.selected_range t.type copies.1 (notSize built)) (by simp) (by simp)
      rw [EntryPoint.frame, built, copies.2]
      refine encode_eq_ok mem _ _ _ m ctor ?_
      simp [Encoder.result, MessageCtor.result, range built copies.2 copies.1]
    · apply overload
      rw [built]
      refine Call.ends_construct t _ _ (MessageCtor.selected_forward true t.type _
        (fun _ => notSize built) ?_ notZmqMessage notMessage) fromValue
      exact fun _ isRange const => copies ⟨isRange, const⟩
  cases e with
  | construct | send | addArgument => exact construct rfl
  | fromValue => exact overload fromValue
  | assign => exact overload (Call.ends_assign t _ _ (absurd · notMessage) fromValue)
  | addArguments _ _ | sendMultipart _ _ => exact overload function

/-! ### Values of fixed size -/

/-- Trivially copyable standard-layout types without a conversion of their own that are no
array, pointer or range. -/
def CppType.IsFixedSize : CppType → Prop
  | .sizeT | .fixed _ | .sendFlag | .receiveFlag => True
  | .userClass k => k.standardLayout = true ∧ k.adl = none ∧ k.elements = none ∧
      ∀ v old, k.overwrite (k.representation v) old = v
  | _ => False

theorem CppType.IsFixedSize.isPlain {t : CppType} (fixed : t.IsFixedSize) : t.IsPlain := by
  cases t with
  | userClass k => exact ⟨fixed.1, fixed.2.1, fixed.2.2.2⟩
  | sizeT | fixed _ | sendFlag | receiveFlag => trivial
  | _ => exact fixed.elim

theorem CppType.IsFixedSize.representation {t : CppType} (fixed : t.IsFixedSize) (v : t.Val) :
    t.representation v = some (t.encoding v) ∧ (t.encoding v).length = t.sizeof := by
  cases t with
  | sizeT | fixed _ => exact ⟨rfl, v.length_bytes⟩
  | sendFlag | receiveFlag => exact ⟨rfl, rfl⟩
  | userClass k =>
    have copied : (CppType.userClass k).encoding v = (k.representation v).bytes := by
      simp [CppType.encoding, fixed.2.1]
    rw [copied]
    exact ⟨rfl, (k.representation v).length_bytes⟩
  | _ => exact fixed.elim

theorem CppType.IsFixedSize.isRange {t : CppType} (fixed : t.IsFixedSize) : t.isRange = false := by
  cases t with
  | userClass k => simp [CppType.isRange, fixed.2.2.1]
  | sizeT | fixed _ | sendFlag | receiveFlag => rfl
  | _ => exact fixed.elim

/-- `Message{v}` with a `std::size_t` makes a message of `v` uninitialized bytes. -/
theorem encode_construct_sizeT (mem : Memory) (c : Category) (v : Object 8) :
    encode mem ⟨CppType.sizeT.unspecialized, c, v⟩ .construct =
      .ok ((List.range (littleEndian v.bytes)).map mem.fresh) := by
  have ends := Call.ends_construct_ctor CppType.sizeT.unspecialized c .size
    (MessageCtor.selected_size c) (by simp) (by simp)
  exact encode_eq_ok mem _ _ _ (Message.empty.rebuildSize mem (littleEndian v.bytes)) ends rfl

/-- A frame of uninitialized bytes is no representation, whatever its length. -/
theorem exists_fresh_ne (v : Object 8) (n : Nat) :
    ∃ mem : Memory, (List.range n).map mem.fresh ≠ v.bytes :=
  Memory.exists_fresh_ne v.bytes (List.ne_nil_of_length_pos (by simp)) n

/-- The entry points agree on the object representation of a value of fixed size, except
that `Message{v}`, `Socket::send` and `addArgument` take a `std::size_t` for a length. -/
theorem fixed_size_frame_iff (t : CppType) (fixed : t.IsFixedSize) (v : t.Val) (c : Category)
    (e : EntryPoint) :
    (∀ mem, ∃ bytes, t.representation v = some bytes ∧ bytes.length = t.sizeof ∧
        e.Makes mem ⟨t.unspecialized, c, v⟩ bytes ∧
        ∀ old, decode mem t.unspecialized bytes old = v) ↔
      (t = .sizeT → e.call ≠ .construct) := by
  have notMultipart : t ≠ .multipart := by
    rintro rfl
    exact fixed.elim
  obtain ⟨represented, length⟩ := fixed.representation v
  constructor
  · rintro agrees rfl construct
    obtain ⟨mem, different⟩ := exists_fresh_ne v (littleEndian v.bytes)
    obtain ⟨bytes, same, _, makes, _⟩ := agrees mem
    have frame := encode_construct_sizeT mem (e.category c) v
    rw [← construct] at frame
    have made := makes.1
    rw [EntryPoint.frame] at made
    rw [frame, Except.ok.injEq] at made
    exact different (made.trans (Option.some.inj same).symm)
  · intro notSize mem
    refine ⟨t.encoding v, represented, length, ?_, decode_encoding mem t fixed.isPlain v⟩
    refine (EntryPoint.makes_iff mem e _ _ fun _ => notMultipart).mpr ?_
    refine EntryPoint.frame_eq mem t.unspecialized v c e fixed.isPlain.isEncodable (Or.inl rfl)
      fixed.isPlain.ne_zmqMessage ?_
      (fun construct => t.toSize_ne fun sizeT => notSize sizeT construct)
      (by simp [fixed.isRange])
    rintro (rfl : t = .message)
    exact fixed.elim

/-- The `std::size_t` 3. -/
def sizeThree : Object 8 := ⟨[3, 0, 0, 0, 0, 0, 0, 0], rfl⟩

/-- `Message{v}` makes three bytes of a `std::size_t` 3, `addArguments` makes eight. -/
theorem sizeThree_frames :
    EntryPoint.construct.frame .zero ⟨CppType.sizeT.unspecialized, .lvalue, sizeThree⟩ =
        .ok [0, 0, 0] ∧
      (EntryPoint.addArguments [] []).frame .zero
        ⟨CppType.sizeT.unspecialized, .lvalue, sizeThree⟩ = .ok [3, 0, 0, 0, 0, 0, 0, 0] ∧
      ¬ ∃ bytes, CppType.sizeT.representation sizeThree = some bytes ∧ bytes.length = 8 ∧
        (∀ e : EntryPoint,
          e.Makes .zero ⟨CppType.sizeT.unspecialized, .lvalue, sizeThree⟩ bytes) ∧
        ∀ old, decode .zero CppType.sizeT.unspecialized bytes old = sizeThree := by
  refine ⟨rfl, rfl, ?_⟩
  rintro ⟨bytes, _, length, agrees, _⟩
  have made : EntryPoint.construct.frame .zero
      ⟨CppType.sizeT.unspecialized, .lvalue, sizeThree⟩ = .ok bytes := (agrees .construct).1
  have three : Except.ok [0, 0, 0] = Except.ok (ε := Stuck) bytes := made
  rw [← Except.ok.inj three] at length
  exact absurd length (by decide)

/-- A two-byte `short`. -/
theorem fixed_size_frame_short :
    let short : CppType := .fixed ⟨2, by decide, some .conversion, by decide, true⟩
    EntryPoint.send.Makes .zero ⟨short.unspecialized, .lvalue, ⟨[7, 0], rfl⟩⟩ [7, 0] := by
  intro short
  have agrees := (fixed_size_frame_iff short trivial ⟨[7, 0], rfl⟩ .lvalue .send).mpr
    (fun sizeT => absurd sizeT (by simp [short]))
  obtain ⟨bytes, represented, _, makes, _⟩ := agrees .zero
  have same : some [7, 0] = some bytes := represented
  exact Option.some.inj same ▸ makes

/-! ### Text -/

/-- The ways to write down a text. -/
inductive TextForm where
  -- a `std::string`
  | string
  -- a string literal or a `char` array, with its terminator
  | array
  -- a `const char *` to such an array
  | pointer (address : Object 8)

namespace TextForm

def argument (s : Bytes) (c : Category) : TextForm → Argument
  | string => ⟨CppType.string.unspecialized, c, s⟩
  | array => ⟨(CppType.array ⟨1, Nat.one_pos⟩ (s.length + 1)).unspecialized, c,
      ⟨s ++ [0], by simp⟩⟩
  | pointer address => ⟨CppType.pointer.unspecialized, c, ⟨address, s⟩⟩

/-- The bytes that are sent for the text. -/
def sent (s : Bytes) : TextForm → Bytes
  | string => s
  | array => s ++ [0]
  | pointer address => address.bytes

/-- `Socket::send` takes no pointers. -/
def isAccepted (form : TextForm) : EntryPoint → Prop
  | .send => ∀ address, form ≠ pointer address
  | _ => True

theorem frame_eq (mem : Memory) (s : Bytes) (form : TextForm) (c : Category) (e : EntryPoint) :
    e.frame mem (form.argument s c) = .ok (form.sent s) := by
  cases form with
  | string =>
    exact EntryPoint.frame_eq mem CppType.string.unspecialized s c e rfl (Or.inl rfl)
      (by simp) (by simp)
      (by simp [CppType.toSize]) (fun _ _ _ => rfl)
  | array =>
    exact EntryPoint.frame_eq mem (CppType.array ⟨1, Nat.one_pos⟩ (s.length + 1)).unspecialized _
      c e rfl (Or.inl rfl) (by simp) (by simp)
      (by simp [CppType.toSize]) (fun _ _ _ => rfl)
  | pointer address =>
    exact EntryPoint.frame_eq mem CppType.pointer.unspecialized _ c e rfl (Or.inl rfl)
      (by simp) (by simp)
      (by simp [CppType.toSize])
      (by simp [CppType.isRange])

end TextForm

/-- A text arrives as it was written when it was given as a `std::string`. A `char` array
carries its terminator along, and a pointer sends its own eight bytes. -/
theorem text_frame_iff (mem : Memory) (s : Bytes) (form : TextForm) (c : Category)
    (e : EntryPoint) (accepted : form.isAccepted e) :
    (∃ frame, e.Makes mem (form.argument s c) frame ∧ frame = s ∧
        ∀ old, decode mem CppType.string.unspecialized frame old = s) ↔
      form = .string ∨ ∃ address : Object 8, form = .pointer address ∧ address.bytes = s := by
  have notMultipart : (form.argument s c).type.type ≠ .multipart := by
    cases form <;> simp [TextForm.argument]
  have sent := TextForm.frame_eq mem s form c e
  constructor
  · rintro ⟨frame, makes, rfl, _⟩
    have same := makes.1.symm.trans sent
    rw [Except.ok.injEq] at same
    cases form with
    | string => exact Or.inl rfl
    | array =>
      have length := congrArg List.length same
      simp [TextForm.sent] at length
    | pointer address => exact Or.inr ⟨address, rfl, same.symm⟩
  · intro spelled
    have same : form.sent s = s := by
      rcases spelled with rfl | ⟨address, rfl, same⟩
      · rfl
      · exact same
    have makes := (EntryPoint.makes_iff mem e _ s fun _ => notMultipart).mpr (by rw [sent, same])
    refine ⟨s, makes, rfl, ?_⟩
    exact decode_encoding mem .string trivial s

/-- The literal in `sendMultipart("mo")` is sent with its terminator, and the received topic
is not the `std::string` it is compared with. -/
theorem literal_frame :
    let literal := TextForm.array.argument [109, 111] .constLvalue
    (EntryPoint.sendMultipart [] []).Makes .zero literal [109, 111, 0] ∧
      ¬ ∃ frame, (EntryPoint.sendMultipart [] []).Makes .zero literal frame ∧
        frame = [109, 111] ∧
        ∀ old, decode .zero CppType.string.unspecialized frame old = [109, 111] := by
  intro literal
  have makes := (EntryPoint.makes_iff .zero (.sendMultipart [] []) literal [109, 111, 0]
    (fun _ => by simp [literal, TextForm.argument])).mpr
      (TextForm.frame_eq .zero [109, 111] .array .constLvalue (.sendMultipart [] []))
  refine ⟨makes, ?_⟩
  rintro ⟨frame, other, rfl, _⟩
  exact absurd (makes.1.symm.trans other.1) (by simp)

theorem text_frame_string :
    ∃ frame, EntryPoint.addArgument.Makes .zero (TextForm.string.argument [109, 111] .rvalue)
        frame ∧ frame = [109, 111] ∧
      ∀ old, decode .zero CppType.string.unspecialized frame old = [109, 111] :=
  (text_frame_iff .zero [109, 111] .string .rvalue .addArgument trivial).mpr (Or.inl rfl)

end OfxZeroMQ
