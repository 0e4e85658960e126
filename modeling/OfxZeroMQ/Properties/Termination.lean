import OfxZeroMQ.Properties.UserConverter

/-!
# Which encoding calls come to an end

An overload that calls on leads back to `Message::from` with the same argument. Only a
constructor that fills the message, or a specialization of `adl_converter` for an rvalue that
is not const, leaves the circle.
-/
namespace OfxZeroMQ

open Foundation.Chain Foundation.Traverse

/-- The overload for the argument calls on: it is written with `operator=`, or takes the
argument as a `Message` that has to be converted first. -/
def CppType.CallsOn (t : CppType) (c : Category) : Prop :=
  t = .zmqMessage ∧ c = .rvalue ∨
    t.isStandardLayout = false ∧ t.hasOverload = false ∧ t.isAmbiguous = false

/-- From there `Message::from` comes back to the same overload. -/
def Convertible.GoesRound (t : Convertible) (c : Category) : Prop :=
  t.type.CallsOn c ∧ ¬ (c = .rvalue ∧ t.adlConverter.isSome = true)

namespace Call

/-- The calls that never end. -/
def Loops (t : Convertible) (c : Category) : Call → Prop
  | construct => MessageCtor.selected true t.type c = some .forward ∧ t.GoesRound c
  | convert => MessageCtor.selected false t.type c = some .forward ∧ t.GoesRound c
  | _ => t.GoesRound c

variable (t : Convertible) (c : Category)

theorem CallsOn.ne_message {t : CppType} {c : Category} (on : t.CallsOn c) : t ≠ .message := by
  rintro rfl
  simp [CppType.CallsOn, CppType.hasOverload] at on

/-- Without a specialization that is found, `Message::from` leads to the function object. -/
theorem next_converter (unspecialized : ¬ (c = .rvalue ∧ t.adlConverter.isSome = true)) :
    next t c .converter = .inr .function := by
  cases c with
  | lvalue | constLvalue | constRvalue => rfl
  | rvalue =>
    have none : t.adlConverter = none := by simpa using unspecialized
    simp [next, none]

/-- The function object leads to `operator=` or to a conversion, and these to `Message::from`. -/
theorem next_function (on : t.type.CallsOn c) :
    ∃ call, next t c .function = .inr call ∧ next t c call = .inr .fromValue := by
  have selected := (ToOverload.selected_calls_on_iff t.type c).mpr on
  have notMessage := CallsOn.ne_message on
  rcases selected with moved | ⟨converted, _⟩
  · refine ⟨.assign, by rw [next, moved]; rfl, ?_⟩
    rw [next]
    exact fun same => absurd same notMessage
  · have notZmqMessage : t.type ≠ .zmqMessage := by
      intro same
      rw [same] at converted
      cases c <;> exact absurd converted (by decide)
    have forward : MessageCtor.selected false t.type c = some .forward :=
      MessageCtor.selected_forward false t.type c (by simp) (by simp) notZmqMessage notMessage
    refine ⟨.convert, ?_, by rw [next, forward]; rfl⟩
    rw [next, converted]
    cases type : t.type with
    | message => exact absurd type notMessage
    | _ => rfl

theorem never_function (round : t.GoesRound c) : Never (next t c) .function := by
  obtain ⟨call, first, second⟩ := next_function t c round.1
  have back := next_converter t c round.2
  have from' : next t c .fromValue = .inr .converter := rfl
  exact run_none_of_loop (next t c) .function 4 (by decide)
    (by simp [after, first, second, from', back]) (by simp [run, first, second, from', back])

theorem never_fromValue (round : t.GoesRound c) : Never (next t c) .fromValue := by
  have first : next t c .fromValue = .inr .converter := rfl
  rw [never_inr_iff first, never_inr_iff (next_converter t c round.2)]
  exact never_function t c round

/-- A call that does not go round ends where the overload or the specialization does. -/
theorem exists_ends_function (straight : ¬ t.GoesRound c) : ∃ r, Ends (next t c) .function r := by
  by_cases on : t.type.CallsOn c
  · obtain ⟨rfl, specialized⟩ : c = .rvalue ∧ t.adlConverter.isSome = true := by
      by_contra unspecialized
      exact straight ⟨on, unspecialized⟩
    obtain ⟨conv, found⟩ := Option.isSome_iff_exists.mp specialized
    refine ⟨_, (function_user_iff t conv found).mpr ?_⟩
    simpa [CppType.CallsOn] using on
  · rw [CppType.CallsOn, ← ToOverload.selected_calls_on_iff, not_or, not_and_not_right] at on
    cases selected : ToOverload.selected t.type c with
    | none => exact ⟨.illFormed, .of_inl (by rw [next, selected]; rfl)⟩
    | some f =>
      rw [selected] at on
      exact ⟨_, ends_function t c f selected (fun same => on.2 (same ▸ rfl))
        fun same => on.1 (same ▸ rfl)⟩

theorem exists_ends_fromValue (straight : ¬ t.GoesRound c) :
    ∃ r, Ends (next t c) .fromValue r := by
  by_cases specialized : c = .rvalue ∧ t.adlConverter.isSome = true
  · obtain ⟨rfl, found⟩ := specialized
    obtain ⟨conv, found⟩ := Option.isSome_iff_exists.mp found
    exact ⟨_, ends_user t conv found⟩
  · obtain ⟨r, ends⟩ := exists_ends_function t c straight
    exact ⟨r, .of_inr (t := .converter) rfl (.of_inr (next_converter t c specialized) ends)⟩

theorem never_fromValue_iff : Never (next t c) .fromValue ↔ t.GoesRound c := by
  refine ⟨fun never => ?_, never_fromValue t c⟩
  by_contra straight
  obtain ⟨r, ends⟩ := exists_ends_fromValue t c straight
  exact ends.not_never never

/-- A constructor other than the forwarding one ends the call. -/
theorem never_ofCtor_iff (call : Call) (f : Option MessageCtor)
    (selected : next t c call = ofCtor f) :
    Never (next t c) call ↔ f = some .forward ∧ t.GoesRound c := by
  by_cases forward : f = some .forward
  · rw [never_inr_iff (t := .fromValue) (by rw [selected, forward]; rfl), never_fromValue_iff,
      eq_true forward, true_and]
  · obtain ⟨r, finished⟩ : ∃ r, ofCtor f = .inl r := by
      cases f with
      | none => exact ⟨_, rfl⟩
      | some f =>
        cases f with
        | forward => exact absurd rfl forward
        | _ => exact ⟨_, rfl⟩
    exact iff_of_false (Ends.of_inl (selected.trans finished)).not_never fun round =>
      forward round.1

theorem never_function_iff : Never (next t c) .function ↔ t.GoesRound c := by
  refine ⟨fun never => ?_, never_function t c⟩
  by_contra straight
  obtain ⟨r, ends⟩ := exists_ends_function t c straight
  exact ends.not_never never

theorem never_iff (call : Call) : Never (next t c) call ↔ call.Loops t c := by
  cases call with
  | construct => exact never_ofCtor_iff t c .construct _ rfl
  | convert => exact never_ofCtor_iff t c .convert _ rfl
  | fromValue => exact never_fromValue_iff t c
  | function => exact never_function_iff t c
  | converter =>
    by_cases specialized : c = .rvalue ∧ t.adlConverter.isSome = true
    · obtain ⟨rfl, found⟩ := specialized
      obtain ⟨conv, found⟩ := Option.isSome_iff_exists.mp found
      have ends : Ends (next t .rvalue) .converter (.encoder .user) :=
        .of_inl (by simp [next, found])
      exact iff_of_false ends.not_never fun round => round.2 ⟨rfl, by simp [found]⟩
    · exact (never_inr_iff (next_converter t c specialized)).trans (never_function_iff t c)
  | assign =>
    by_cases copied : t.type = .message ∧ c = .constLvalue
    · obtain ⟨message, rfl⟩ := copied
      have ends : Ends (next t .constLvalue) .assign .illFormed :=
        .of_inl (by rw [next]; exact message)
      exact iff_of_false ends.not_never fun round => CallsOn.ne_message round.1 message
    · refine (never_inr_iff (t := .fromValue) ?_).trans (never_fromValue_iff t c)
      rw [next]
      exact fun message const => copied ⟨message, const⟩

end Call

theorem encode_eq_diverges_iff (mem : Memory) (a : Argument) (call : Call) :
    encode mem a call = .error .diverges ↔ Never (Call.next a.type a.category) call := by
  rw [← run_card_eq_none_iff]
  simp only [encode, Call.resolve]
  cases Foundation.Chain.run (Call.next a.type a.category) (Fintype.card Call) call with
  | none => simp
  | some r =>
    cases r with
    | illFormed => simp
    | encoder e =>
      simp only [reduceCtorEq, iff_false]
      split <;> simp

/-! ### Expressions -/

/-- A result that comes from some encoding calls: all of them have succeeded when it is there,
and one of them goes on for ever when it never comes. -/
structure ComesFrom (mem : Memory) (calls : List (Argument × Call)) {α : Type}
    (result : Except Stuck α) : Prop where
  made : ∀ r, result = .ok r → ∀ x ∈ calls, ∃ frame, encode mem x.1 x.2 = .ok frame
  stuck : result = .error .diverges → ∃ x ∈ calls, encode mem x.1 x.2 = .error .diverges

namespace ComesFrom

variable {mem : Memory} {calls : List (Argument × Call)} {α β : Type}

theorem illFormed : ComesFrom mem calls (.error .illFormed : Except Stuck α) where
  made _ h := by simp at h
  stuck h := by simp at h

theorem ofOk (r : α) : ComesFrom mem [] (.ok r) where
  made _ _ x member := by simp at member
  stuck h := by simp at h

theorem map {result : Except Stuck α} (from' : ComesFrom mem calls result) (f : α → β) :
    ComesFrom mem calls (result.map f) where
  made r h := by
    cases result with
    | ok a => exact from'.made a rfl
    | error e => simp [Except.map] at h
  stuck h := by
    cases result with
    | ok a => simp [Except.map] at h
    | error e => exact from'.stuck (by simpa [Except.map] using h)

theorem ofEncode (a : Argument) (call : Call) :
    ComesFrom mem [(a, call)] (encode mem a call) where
  made frame h x member := by
    rw [List.mem_singleton.mp member]
    exact ⟨frame, h⟩
  stuck h := ⟨(a, call), by simp, h⟩

theorem ofAddArguments (parts : MultipartMessage) (args : List Argument) :
    ComesFrom mem ((passed args).map fun x => (x, .function))
      (MultipartMessage.addArguments mem parts args) where
  made message h x member := by
    obtain ⟨y, place, rfl⟩ := List.mem_map.mp member
    obtain ⟨_, frames, mapped, _⟩ :=
      (MultipartMessage.addArguments_eq_ok mem parts args message).mp h
    have image : MultipartMessage.convert mem y ∈ frames.map .ok :=
      mapped ▸ List.mem_map_of_mem place
    obtain ⟨frame, _, same⟩ := List.mem_map.mp image
    exact ⟨frame, same.symm⟩
  stuck h := by
    cases args with
    | nil => simp [MultipartMessage.addArguments] at h
    | cons datum data =>
      rw [MultipartMessage.addArguments, bind_eq_error_iff] at h
      rcases h with first | ⟨frame, -, later⟩
      · exact ⟨(datum.named, .function), by simp [passed], first⟩
      · rw [bind_eq_error_iff] at later
        rcases later with others | ⟨frames, -, never⟩
        · obtain ⟨x, member, same⟩ := exists_of_mapM_eq_error _ data _ others
          exact ⟨(x, .function), by simp [passed, member], same⟩
        · simp at never

/-- A call that compiles comes to an end exactly when none of its encoding calls goes on for
ever. -/
theorem terminates_iff {result : Except Stuck α} (from' : ComesFrom mem calls result)
    (compiles : result ≠ .error .illFormed) : result ≠ .error .diverges ↔
      ∀ x ∈ calls, ¬ Never (Call.next x.1.type x.1.category) x.2 := by
  constructor
  · intro ends x member never
    have diverges := (encode_eq_diverges_iff mem x.1 x.2).mpr never
    cases result with
    | ok r =>
      obtain ⟨frame, made⟩ := from'.made r rfl x member
      simp [made] at diverges
    | error e => cases e <;> simp at compiles ends
  · intro finite diverges
    obtain ⟨x, member, stuck⟩ := from'.stuck diverges
    exact finite x member ((encode_eq_diverges_iff mem x.1 x.2).mp stuck)

end ComesFrom

namespace EntryPoint

/-- The argument is moved into the only message that `sendMultipart` builds. -/
def isMoved (before after : List Argument) (a : Argument) : Bool :=
  before.isEmpty && after.isEmpty && match a.type.type, a.category with
    | .multipart, .rvalue => true
    | _, _ => false

/-- A non-const lvalue is sent by the overload for `MultipartMessage &`. -/
def isSentWhole (a : Argument) : Bool :=
  match a.type.type, a.category with
  | .multipart, .lvalue => true
  | _, _ => false

/-- The encoding calls that an expression makes. -/
def calls (a : Argument) : EntryPoint → List (Argument × Call)
  | fromValue => [(a, .fromValue)]
  | construct | addArgument => [(a, .construct)]
  | assign => [(a, .assign)]
  | send => if isSentWhole a then [] else [({ a with category := .constLvalue }, .construct)]
  | addArguments before after => (passed (before ++ a :: after)).map fun x => (x, .function)
  | sendMultipart before after =>
    if isMoved before after a then []
    else (passed (before ++ a :: after)).map fun x => (x, .function)

theorem construct_of_moved (mem : Memory) (before after : List Argument) (a : Argument)
    (moved : isMoved before after a = true) :
    ∃ parts, MultipartMessage.construct mem (before ++ a :: after) = .ok parts := by
  obtain ⟨⟨t, adl⟩, c, v⟩ := a
  simp only [isMoved, Bool.and_eq_true, List.isEmpty_iff] at moved
  obtain ⟨⟨rfl, rfl⟩, only⟩ := moved
  cases t <;> cases c <;> first | exact ⟨v, rfl⟩ | simp at only

theorem frames_of_sent_whole (mem : Memory) (a : Argument) (whole : isSentWhole a = true) :
    ∃ parts, send.frames mem a = .ok parts := by
  obtain ⟨⟨t, adl⟩, c, v⟩ := a
  cases t <;> cases c <;> first | exact ⟨v, rfl⟩ | simp [isSentWhole] at whole

theorem construct_of_not_moved (mem : Memory) (before after : List Argument) (a : Argument)
    (notMoved : isMoved before after a = false) :
    MultipartMessage.construct mem (before ++ a :: after) =
        MultipartMessage.addArguments mem [] (before ++ a :: after) ∨
      MultipartMessage.construct mem (before ++ a :: after) = .error .illFormed := by
  by_cases single : ∃ b, before ++ a :: after = [b] ∧ b.type.type = .multipart
  · obtain ⟨b, alone, multipart⟩ := single
    obtain ⟨rfl, rfl, rfl⟩ : before = [] ∧ a = b ∧ after = [] := by
      simpa [List.append_eq_singleton_iff] using alone
    obtain ⟨⟨t, adl⟩, c, v⟩ := a
    simp only at multipart
    subst multipart
    cases c with
    | lvalue | constRvalue => exact Or.inl rfl
    | constLvalue => exact Or.inr rfl
    | rvalue => simp [isMoved] at notMoved
  · refine Or.inl (MultipartMessage.construct_eq_addArguments mem _ (by simp) ?_)
    exact fun b alone multipart => single ⟨b, alone, multipart⟩

theorem comesFrom_single (mem : Memory) (a : Argument) (call : Call) :
    ComesFrom mem [(a, call)] (do return [← encode mem a call]) := by
  have same : (do return [← encode mem a call]) =
      (encode mem a call).map fun frame => [frame] := by
    cases encode mem a call <;> rfl
  exact same ▸ (ComesFrom.ofEncode a call).map _

theorem send_comesFrom (mem : Memory) (a : Argument) :
    ComesFrom mem (send.calls a) (send.frames mem a) := by
  by_cases whole : isSentWhole a = true
  · obtain ⟨parts, sent⟩ := frames_of_sent_whole mem a whole
    rw [calls, if_pos whole, sent]
    exact .ofOk parts
  rw [calls, if_neg whole, frames_send mem a fun multipart lvalue => whole ?_]
  · by_cases pointer : a.type.type.isPointer = true
    · simp only [Outbox.sendValue, if_pos pointer]
      exact .illFormed
    · have sent := comesFrom_single mem { a with category := .constLvalue } .construct
      simp only [Outbox.sendValue, if_neg pointer]
      cases made : encode mem { a with category := .constLvalue } .construct with
      | error _ | ok _ =>
        rw [made] at sent
        exact sent
  · rw [isSentWhole, multipart, lvalue]

theorem sendMultipart_comesFrom (mem : Memory) (before after : List Argument) (a : Argument) :
    ComesFrom mem ((sendMultipart before after).calls a)
      ((sendMultipart before after).frames mem a) := by
  by_cases traits : traitCompiles (argumentTypes (before ++ a :: after)) = true
  · have same : (sendMultipart before after).frames mem a =
        MultipartMessage.construct mem (before ++ a :: after) := by
      simp only [frames, multipartToSend, if_pos traits, lastArgIsSendFlag_eq_false]
      cases MultipartMessage.construct mem (before ++ a :: after) <;> rfl
    rw [same]
    by_cases moved : isMoved before after a = true
    · obtain ⟨parts, built⟩ := construct_of_moved mem before after a moved
      rw [calls, if_pos moved, built]
      exact .ofOk parts
    · rw [calls, if_neg moved]
      rcases construct_of_not_moved mem before after a (by simpa using moved) with built | stuck
      · exact built ▸ ComesFrom.ofAddArguments [] _
      · exact stuck ▸ .illFormed
  · have same : (sendMultipart before after).frames mem a = .error .illFormed := by
      simp [frames, multipartToSend, traits]
    exact same ▸ .illFormed

theorem frames_comesFrom (mem : Memory) (e : EntryPoint) (a : Argument) :
    ComesFrom mem (e.calls a) (e.frames mem a) := by
  cases e with
  | fromValue | construct | assign | addArgument => exact comesFrom_single mem a _
  | send => exact send_comesFrom mem a
  | addArguments before after => exact ComesFrom.ofAddArguments [] _
  | sendMultipart before after => exact sendMultipart_comesFrom mem before after a

end EntryPoint

/-- An expression that compiles terminates exactly when none of its encoding calls goes round: an
argument that reaches its overload as a `zmq::message_t` rvalue that is not const, or has a type
that only the overload for messages takes, comes back to it, unless a constructor fills the
message first or the rvalue's specialization is found. -/
theorem encoding_terminates_iff (mem : Memory) (e : EntryPoint) (a : Argument)
    (compiles : e.frames mem a ≠ .error .illFormed) :
    e.frames mem a ≠ .error .diverges ↔
      ∀ x ∈ e.calls a, ¬ x.2.Loops x.1.type x.1.category := by
  rw [(e.frames_comesFrom mem a).terminates_iff compiles]
  simp only [Call.never_iff]

/-- `m = std::move(message)` with a `zmq::message_t` never returns. -/
theorem assign_zmqMessage_diverges :
    EntryPoint.assign.frames .zero ⟨CppType.zmqMessage.unspecialized, .rvalue, [1]⟩ =
        .error .diverges ∧
      Never (Call.next CppType.zmqMessage.unspecialized .rvalue) .assign := by
  have diverges : encode .zero ⟨CppType.zmqMessage.unspecialized, .rvalue, [1]⟩ .assign =
      .error .diverges := rfl
  exact ⟨rfl, (encode_eq_diverges_iff _ _ _).mp diverges⟩

theorem assign_string_terminates :
    EntryPoint.assign.frames .zero ⟨CppType.string.unspecialized, .rvalue, [1]⟩ ≠
      .error .diverges := by
  refine (encoding_terminates_iff .zero .assign _ ?_).mpr fun x member => ?_
  · simp [show EntryPoint.assign.frames .zero ⟨CppType.string.unspecialized, .rvalue, [1]⟩ =
      .ok [[1]] from rfl]
  · rw [List.mem_singleton.mp member]
    rintro ⟨on, _⟩
    simp [CppType.CallsOn, CppType.isStandardLayout] at on

end OfxZeroMQ
