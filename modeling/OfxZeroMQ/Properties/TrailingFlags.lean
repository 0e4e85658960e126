import OfxZeroMQ.Properties.RoundTrip

/-!
# Flags at the end of an argument list

`sendMultipart` and `receiveMultipart` never recognize a trailing flag: it is one more value
to send, and one more destination to fill.
-/
namespace OfxZeroMQ

open Foundation.Framing
open Foundation.Overload (Rank Conversion)

/-! ### Sending -/

def flagArgument (c : Category) (f : SendFlag) : Argument :=
  ⟨CppType.sendFlag.unspecialized, c, f⟩

theorem passed_append (args : List Argument) (nonempty : args ≠ []) (a : Argument) :
    passed (args ++ [a]) = passed args ++ [a] := by
  cases args with
  | nil => exact absurd rfl nonempty
  | cons datum data => rfl

/-- Where both messages can be made, the flag is a frame of its own behind the others. -/
theorem construct_flag (mem : Memory) (data : List Argument) (nonempty : data ≠ [])
    (c : Category) (f : SendFlag) (message flagged : MultipartMessage)
    (built : MultipartMessage.construct mem data = .ok message)
    (withFlag : MultipartMessage.construct mem (data ++ [flagArgument c f]) = .ok flagged) :
    flagged = message ++ [f.representation.bytes] := by
  have encoded : MultipartMessage.convert mem (flagArgument c f) = .ok f.representation.bytes :=
    encode_function mem CppType.sendFlag.unspecialized c f rfl (by simp)
  rw [MultipartMessage.construct_eq_addArguments mem _ (by simp) ?_,
    MultipartMessage.addArguments_eq_ok] at withFlag
  · obtain ⟨_, frames, mapped, rfl⟩ := withFlag
    rw [passed_append data nonempty, List.map_append, List.map_cons, List.map_nil,
      encoded] at mapped
    rcases MultipartMessage.construct_eq_ok mem data message nonempty built with
      added | ⟨adl, rfl⟩
    · obtain ⟨_, others, found, rfl⟩ :=
        (MultipartMessage.addArguments_eq_ok mem [] data message).mp added
      rw [found, ← List.map_singleton, ← List.map_append] at mapped
      have same := (List.map_inj_right fun _ _ => Except.ok.inj).mp mapped
      simpa using same.symm
    · -- the message was moved, but with the flag behind it, it would have to be a frame
      have diverges : MultipartMessage.convert mem
          (Argument.named ⟨⟨.multipart, adl⟩, .rvalue, message⟩) = .error .diverges :=
        MultipartMessage.convert_multipart mem adl message
      rw [passed, List.map_cons, diverges] at mapped
      cases flagged <;> simp at mapped
  · intro a alone
    have count := congrArg List.length alone
    have some_data := List.length_pos_iff.mpr nonempty
    simp only [List.length_append, List.length_cons, List.length_nil] at count
    omega

theorem nonempty_of_traitCompiles (data : List Argument)
    (compiles : traitCompiles (argumentTypes data) = true) : data ≠ [] := by
  rintro rfl
  exact absurd compiles (by decide)

theorem Outbox.sendMultipart_eq_ok (mem : Memory) (o : Outbox) (room : Nat → Bool)
    (accepts : ∀ i, room i = true) (data : List Argument) (r : Option Nat) (sent : Outbox)
    (succeeds : o.sendMultipart mem room data = .ok (r, sent)) :
    traitCompiles (argumentTypes data) = true ∧
      ∃ message, MultipartMessage.construct mem data = .ok message ∧
        sent = ⟨o.assembly.pushAll (mark message),
          o.calls ++ (mark message).map (SendCall.ofMarked true)⟩ := by
  cases toSend : multipartToSend mem data with
  | error e => simp [Outbox.sendMultipart, toSend] at succeeds
  | ok result =>
    obtain ⟨compiles, built, _⟩ := (multipartToSend_eq_ok mem data _ _).mp toSend
    have accepted := Outbox.sendMultipart_accepted mem o room data result.1 compiles built
      fun i _ => accepts i
    rw [accepted, Except.ok.injEq, Prod.mk.injEq] at succeeds
    exact ⟨compiles, result.1, built, succeeds.2.symm⟩

theorem pushAll_mark_ne (a : Assembly Bytes) (xs ys : List Bytes) (y : Bytes)
    (longer : ys = xs ++ [y]) : a.pushAll (mark ys) ≠ a.pushAll (mark xs) := by
  intro same
  rw [pushAll_mark a ys (by simp [longer])] at same
  cases xs with
  | nil =>
    have count := congrArg (fun b => b.delivered.length) same
    simp [mark, Assembly.pushAll] at count
  | cons x xs =>
    rw [pushAll_mark a (x :: xs) (by simp)] at same
    simp [longer] at same

/-- No trailing `SendFlag` leaves the message as it is: where the call without the flag
succeeds, the call with it does not compile or delivers one frame more. -/
theorem sendMultipart_flag_ne (mem : Memory) (data : List Argument) (c : Category)
    (f : SendFlag) (o : Outbox) (room : Nat → Bool) (accepts : ∀ i, room i = true)
    (r : Option Nat) (sent : Outbox) (plain : o.sendMultipart mem room data = .ok (r, sent)) :
    ¬ ∃ s flagged, o.sendMultipart mem room (data ++ [flagArgument c f]) = .ok (s, flagged) ∧
      flagged.assembly = sent.assembly ∧
      ∀ call ∈ flagged.calls.drop o.calls.length, call.flags.has ZMQ_DONTWAIT = f.nonblocking := by
  rintro ⟨s, flagged, withFlag, same, _⟩
  obtain ⟨compiles, message, built, rfl⟩ :=
    Outbox.sendMultipart_eq_ok mem o room accepts data r sent plain
  obtain ⟨_, longer, rebuilt, rfl⟩ :=
    Outbox.sendMultipart_eq_ok mem o room accepts _ s flagged withFlag
  have extended := construct_flag mem data (nonempty_of_traitCompiles data compiles) c f message
    longer built rebuilt
  exact pushAll_mark_ne o.assembly message longer _ extended same

/-- `sendMultipart(std::string{"a"}, SendFlagNone)` delivers two frames, without waiting. -/
theorem sendMultipart_flagNone :
    let data : List Argument := [⟨CppType.string.unspecialized, .rvalue, [97]⟩]
    let none : SendFlag := ⟨false, false⟩
    ∃ sent flagged, Outbox.idle.sendMultipart .zero (fun _ => true) data = .ok (some 1, sent) ∧
      Outbox.idle.sendMultipart .zero (fun _ => true) (data ++ [flagArgument .constLvalue none]) =
        .ok (some 1, flagged) ∧
      sent.assembly.delivered = [[[97]]] ∧ flagged.assembly.delivered = [[[97], [0, 0]]] ∧
      ∀ call ∈ flagged.calls, call.flags.has ZMQ_DONTWAIT ≠ none.nonblocking := by
  refine ⟨_, _, rfl, rfl, rfl, rfl, ?_⟩
  decide

theorem sendMultipart_flagNone_ne :
    ¬ ∃ s flagged, Outbox.idle.sendMultipart .zero (fun _ => true)
        ([⟨CppType.string.unspecialized, .rvalue, [97]⟩] ++
          [flagArgument .constLvalue ⟨false, false⟩]) = .ok (s, flagged) ∧
      flagged.assembly = ⟨[[[97]]], []⟩ ∧
      ∀ call ∈ flagged.calls, call.flags.has ZMQ_DONTWAIT = false :=
  sendMultipart_flag_ne .zero [⟨CppType.string.unspecialized, .rvalue, [97]⟩] .constLvalue
    ⟨false, false⟩ .idle (fun _ => true) (fun _ => rfl) (some 1)
    ⟨⟨[[[97]]], []⟩, [⟨[97], ZMQ_DONTWAIT⟩]⟩ rfl

/-! ### Receiving -/

def flagDestination (f : ReceiveFlag) (writes : Nat) : Destination :=
  ⟨CppType.receiveFlag.unspecialized, f, writes⟩

/-- The candidates for two destinations or more: all that matters is how the first one converts
to `std::size_t`, and whether there is a third. -/
def ConvertTo.conversionOf (r : Option Rank) (pair : Bool) : ConvertTo → Option Conversion
  | variadic => some ⟨.exact, some ⟨false, false⟩⟩
  | last => if pair then r.map fun r => ⟨r, none⟩ else none
  | step => r.map fun r => ⟨r, none⟩

theorem ConvertTo.conversion_eq (first second : CppType) (types : List CppType) :
    conversion (first :: second :: types) = conversionOf first.toSize types.isEmpty := by
  funext f
  cases f with
  | variadic | step => rfl
  | last => cases types <;> rfl

/-- With two destinations or more, only a first one of type `std::size_t` selects a
protected overload. -/
theorem isAccessible_iff (first second : CppType) (types : List CppType) :
    ConvertTo.isAccessible (first :: second :: types) = true ↔ first.toSize ≠ some .exact := by
  rw [ConvertTo.isAccessible, ConvertTo.conversion_eq]
  cases first.toSize with
  | none => cases types.isEmpty <;> decide
  | some r => cases types.isEmpty <;> cases r <;> decide

/-- A flag behind two destinations or more does not change whether the call compiles. -/
theorem receiveCompiles_flag (data : List Destination) (several : 2 ≤ data.length)
    (compiles : receiveCompiles data = true) (f : ReceiveFlag) (writes : Nat) :
    receiveCompiles (data ++ [flagDestination f writes]) = true := by
  match data with
  | [] | [_] => simp at several
  | d :: e :: data =>
    simp only [receiveCompiles, traitCompiles, destinationTypes, lastArgIsReceiveFlag_eq_false,
      Bool.and_eq_true, Bool.false_or, List.map_cons, List.cons_append, List.map_append,
      isAccessible_iff] at compiles ⊢
    obtain ⟨⟨⟨_, traits⟩, decodable⟩, accessible⟩ := compiles
    refine ⟨⟨⟨rfl, ?_⟩, ?_⟩, accessible⟩
    · simpa [flagDestination, CppType.isDefaultConstructible] using traits
    · have flag : (CppType.receiveFlag.unspecialized).isDecodable = true := rfl
      simpa [flagDestination, flag] using decodable

/-- The call with the flag does what the call without it does, leaves the flag alone, and
receives in the flag's mode. -/
def FlagHonoured (mem : Memory) (i : Inbox) (data : List Destination) (f : ReceiveFlag)
    (writes : Nat) : Prop :=
  ∃ result after rest rest', i.receiveMultipart mem data = .ok (result, after, rest) ∧
    i.receiveMultipart mem (data ++ [flagDestination f writes]) =
      .ok (result, after ++ [flagDestination f writes], rest') ∧
    ∀ flags ∈ rest'.calls.drop i.calls.length, flags.has ZMQ_DONTWAIT = f.nonblocking

section QueuedMessage

variable (mem : Memory) (data : List Destination) (f : ReceiveFlag) (writes : Nat)
  (frames : List Bytes) (nonempty : frames ≠ []) (queue : List (Bytes × Bool))
  (calls : List Flags)

include nonempty

/-- The flag is one destination more, filled with the frame behind those of the others. -/
theorem receiveMultipart_withFlag
    (flagged : receiveCompiles (data ++ [flagDestination f writes]) = true) :
    Inbox.receiveMultipart mem ⟨mark frames ++ queue, calls⟩ (data ++ [flagDestination f writes]) =
      .ok (some (decide (data.length + 1 ≤ frames.length)),
        fill mem frames data ++
          fill mem (frames.drop data.length) [flagDestination f writes],
        ⟨queue, calls ++ List.replicate frames.length ReceiveFlag.default.toFlags⟩) := by
  rw [Inbox.receiveMultipart_mark mem _ flagged frames nonempty queue calls, fill_append,
    List.length_append, List.length_singleton]

omit nonempty in
theorem fill_flag_ne (more : data.length < frames.length) :
    fill mem (frames.drop data.length) [flagDestination f writes] ≠
      [flagDestination f writes] := by
  intro untouched
  have written := congrArg (List.map Destination.writes) untouched
  rw [List.drop_eq_getElem_cons more] at written
  simp [fill, Destination.store, flagDestination] at written

/-- Where the flag is honoured, both calls report the same although they count a different
number of destinations, the flag was not written, and its mode is the default. -/
theorem few_frames_of_flagHonoured (compiles : receiveCompiles data = true)
    (honoured : FlagHonoured mem ⟨mark frames ++ queue, calls⟩ data f writes) :
    frames.length < data.length ∧ f.nonblocking = true := by
  obtain ⟨result, filled, rest, rest', first, second, modes⟩ := honoured
  have flagged : receiveCompiles (data ++ [flagDestination f writes]) = true := by
    by_contra ill
    simp [Inbox.receiveMultipart, ill] at second
  have plain :=
    (Inbox.receiveMultipart_mark mem data compiles frames nonempty queue calls).symm.trans first
  have withFlag := (receiveMultipart_withFlag mem data f writes frames nonempty queue calls
    flagged).symm.trans second
  simp only [Except.ok.injEq, Prod.mk.injEq] at plain withFlag
  obtain ⟨rfl, rfl, rfl⟩ := plain
  obtain ⟨results, appended, rfl⟩ := withFlag
  have some_frames := List.length_pos_iff.mpr nonempty
  constructor
  · by_contra enough
    rcases Nat.lt_or_ge data.length frames.length with more | same
    · apply fill_flag_ne mem data f writes frames more
      exact List.append_cancel_left appended
    · simp at results
      omega
  · have mode := modes ReceiveFlag.default.toFlags (by simp [some_frames.ne'])
    rw [ReceiveFlag.has_dontwait] at mode
    exact mode.symm

/-- Without a frame for the last destination, decoding stops before it comes to the flag. -/
theorem flagHonoured_of_few_frames (compiles : receiveCompiles data = true)
    (few : frames.length < data.length) (nonblocking : f.nonblocking = true) :
    FlagHonoured mem ⟨mark frames ++ queue, calls⟩ data f writes := by
  have some_frames := List.length_pos_iff.mpr nonempty
  have flagged := receiveCompiles_flag data (by omega) compiles f writes
  have nothing : frames.drop data.length = [] := List.drop_eq_nil_of_le (by omega)
  let rest : Inbox := ⟨queue, calls ++ List.replicate frames.length ReceiveFlag.default.toFlags⟩
  refine ⟨_, _, rest, rest, Inbox.receiveMultipart_mark mem data compiles frames nonempty queue
    calls, ?_, ?_⟩
  · rw [receiveMultipart_withFlag mem data f writes frames nonempty queue calls flagged, nothing]
    simp [fill, rest]
    omega
  · intro flags member
    simp only [rest, List.drop_left, List.mem_replicate] at member
    rw [member.2, ReceiveFlag.has_dontwait, nonblocking]
    rfl

/-- The call without a flag fills the destinations as far as the frames reach. A trailing
`ReceiveFlag` is honoured exactly when the message has too few frames for the other
destinations, so that decoding never reaches the flag, and the flag asks for the default
mode. -/
theorem receiveMultipart_flag_iff (compiles : receiveCompiles data = true) :
    (∃ rest, Inbox.receiveMultipart mem ⟨mark frames ++ queue, calls⟩ data =
      .ok (some (decide (data.length ≤ frames.length)), fill mem frames data, rest)) ∧
    (FlagHonoured mem ⟨mark frames ++ queue, calls⟩ data f writes ↔
      frames.length < data.length ∧ f.nonblocking = true) := by
  constructor
  · exact ⟨_, Inbox.receiveMultipart_mark mem data compiles frames nonempty queue calls⟩
  · constructor
    · exact few_frames_of_flagHonoured mem data f writes frames nonempty queue calls compiles
    · rintro ⟨few, nonblocking⟩
      exact flagHonoured_of_few_frames mem data f writes frames nonempty queue calls compiles few
        nonblocking

end QueuedMessage

def stringDestination : Destination := ⟨CppType.string.unspecialized, [], 0⟩

/-- One frame for one string: with the flag the call fails, though the string was received,
and it did not wait. -/
theorem receiveMultipart_flagNone :
    let inbox : Inbox := ⟨[([97], false)], []⟩
    let received : Destination := ⟨CppType.string.unspecialized, [97], 1⟩
    inbox.receiveMultipart .zero [stringDestination] =
        .ok (some true, [received], ⟨[], [ZMQ_DONTWAIT]⟩) ∧
      inbox.receiveMultipart .zero [stringDestination, flagDestination ⟨false⟩ 0] =
        .ok (some false, [received, flagDestination ⟨false⟩ 0], ⟨[], [ZMQ_DONTWAIT]⟩) ∧
      ¬ FlagHonoured .zero inbox [stringDestination] ⟨false⟩ 0 := by
  refine ⟨rfl, rfl, ?_⟩
  rintro ⟨result, after, rest, rest', first, second, _⟩
  have plain : Except.ok (some true, _, _) = Except.ok (ε := Stuck) (result, after, rest) := first
  have flagged : Except.ok (some false, _, _) =
      Except.ok (ε := Stuck) (result, after ++ [flagDestination ⟨false⟩ 0], rest') := second
  have failed := congrArg Prod.fst (Except.ok.inj flagged)
  rw [← congrArg Prod.fst (Except.ok.inj plain)] at failed
  exact absurd failed (by simp)

/-- One frame for two strings, and a flag that asks for the default. -/
theorem receiveMultipart_flagNonblocking :
    FlagHonoured .zero ⟨[([97], false)], []⟩ [stringDestination, stringDestination] ⟨true⟩ 0 :=
  (receiveMultipart_flag_iff .zero [stringDestination, stringDestination] ⟨true⟩ 0 [[97]]
    (by simp) [] [] rfl).2.mpr ⟨by decide, rfl⟩

end OfxZeroMQ
