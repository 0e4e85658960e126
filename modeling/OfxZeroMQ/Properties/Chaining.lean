import OfxZeroMQ.Properties.Encoding

/-!
# Chains of sends

Several sends on one socket form one message when each but the last announces more. A single
send does announce it; the send of a `MultipartMessage` clears the bit from its flags.
-/
namespace OfxZeroMQ

open Foundation.Framing Foundation.Traverse

/-- A call of `Socket::send`. -/
inductive SendRequest where
  | value (t : Convertible) (data : t.type.Val) (flag : SendFlag)
  | message (mess : MultipartMessage) (flag : SendFlag)

namespace SendRequest

def flag : SendRequest → SendFlag
  | value _ _ flag => flag
  | message _ flag => flag

def isMessage : SendRequest → Bool
  | value _ _ _ => false
  | message _ _ => true

/-- One call on a socket that accepts every frame. -/
def issue (mem : Memory) (o : Outbox) : SendRequest → Except Stuck Outbox
  | value t data flag => do
    let (_, o) ← o.sendValue mem true t data flag
    return o
  | message mess flag => do
    let (_, _, o) := o.sendMessage (fun _ => true) mess flag
    return o

def issueAll (mem : Memory) (o : Outbox) (requests : List SendRequest) : Except Stuck Outbox :=
  requests.foldlM (issue mem) o

/-- The value types that both `send` and `sendMultipart` take. -/
def Supports (t : CppType) : Prop :=
  t.isEncodable = true ∧ t.isDefaultConstructible = true ∧ t.isPointer = false ∧ t ≠ .message

/-- A supported value, or a multipart message with at least one frame. -/
def IsSupported : SendRequest → Prop
  | value t _ _ => Supports t.type
  | message mess _ => mess ≠ []

/-- The frame of a single value: `Message{data}` with a const lvalue finds the constructors
for a size and for a range before the forwarding template. -/
def singleFrame (mem : Memory) (t : CppType) (v : t.Val) : Bytes :=
  match t.asSize v with
  | some n => (List.range n).map mem.fresh
  | none => if t.isRange then (t.asRange v).getD [] else t.encoding v

def frames (mem : Memory) : SendRequest → List Bytes
  | value t data _ => [singleFrame mem t.type data]
  | message mess _ => mess

/-- The frames as they reach the socket: a multipart message always ends a message. -/
def stream (mem : Memory) : SendRequest → List (Bytes × Bool)
  | value t data flag => [(singleFrame mem t.type data, flag.more)]
  | message mess _ => mark mess

theorem exists_value (r : SendRequest) (single : r.isMessage = false) :
    ∃ t data flag, r = .value t data flag := by
  cases r with
  | value t data flag => exact ⟨t, data, flag, rfl⟩
  | message mess flag => simp [isMessage] at single

/-! ### One call -/

theorem asSize_eq_none (t : CppType) (v : t.Val) (notSizeT : t ≠ .sizeT) : t.asSize v = none := by
  cases t with
  | sizeT => exact absurd rfl notSizeT
  | _ => rfl

theorem asRange_isSome (t : CppType) (v : t.Val) (range : t.isRange = true) :
    ∃ bytes, t.asRange v = some bytes := by
  cases t with
  | ofJson k _ | userClass k =>
    obtain ⟨elements, found⟩ := Option.isSome_iff_exists.mp range
    exact ⟨elements v, by simp [CppType.asRange, found]⟩
  | array _ _ | string | vector _ | ofBuffer | ofPixels _ => exact ⟨_, rfl⟩
  | _ => exact absurd range (by simp [CppType.isRange])

theorem encode_single (mem : Memory) (t : Convertible) (v : t.type.Val)
    (supported : Supports t.type) :
    encode mem ⟨t, .constLvalue, v⟩ .construct = .ok (singleFrame mem t.type v) := by
  obtain ⟨encodable, _, _, notMessage⟩ := supported
  by_cases sizeT : t.type = .sizeT
  · obtain ⟨t, adl⟩ := t
    simp only at sizeT
    subst sizeT
    have ends := Call.ends_construct_ctor ⟨.sizeT, adl⟩ .constLvalue .size rfl (by simp) (by simp)
    exact encode_eq_ok mem _ _ _ (Message.empty.rebuildSize mem (littleEndian v.bytes)) ends rfl
  have notSize := t.type.toSize_ne sizeT
  simp only [singleFrame, asSize_eq_none t.type v sizeT]
  by_cases range : t.type.isRange = true
  · obtain ⟨bytes, elements⟩ := asRange_isSome t.type v range
    have ends := Call.ends_construct_ctor t .constLvalue .range
      (MessageCtor.selected_range t.type range notSize) (by simp) (by simp)
    rw [if_pos range, elements, Option.getD_some]
    exact encode_eq_ok mem _ _ _ ⟨bytes⟩ ends
      (by simp [Encoder.result, MessageCtor.result, elements])
  rw [if_neg range]
  by_cases zmqMessage : t.type = .zmqMessage
  · obtain ⟨t, adl⟩ := t
    simp only at zmqMessage
    subst zmqMessage
    have ends := Call.ends_construct_ctor ⟨.zmqMessage, adl⟩ .constLvalue .base rfl (by simp)
      (by simp)
    exact encode_eq_ok mem _ _ _ ⟨v⟩ ends rfl
  · exact EntryPoint.frame_eq mem t v .constLvalue .send encodable
      (Or.inr (by simp [EntryPoint.category])) zmqMessage notMessage (fun _ => notSize)
      (fun _ _ isRange => absurd isRange range)

theorem issue_eq (mem : Memory) (o : Outbox) (r : SendRequest) (supported : r.IsSupported) :
    ∃ sent, issue mem o r = .ok sent ∧ sent.assembly = o.assembly.pushAll (r.stream mem) := by
  cases r with
  | value t data flag =>
    have notPointer : ¬ t.type.isPointer = true := by simp [supported.2.2.1]
    have sent := Outbox.send_accepted o true (singleFrame mem t.type data) flag fun _ => rfl
    refine ⟨(o.send true (singleFrame mem t.type data) flag.toFlags).2, ?_, by rw [sent]; rfl⟩
    simp only [issue, Outbox.sendValue, if_neg notPointer, encode_single mem t data supported,
      ok_bind, pure_eq_ok]
  | message mess flag =>
    have sent := mess.send_accepted (fun _ => true) flag o fun _ _ _ => rfl
    exact ⟨(mess.send (fun _ => true) flag.toFlags o).2.2, rfl, by rw [sent]; rfl⟩

theorem issueAll_eq (mem : Memory) (o : Outbox) (requests : List SendRequest)
    (supported : ∀ r ∈ requests, r.IsSupported) :
    ∃ sent, issueAll mem o requests = .ok sent ∧
      sent.assembly = o.assembly.pushAll (requests.flatMap (stream mem)) := by
  induction requests generalizing o with
  | nil => exact ⟨o, rfl, rfl⟩
  | cons r requests ih =>
    obtain ⟨next, first, assembly⟩ := issue_eq mem o r (supported r (by simp))
    obtain ⟨sent, others, final⟩ := ih next fun q member => supported q (by simp [member])
    refine ⟨sent, ?_, ?_⟩
    · simp only [issueAll] at others
      simp only [issueAll, List.foldlM_cons, first, ok_bind, others]
    · rw [final, assembly, List.flatMap_cons, pushAll_append]

/-! ### A chain of calls -/

/-- Calls on single values that announce more only extend the unfinished message. -/
theorem pushAll_stream_values (mem : Memory) (a : Assembly Bytes) (requests : List SendRequest)
    (more : ∀ r ∈ requests, r.flag.more = true)
    (values : ∀ r ∈ requests, r.isMessage = false) :
    a.pushAll (requests.flatMap (stream mem)) =
      { a with pending := a.pending ++ requests.flatMap (frames mem) } := by
  have marked : requests.flatMap (stream mem) =
      (requests.flatMap (frames mem)).map fun frame => (frame, true) := by
    induction requests with
    | nil => rfl
    | cons r requests ih =>
      rw [List.flatMap_cons, List.flatMap_cons, List.map_append,
        ih (fun q member => more q (by simp [member])) fun q member => values q (by simp [member])]
      obtain ⟨t, data, flag, rfl⟩ := exists_value r (values r (by simp))
      have first : flag.more = true := more (.value t data flag) (by simp)
      simp [stream, frames, first]
  rw [marked, pushAll_more]

/-- The last call completes the message. -/
theorem pushAll_stream_last (mem : Memory) (a : Assembly Bytes) (last : SendRequest)
    (supported : last.IsSupported) (final : last.flag.more = false) :
    a.pushAll (last.stream mem) = ⟨a.delivered ++ [a.pending ++ last.frames mem], []⟩ := by
  cases last with
  | value t data flag =>
    have bit : flag.more = false := final
    simp [stream, frames, Assembly.pushAll, Assembly.push, bit]
  | message mess flag => exact pushAll_mark a mess supported

theorem countP_stream (mem : Memory) (requests : List SendRequest)
    (supported : ∀ r ∈ requests, r.IsSupported) (more : ∀ r ∈ requests, r.flag.more = true) :
    (requests.flatMap (stream mem)).countP (fun x => !x.2) = requests.countP isMessage := by
  induction requests with
  | nil => rfl
  | cons r requests ih =>
    rw [List.flatMap_cons, List.countP_append, List.countP_cons,
      ih (fun q member => supported q (by simp [member])) fun q member => more q (by simp [member])]
    cases r with
    | value t data flag =>
      have first : flag.more = true := more (.value t data flag) (by simp)
      simp [stream, isMessage, first]
    | message mess flag =>
      have one := countP_mark mess (supported (.message mess flag) (by simp))
      simp only [stream, one, isMessage, if_true]
      omega

/-! ### The same values in one call -/

/-- The value of a single send as an argument of `sendMultipart`. -/
def argument (c : Category) : SendRequest → Option Argument
  | value t data _ => some ⟨t, c, data⟩
  | message _ _ => none

/-- Single send and `sendMultipart` make the same frame of the value. -/
def Agrees : SendRequest → Prop
  | value t data _ => t.type ≠ .sizeT ∧
      (t.type.isRange = true → t.type.asRange data = some (t.type.encoding data))
  | message _ _ => True

/-- The frames `sendMultipart` makes. -/
def encodings : SendRequest → List Bytes
  | value t data _ => [t.type.encoding data]
  | message mess _ => mess

theorem agrees_iff (r : SendRequest) : r.Agrees ↔ ∀ mem, r.frames mem = r.encodings := by
  cases r with
  | message mess flag => simp [Agrees, frames, encodings]
  | value t data flag =>
    simp only [Agrees, frames, encodings, List.cons.injEq, and_true]
    by_cases sizeT : t.type = .sizeT
    · obtain ⟨t, adl⟩ := t
      simp only at sizeT
      subst sizeT
      obtain ⟨mem, different⟩ := exists_fresh_ne data (littleEndian data.bytes)
      exact iff_of_false (by simp) fun same => different (same mem)
    · simp only [singleFrame, asSize_eq_none t.type data sizeT]
      by_cases range : t.type.isRange = true
      · obtain ⟨bytes, elements⟩ := asRange_isSome t.type data range
        simp [sizeT, range, elements]
      · simp [sizeT, range]

/-- The arguments of the one call, where all the calls are on single values. -/
theorem mem_arguments (c : Category) (requests : List SendRequest) (a : Argument)
    (member : a ∈ requests.filterMap (argument c)) :
    a.category = c ∧ ∃ flag, SendRequest.value a.type a.value flag ∈ requests := by
  obtain ⟨r, found, same⟩ := List.mem_filterMap.mp member
  cases r with
  | value t data flag =>
    simp only [argument, Option.some.injEq] at same
    subst same
    exact ⟨rfl, flag, found⟩
  | message mess flag => simp [argument] at same

theorem map_convert (mem : Memory) (c : Category) (named : c ≠ .rvalue)
    (requests : List SendRequest) (supported : ∀ r ∈ requests, r.IsSupported)
    (values : ∀ r ∈ requests, r.isMessage = false) :
    (requests.filterMap (argument c)).map (MultipartMessage.convert mem) =
      (requests.flatMap encodings).map .ok := by
  induction requests with
  | nil => rfl
  | cons r requests ih =>
    have others := ih (fun q member => supported q (by simp [member]))
      fun q member => values q (by simp [member])
    obtain ⟨t, data, flag, rfl⟩ := exists_value r (values r (by simp))
    have first : MultipartMessage.convert mem ⟨t, c, data⟩ = .ok (t.type.encoding data) :=
      encode_function mem t c data (supported (.value t data flag) (by simp)).1 fun _ => named
    simp [argument, encodings, first, others]

theorem construct_values (mem : Memory) (c : Category) (named : c ≠ .rvalue)
    (requests : List SendRequest) (nonempty : requests ≠ [])
    (supported : ∀ r ∈ requests, r.IsSupported) (values : ∀ r ∈ requests, r.isMessage = false) :
    traitCompiles (argumentTypes (requests.filterMap (argument c))) = true ∧
      MultipartMessage.construct mem (requests.filterMap (argument c)) =
        .ok (requests.flatMap encodings) := by
  have some_arguments : requests.filterMap (argument c) ≠ [] := by
    cases requests with
    | nil => exact absurd rfl nonempty
    | cons r requests =>
      obtain ⟨t, data, flag, rfl⟩ := exists_value r (values r (by simp))
      simp [argument]
  have supports (a : Argument) (member : a ∈ requests.filterMap (argument c)) :
      Supports a.type.type := by
    obtain ⟨_, flag, found⟩ := mem_arguments c requests a member
    exact supported _ found
  constructor
  · simp only [traitCompiles, argumentTypes, Bool.and_eq_true, List.all_eq_true]
    refine ⟨by simpa using some_arguments, ?_⟩
    intro t member
    obtain ⟨a, found, rfl⟩ := List.mem_map.mp member
    exact (supports a found).2.1
  · rw [MultipartMessage.construct_eq_addArguments mem _ some_arguments ?_,
      MultipartMessage.addArguments_eq_ok]
    · refine ⟨some_arguments, requests.flatMap encodings, ?_, rfl⟩
      cases requests with
      | nil => exact absurd rfl nonempty
      | cons r requests =>
        obtain ⟨t, data, flag, rfl⟩ := exists_value r (values r (by simp))
        have others := map_convert mem c named requests
          (fun q member => supported q (by simp [member]))
          fun q member => values q (by simp [member])
        -- the first argument is passed on by name, and encoded in the same way
        have first : MultipartMessage.convert mem ⟨t, c.named, data⟩ =
            .ok (t.type.encoding data) :=
          encode_function mem t c.named data (supported (.value t data flag) (by simp)).1
            fun _ => c.named_ne_rvalue
        simp [argument, passed, Argument.named, encodings, first, others]
    · intro a single multipart
      have encodable := (supports a (by simp [single])).1
      rw [multipart] at encodable
      exact absurd encodable (by decide)

end SendRequest

/-- The chain leaves exactly one message, the concatenation of the frames of its calls, and
where all calls are on single values the same message as one `sendMultipart`. -/
def FormsOneMessage (mem : Memory) (o : Outbox) (c : Category) (requests : List SendRequest) :
    Prop :=
  ∃ sent, SendRequest.issueAll mem o requests = .ok sent ∧
    sent.assembly = ⟨o.assembly.delivered ++ [requests.flatMap (SendRequest.frames mem)], []⟩ ∧
    ((∀ r ∈ requests, r.isMessage = false) →
      ∃ result whole, o.sendMultipart mem (fun _ => true)
          (requests.filterMap (SendRequest.argument c)) = .ok (result, whole) ∧
        whole.assembly = sent.assembly)

section Chain

variable (o : Outbox) (init : List SendRequest) (last : SendRequest)
  (supported : ∀ r ∈ init ++ [last], r.IsSupported)

include supported

theorem pushAll_chain (idle : o.assembly.pending = []) (more : ∀ r ∈ init, r.flag.more = true)
    (final : last.flag.more = false) (mem : Memory) (values : ∀ r ∈ init, r.isMessage = false) :
    o.assembly.pushAll ((init ++ [last]).flatMap (SendRequest.stream mem)) =
      ⟨o.assembly.delivered ++ [(init ++ [last]).flatMap (SendRequest.frames mem)], []⟩ := by
  simp only [List.flatMap_append, List.flatMap_singleton, pushAll_append,
    SendRequest.pushAll_stream_values mem o.assembly init more values,
    SendRequest.pushAll_stream_last mem _ last (supported last (by simp)) final, idle,
    List.nil_append]

/-- One message more means that no call but the last ended a message. -/
theorem values_of_delivered (more : ∀ r ∈ init, r.flag.more = true)
    (final : last.flag.more = false) (mem : Memory)
    (one : (o.assembly.pushAll ((init ++ [last]).flatMap (SendRequest.stream mem))).delivered.length
      = o.assembly.delivered.length + 1) : ∀ r ∈ init, r.isMessage = false := by
  have ended : ((last.stream mem).countP fun x => !x.2) = 1 := by
    cases last with
    | value t data flag =>
      have bit : flag.more = false := final
      simp [SendRequest.stream, bit]
    | message mess flag => exact countP_mark mess (supported (.message mess flag) (by simp))
  rw [length_delivered_pushAll, List.flatMap_append, List.flatMap_singleton, List.countP_append,
    SendRequest.countP_stream mem init (fun r member => supported r (by simp [member])) more,
    ended] at one
  have none : init.countP SendRequest.isMessage = 0 := by omega
  simpa [List.countP_eq_zero] using none

/-- The message of one `sendMultipart` with the same values. -/
theorem sendMultipart_values (idle : o.assembly.pending = []) (mem : Memory) (c : Category)
    (named : c ≠ .rvalue) (values : ∀ r ∈ init ++ [last], r.isMessage = false) :
    ∃ result sent, o.sendMultipart mem (fun _ => true)
        ((init ++ [last]).filterMap (SendRequest.argument c)) = .ok (result, sent) ∧
      sent.assembly = ⟨o.assembly.delivered ++
        [(init ++ [last]).flatMap SendRequest.encodings], []⟩ := by
  obtain ⟨compiles, built⟩ := SendRequest.construct_values mem c named (init ++ [last])
    (by simp) supported values
  refine ⟨_, _, Outbox.sendMultipart_accepted mem o _ _ _ compiles built fun _ _ => rfl, ?_⟩
  have nonempty : (init ++ [last]).flatMap SendRequest.encodings ≠ [] := by
    obtain ⟨t, data, flag, rfl⟩ := SendRequest.exists_value last (values last (by simp))
    simp [SendRequest.encodings]
  simp only [pushAll_mark o.assembly _ nonempty, idle, List.nil_append]

end Chain

/-- Frame by frame, the two messages are the same in every memory only if each value is
encoded the same way. -/
theorem flatMap_frames_iff (requests : List SendRequest)
    (values : ∀ r ∈ requests, r.isMessage = false) :
    (∀ mem, requests.flatMap (SendRequest.frames mem) = requests.flatMap SendRequest.encodings) ↔
      ∀ r ∈ requests, r.Agrees := by
  induction requests with
  | nil => simp
  | cons r requests ih =>
    have others := ih fun q member => values q (by simp [member])
    have single (mem : Memory) : (r.frames mem).length = r.encodings.length := by
      cases r <;> rfl
    simp only [List.flatMap_cons, List.forall_mem_cons, SendRequest.agrees_iff] at others ⊢
    constructor
    · intro same
      -- either way a value makes one frame, so that the frames line up
      have split (mem : Memory) := List.append_inj (same mem) (single mem)
      exact ⟨fun mem => (split mem).1, others.mp fun mem => (split mem).2⟩
    · rintro ⟨first, rest⟩ mem
      rw [first mem, others.mpr rest mem]

/-- Chained sends form one message exactly when none but the last is the send of a
`MultipartMessage`. They form the message of `sendMultipart` when moreover no value is a
`std::size_t` or a range whose elements are not its encoding, as those of `ofPixels_` are
not. -/
theorem chained_sends_iff (o : Outbox) (idle : o.assembly.pending = []) (c : Category)
    (named : c ≠ .rvalue) (init : List SendRequest) (last : SendRequest)
    (supported : ∀ r ∈ init ++ [last], r.IsSupported)
    (more : ∀ r ∈ init, r.flag.more = true) (final : last.flag.more = false) :
    (∀ mem, FormsOneMessage mem o c (init ++ [last])) ↔
      (∀ r ∈ init, r.isMessage = false) ∧
        (last.isMessage = false → ∀ r ∈ init ++ [last], r.Agrees) := by
  have all (values : ∀ r ∈ init, r.isMessage = false) (lastValue : last.isMessage = false) :
      ∀ r ∈ init ++ [last], r.isMessage = false := by
    simpa [or_imp, forall_and] using ⟨values, lastValue⟩
  constructor
  · intro forms
    obtain ⟨sent, issued, assembly, _⟩ := forms default
    obtain ⟨chain, same, pushed⟩ := SendRequest.issueAll_eq default o (init ++ [last]) supported
    obtain rfl := Except.ok.inj (same.symm.trans issued)
    have values := values_of_delivered o init last supported more final default
      (by rw [← pushed, assembly]; simp)
    refine ⟨values, fun lastValue => ?_⟩
    rw [← flatMap_frames_iff _ (all values lastValue)]
    intro mem
    obtain ⟨sent, _, assembly, whole⟩ := forms mem
    obtain ⟨result, one, first, equal⟩ := whole (all values lastValue)
    obtain ⟨_, other, second, encodings⟩ := sendMultipart_values o init last supported idle mem c
      named (all values lastValue)
    obtain ⟨_, rfl⟩ := Prod.mk.inj (Except.ok.inj (first.symm.trans second))
    rw [assembly, encodings] at equal
    simpa using equal.symm
  · rintro ⟨values, agrees⟩ mem
    obtain ⟨sent, issued, pushed⟩ := SendRequest.issueAll_eq mem o (init ++ [last]) supported
    rw [pushAll_chain o init last supported idle more final mem values] at pushed
    refine ⟨sent, issued, pushed, fun singles => ?_⟩
    obtain ⟨result, whole, one, assembly⟩ := sendMultipart_values o init last supported idle mem c
      named singles
    refine ⟨result, whole, one, ?_⟩
    rw [assembly, pushed, (flatMap_frames_iff _ singles).mpr (agrees (singles last (by simp))) mem]

/-- A multipart message of one frame, then a string. -/
def messageThenString : List SendRequest :=
  [.message [[1]] ⟨true, true⟩, .value CppType.string.unspecialized [97] ⟨true, false⟩]

/-- The multipart message asks for more, but is delivered on its own. -/
theorem messageThenString_split :
    ∃ sent, SendRequest.issueAll .zero .idle messageThenString = .ok sent ∧
      sent.assembly = ⟨[[[1]], [[97]]], []⟩ ∧
      ¬ FormsOneMessage .zero .idle .lvalue messageThenString := by
  refine ⟨_, rfl, rfl, ?_⟩
  rintro ⟨sent, issued, assembly, _⟩
  obtain rfl := Except.ok.inj (issued.symm.trans
    (show SendRequest.issueAll .zero .idle messageThenString = .ok _ from rfl))
  exact absurd assembly (by decide)

/-- Two strings, one by one. -/
theorem stringThenString_forms :
    FormsOneMessage .zero .idle .lvalue [.value CppType.string.unspecialized [97] ⟨true, true⟩,
      .value CppType.string.unspecialized [98] ⟨true, false⟩] := by
  have string : SendRequest.Supports .string := ⟨rfl, rfl, rfl, by simp⟩
  refine (chained_sends_iff .idle rfl .lvalue (by simp)
    [.value CppType.string.unspecialized [97] ⟨true, true⟩]
    (.value CppType.string.unspecialized [98] ⟨true, false⟩) ?_ ?_ rfl).mpr ⟨?_, ?_⟩ .zero
  · simpa [SendRequest.IsSupported] using string
  · simp [SendRequest.flag]
  · simp [SendRequest.isMessage]
  · simp [SendRequest.Agrees, CppType.asRange, CppType.encoding]

end OfxZeroMQ
