import OfxZeroMQ.Foundation.Transition
import OfxZeroMQ.Properties.RoundTrip

/-!
# Receiving into destinations

`receiveMultipart` takes one message off the queue, whatever the number of its destinations;
`receive`, called as long as it reports more frames, takes the same message frame by frame.
`rangedConvertTo` keeps to its range only where the range ends behind the destinations or
behind the message.
-/
namespace OfxZeroMQ

open Foundation.Framing Foundation.Transition

/-! ### `receiveMultipart` -/

namespace Inbox

/-- The socket after a call of `receiveMultipart` that compiles. -/
def takeMessage (i : Inbox) (c : MultipartCall) : Option Inbox :=
  match i.receiveMultipart c.memory c.data with
  | .ok (_, _, i) => some i
  | .error _ => none

theorem receiveMultipart_empty (mem : Memory) (data : List Destination)
    (compiles : receiveCompiles data = true) (calls : List Flags) :
    Inbox.receiveMultipart mem ⟨[], calls⟩ data =
      .ok (some false, data, ⟨[], calls ++ [ReceiveFlag.default.toFlags]⟩) := by
  have some : 0 < data.length := by
    apply List.length_pos_iff.mpr
    rintro rfl
    exact absurd compiles (by decide)
  have none_received : (Inbox.receiveMessage ⟨[], calls⟩ .default).message = [] := rfl
  rw [receiveMultipart_eq mem _ data compiles, none_received, fill_no_frames, List.length_nil,
    decide_eq_false (by omega)]
  rfl

theorem takeMessage_queue (messages : List (List Bytes)) (some : ∀ frames ∈ messages, frames ≠ [])
    (c : MultipartCall) (compiles : receiveCompiles c.data = true) (i : Inbox)
    (boundary : i.queue = messages.flatMap mark) :
    ∃ j, i.takeMessage c = .some j ∧ j.queue = (messages.drop 1).flatMap mark := by
  obtain ⟨queue, calls⟩ := i
  obtain rfl := boundary
  cases messages with
  | nil =>
    have received := receiveMultipart_empty c.memory c.data compiles calls
    exact ⟨_, by rw [takeMessage, List.flatMap_nil, received], rfl⟩
  | cons frames messages =>
    have received := receiveMultipart_mark c.memory c.data compiles frames (some frames (by simp))
      (messages.flatMap mark) calls
    exact ⟨_, by rw [takeMessage, List.flatMap_cons, received], rfl⟩

theorem run_takeMessage (messages : List (List Bytes)) (some : ∀ frames ∈ messages, frames ≠ [])
    (cs : List MultipartCall) (compile : ∀ c ∈ cs, receiveCompiles c.data = true) (i : Inbox)
    (boundary : i.queue = messages.flatMap mark) :
    ∃ j, run takeMessage i cs = .some j ∧
      j.queue = (messages.drop cs.length).flatMap mark := by
  induction cs generalizing i messages with
  | nil => exact ⟨i, rfl, boundary⟩
  | cons c cs ih =>
    obtain ⟨j, taken, rest⟩ :=
      takeMessage_queue messages some c (compile c (by simp)) i boundary
    obtain ⟨k, ran, queue⟩ := ih (messages.drop 1)
      (fun frames member => some frames (List.mem_of_mem_drop member))
      (fun d member => compile d (by simp [member])) j rest
    refine ⟨k, (run_cons takeMessage i k c cs).mpr ⟨j, taken, ran⟩, ?_⟩
    rw [queue, List.drop_drop, List.length_cons, Nat.add_comm]

end Inbox

/-- `receiveMultipart` takes the first message off the queue, however many destinations it has,
and reports whether the message had a frame for each of them; an empty queue stays as it is.
After any run of such calls the queue starts with a whole message. -/
theorem receiveMultipart_takes_message (mem : Memory) (data : List Destination)
    (compiles : receiveCompiles data = true) (calls : List Flags) :
    (∀ frames queue, frames ≠ [] → ∃ received inbox,
        Inbox.receiveMultipart mem ⟨mark frames ++ queue, calls⟩ data =
          .ok (some (decide (data.length ≤ frames.length)), received, inbox) ∧
        inbox.queue = queue ∧ received.length = data.length ∧
        ∀ i d, data[i]? = some d →
          (∀ frame, frames[i]? = some frame → received[i]? = some (d.store mem frame)) ∧
          (frames.length ≤ i → received[i]? = some d)) ∧
      (∃ inbox, Inbox.receiveMultipart mem ⟨[], calls⟩ data = .ok (some false, data, inbox) ∧
        inbox.queue = []) ∧
      ∀ messages : List (List Bytes), (∀ frames ∈ messages, frames ≠ []) →
        ∀ cs : List MultipartCall, (∀ c ∈ cs, receiveCompiles c.data = true) →
          ∃ inbox, run Inbox.takeMessage ⟨messages.flatMap mark, calls⟩ cs = some inbox ∧
            inbox.queue = (messages.drop cs.length).flatMap mark := by
  refine ⟨fun frames queue nonempty => ?_, ?_, fun messages some cs compile => ?_⟩
  · refine ⟨_, _, Inbox.receiveMultipart_mark mem data compiles frames nonempty queue calls, rfl,
      length_fill mem frames data, fun i d found => ⟨fun frame inside => ?_, fun past => ?_⟩⟩
    · rw [getElem?_fill, found, Option.map_some, MultipartMessage.argumentTo, inside]
    · have nothing : frames[i]? = none := List.getElem?_eq_none past
      rw [getElem?_fill, found, Option.map_some, MultipartMessage.argumentTo, nothing]
  · exact ⟨_, Inbox.receiveMultipart_empty mem data compiles calls, rfl⟩
  · exact Inbox.run_takeMessage messages some cs compile _ rfl

/-- A string variable that holds nothing yet. -/
def freshString : Destination := ⟨CppType.string.unspecialized, [], 0⟩

/-- Two destinations for a message of three frames: the third frame goes with the message. -/
theorem receiveMultipart_takes_message_two :
    ∃ received inbox,
      Inbox.receiveMultipart default ⟨[([1], true), ([2], true), ([3], false)], []⟩
          [freshString, freshString] = .ok (some true, received, inbox) ∧
        inbox.queue = [] := by
  obtain ⟨received, inbox, returned, queue, _⟩ :=
    (receiveMultipart_takes_message default [freshString, freshString] (by decide) []).1
      [[1], [2], [3]] [] (by decide)
  exact ⟨received, inbox, returned, queue⟩

/-! ### `receive` -/

/-- The frame alone determines what is decoded from it. -/
def Convertible.DecodesSafely (t : Convertible) (frame : Bytes) : Prop :=
  ∀ (mem other : Memory) (old before : t.type.Val),
    decode mem t frame old = decode other t frame before

/-- Every frame decodes safely into the destination of its call. -/
def DecodeSafely (frames : List Bytes) (cs : List ReceiveCall) : Prop :=
  ∀ (i : Nat) (c : ReceiveCall) (frame : Bytes), cs[i]? = some c → frames[i]? = some frame →
    c.data.type.DecodesSafely frame

/-- One frame for each call, as far as the frames reach. -/
def storeEach : List Bytes → List ReceiveCall → List Destination
  | frame :: frames, c :: cs => c.data.store c.memory frame :: storeEach frames cs
  | _, cs => cs.map ReceiveCall.data

theorem Destination.store_eq (mem other : Memory) (d : Destination) (frame : Bytes)
    (safe : d.type.DecodesSafely frame) : d.store mem frame = d.store other frame := by
  rw [Destination.store, Destination.store, safe mem other d.value d.value]

theorem storeEach_eq_fill (mem : Memory) (frames : List Bytes) (cs : List ReceiveCall)
    (safe : DecodeSafely frames cs) :
    storeEach frames cs = fill mem frames (cs.map ReceiveCall.data) := by
  induction frames generalizing cs with
  | nil => cases cs <;> rfl
  | cons frame frames ih =>
    cases cs with
    | nil => rfl
    | cons c cs =>
      have first := c.data.store_eq c.memory mem frame (safe 0 c frame rfl rfl)
      have rest := ih cs fun i d g => safe (i + 1) d g
      rw [storeEach, List.map_cons, fill, first, rest]

/-- The calls stop with the last frame of the first message. -/
theorem Inbox.receiveWhileMore_mark (frames : List Bytes) (nonempty : frames ≠ [])
    (queue : List (Bytes × Bool)) (calls : List Flags) (cs : List ReceiveCall)
    (enough : frames.length ≤ cs.length)
    (receivable : ∀ c ∈ cs, c.data.type.isReceivable = true) :
    Inbox.receiveWhileMore ⟨mark frames ++ queue, calls⟩ cs =
      some (frames.length, storeEach frames cs,
        ⟨queue, calls ++ (cs.take frames.length).map ReceiveCall.flags⟩) := by
  induction frames generalizing calls cs with
  | nil => exact absurd rfl nonempty
  | cons frame frames ih =>
    cases cs with
    | nil => simp at enough
    | cons c cs =>
      have compiles : c.data.type.isReceivable = true := receivable c (by simp)
      cases frames with
      | nil =>
        simp only [mark, List.singleton_append, receiveWhileMore, receive, compiles, if_true,
          receiveValue, storeEach, List.length_singleton, List.take_succ_cons, List.take_zero,
          List.map_cons, List.map_nil]
      | cons other frames =>
        have rest := ih (by simp) (calls ++ [c.flags]) cs (by simpa using enough)
          fun d member => receivable d (by simp [member])
        simp only [mark, List.cons_append, receiveWhileMore, receive, compiles, if_true,
          receiveValue, rest, Option.map_some, storeEach, List.length_cons, List.take_succ_cons,
          List.map_cons, List.append_assoc, List.nil_append]

/-- Calling `receive` as long as it reports more frames takes the first message off the queue,
with one call for each frame, and gives the destinations the values that `receiveMultipart`
gives them, and that `m[i].get` gives for the message as a whole. -/
theorem receive_each_agrees (frames : List Bytes) (nonempty : frames ≠ [])
    (queue : List (Bytes × Bool)) (calls : List Flags) (cs : List ReceiveCall)
    (enough : frames.length ≤ cs.length)
    (receivable : ∀ c ∈ cs, c.data.type.isReceivable = true)
    (safe : DecodeSafely frames cs) :
    let inbox : Inbox := ⟨mark frames ++ queue, calls⟩
    let whole := (cs.take frames.length).map ReceiveCall.data
    ∃ received rest, inbox.receiveWhileMore cs = some (frames.length, received, rest) ∧
      rest.queue = queue ∧ rest.calls.length = calls.length + frames.length ∧
      received.length = cs.length ∧
      (∀ i c, cs[i]? = some c →
        received[i]? = some (MultipartMessage.argumentTo c.memory frames i c.data)) ∧
      (∀ mem, receiveCompiles whole = true → ∃ after,
        inbox.receiveMultipart mem whole =
          .ok (some true, received.take frames.length, after) ∧ after.queue = queue) ∧
      ∀ flags : ReceiveFlag,
        (inbox.receiveMessage flags).returned = some true ∧
          (inbox.receiveMessage flags).inbox.queue = queue ∧
          ∀ mem i c, cs[i]? = some c → i < frames.length → ∀ data,
            received[i]? = some ⟨c.data.type,
              (inbox.receiveMessage flags).message.get mem i c.data.type data,
              c.data.writes + 1⟩ := by
  intro inbox whole
  have counted : (cs.take frames.length).length = frames.length := by
    rw [List.length_take]
    omega
  have filled (mem : Memory) := storeEach_eq_fill mem frames cs safe
  -- every destination holds what its own frame decodes to
  have stored (mem : Memory) (i : Nat) (c : ReceiveCall) (found : cs[i]? = some c) :
      (storeEach frames cs)[i]? = some (MultipartMessage.argumentTo mem frames i c.data) := by
    rw [filled mem, getElem?_fill, List.getElem?_map, found]
    rfl
  refine ⟨storeEach frames cs, _,
    Inbox.receiveWhileMore_mark frames nonempty queue calls cs enough receivable, rfl, ?_, ?_,
    fun i c found => stored c.memory i c found, fun mem compiles => ?_, fun flags => ?_⟩
  · rw [List.length_append, List.length_map, counted]
  · rw [filled default, length_fill, List.length_map]
  · have received := Inbox.receiveMultipart_mark mem whole compiles frames nonempty queue calls
    refine ⟨⟨queue, calls ++ List.replicate frames.length ReceiveFlag.default.toFlags⟩, ?_, rfl⟩
    have every : whole.length ≤ frames.length := by
      rw [List.length_map, counted]
    rw [filled mem, take_fill, ← List.map_take, received, decide_eq_true every]
  · have received := Inbox.recv_mark frames queue calls flags.toFlags nonempty
    simp only [inbox, Inbox.receiveMessage, received]
    refine ⟨trivial, trivial, fun mem i c found inside data => ?_⟩
    have frame : frames[i]? = some frames[i] := List.getElem?_eq_getElem inside
    rw [stored mem i c found, MultipartMessage.argumentTo, MultipartMessage.get, frame]
    simp only [Destination.store, safe i c frames[i] found frame mem mem c.data.value data]

/-- A frame that is long enough leaves nothing to uninitialized memory. -/
theorem decodesSafely_fixed (f : FixedType) (frame : Bytes) (enough : f.size ≤ frame.length) :
    (CppType.fixed f).unspecialized.DecodesSafely frame := by
  intro mem other old before
  have read (m : Memory) : decode m (CppType.fixed f).unspecialized frame old =
      Object.ofBytes f.size (Foundation.Buffer.slice frame 0 f.size) :=
    congrArg (Object.ofBytes f.size) (m.read_eq_slice frame 0 f.size (by omega))
  exact (read mem).trans (read other).symm

theorem decodesSafely_string (frame : Bytes) :
    CppType.string.unspecialized.DecodesSafely frame :=
  fun _ _ _ _ => rfl

/-- A topic and a 16-bit number, received one after the other with different garbage in
`flags`. -/
theorem receive_each_agrees_pair :
    let number : FixedType := ⟨2, Nat.two_pos, none, none_ne_exact, true⟩
    let cs : List ReceiveCall := [⟨default, 0#32, freshString⟩,
      ⟨default, 1#32, ⟨(CppType.fixed number).unspecialized, Object.ofBytes 2 [], 0⟩⟩]
    ∃ received rest, Inbox.receiveWhileMore ⟨[([109, 111], true), ([1, 0], false)], []⟩ cs =
        some (2, received, rest) ∧ rest.queue = [] := by
  intro number cs
  have safe : DecodeSafely [[109, 111], [1, 0]] cs := by
    intro i c frame called found
    match i with
    | 0 =>
      cases called
      exact decodesSafely_string frame
    | 1 =>
      cases called
      cases found
      exact decodesSafely_fixed number [1, 0] (Nat.le_refl 2)
    | i + 2 => simp at found
  obtain ⟨received, rest, calls, queue, _⟩ := receive_each_agrees [[109, 111], [1, 0]]
    (by decide) [] [] cs (by decide) (by simp [cs]; decide) safe
  exact ⟨received, rest, calls, queue⟩

/-! ### `rangedConvertTo` -/

namespace MultipartMessage

/-- `rangedConvertTo` looks at the end of its range only before the first destination. -/
theorem rangedConvertTo_eq (mem : Memory) (parts : MultipartMessage) (first stop : Nat)
    (d : Destination) (others : List Destination) :
    parts.rangedConvertTo mem first stop (d :: others) =
      if stop = first then (if others.isEmpty then some false else none, d :: others)
      else (some (decide (first + (d :: others).length ≤ parts.length)),
        fill mem (parts.drop first) (d :: others)) := by
  have unranged := convertToFrom_eq mem parts first (d :: others) (by simp)
  rw [rangedConvertTo]
  by_cases ends : stop = first
  · rw [if_pos ends]
    cases others <;> simp [rangedConvertToFrom, ends]
  · rw [if_neg ends]
    have same : parts.rangedConvertToFrom mem first stop (d :: others) =
        (some (parts.convertToFrom mem first (d :: others)).1,
          (parts.convertToFrom mem first (d :: others)).2) := by
      cases others with
      | nil =>
        cases found : parts[first]? <;> simp [rangedConvertToFrom, convertToFrom, ends, found]
      | cons other others =>
        cases found : parts[first]? with
        | none => simp [rangedConvertToFrom, convertToFrom, ends, found]
        | some frame =>
          simp only [rangedConvertToFrom, convertToFrom, if_neg ends, found]
          split <;> rfl
    rw [same, unranged]

/-- What a call on a range does to the destinations and returns. -/
structure KeepsRange (mem : Memory) (parts : MultipartMessage) (first stop : Nat)
    (data : List Destination) : Prop where
  length : (parts.rangedConvertTo mem first stop data).2.length = data.length
  inside : ∀ i d, data[i]? = some d →
    (parts.rangedConvertTo mem first stop data).2[i]? = some d ∨
      first + i < stop ∧ ∃ frame, parts[first + i]? = some frame ∧
        (parts.rangedConvertTo mem first stop data).2[i]? = some (d.store mem frame)
  returns : (parts.rangedConvertTo mem first stop data).1 ≠ none
  -- a range of as many frames as there are destinations
  matching : first < stop → data.length = stop - first →
    ((parts.rangedConvertTo mem first stop data).1 = some true ↔ stop ≤ parts.length) ∧
      parts.rangedConvertTo mem first stop data =
        (some (convertToFrom mem (parts.drop first) 0 data).1,
          (convertToFrom mem (parts.drop first) 0 data).2)

theorem getElem?_fill_drop (mem : Memory) (parts : MultipartMessage) (first i : Nat)
    (data : List Destination) (d : Destination) (found : data[i]? = some d) :
    (fill mem (parts.drop first) data)[i]? = some (argumentTo mem parts (first + i) d) := by
  rw [getElem?_fill, found, Option.map_some, argumentTo, argumentTo, List.getElem?_drop]

theorem store_ne (mem : Memory) (d : Destination) (frame : Bytes) : d.store mem frame ≠ d := by
  intro same
  have count : d.writes + 1 = d.writes := congrArg Destination.writes same
  omega

/-- A call on a range that is not empty keeps to it when the message or the destinations end
before the range does. -/
theorem keepsRange_iff_of_ne (mem : Memory) (parts : MultipartMessage) (first stop : Nat)
    (d : Destination) (others : List Destination) (differ : stop ≠ first) :
    KeepsRange mem parts first stop (d :: others) ↔
      ∀ i < (d :: others).length, first + i < parts.length → first + i < stop := by
  have called := rangedConvertTo_eq mem parts first stop d others
  rw [if_neg differ] at called
  constructor
  · intro keeps i inside reached
    have found : (d :: others)[i]? = some (d :: others)[i] := List.getElem?_eq_getElem inside
    have frame : parts[first + i]? = some parts[first + i] := List.getElem?_eq_getElem reached
    have stored := getElem?_fill_drop mem parts first i (d :: others) _ found
    rw [argumentTo, frame] at stored
    rcases keeps.inside i _ found with same | ⟨less, _⟩
    · rw [called, stored] at same
      exact absurd (Option.some.inj same) (store_ne mem _ _)
    · exact less
  · intro within
    constructor
    · rw [called, length_fill]
    · intro i e found
      have stored := getElem?_fill_drop mem parts first i (d :: others) e found
      rw [called, stored, argumentTo]
      cases frame : parts[first + i]? with
      | none => exact Or.inl rfl
      | some bytes =>
        have inside : i < (d :: others).length := (List.getElem?_eq_some_iff.mp found).1
        have reached : first + i < parts.length := (List.getElem?_eq_some_iff.mp frame).1
        exact Or.inr ⟨within i inside reached, bytes, rfl, rfl⟩
    · simp [called]
    · intro less matching
      have dropped := convertToFrom_eq mem (parts.drop first) 0 (d :: others) (by simp)
      have enough : first + (d :: others).length ≤ parts.length ↔ stop ≤ parts.length := by
        omega
      have counted : 0 + (d :: others).length ≤ (parts.drop first).length ↔
          first + (d :: others).length ≤ parts.length := by
        rw [List.length_drop]
        omega
      rw [called, dropped, List.drop_zero]
      simp only [counted, enough]
      simp

end MultipartMessage

/-- An empty range leaves one destination alone, and returns nothing for more of them. -/
theorem MultipartMessage.keepsRange_empty_iff (mem : Memory) (parts : MultipartMessage)
    (first : Nat) (d : Destination) (others : List Destination) :
    KeepsRange mem parts first first (d :: others) ↔ others = [] := by
  have called := rangedConvertTo_eq mem parts first first d others
  rw [if_pos rfl] at called
  constructor
  · intro keeps
    cases others with
    | nil => rfl
    | cons other others => exact absurd (by simp [called]) keeps.returns
  · rintro rfl
    constructor
    · rw [called]
    · intro i e found
      rw [called]
      exact Or.inl found
    · simp [called]
    · intro less
      exact absurd less (Nat.lt_irrefl first)

/-- A call keeps to its range exactly when the range ends behind the last destination or behind
the message; the others are an empty range with a single destination, and a range that ends
before it starts, behind the message. -/
theorem rangedConvertTo_keepsRange_iff (mem : Memory) (parts : MultipartMessage)
    (first stop : Nat) (d : Destination) (others : List Destination) :
    MultipartMessage.KeepsRange mem parts first stop (d :: others) ↔
      (first < stop ∧ (first + (d :: others).length ≤ stop ∨ parts.length ≤ stop)) ∨
        (stop = first ∧ others = []) ∨ (stop < first ∧ parts.length ≤ first) := by
  by_cases empty : stop = first
  · subst empty
    rw [MultipartMessage.keepsRange_empty_iff]
    simp
  · rw [MultipartMessage.keepsRange_iff_of_ne mem parts first stop d others empty]
    constructor
    · intro within
      have start := within 0 (by simp)
      -- the frame the range ends with is the first that must not be decoded
      have last := within (stop - first)
      omega
    · intro ends i inside reached
      omega

/-- The range ends before the second destination, and yet that one is decoded from the frame
behind it. -/
theorem rangedConvertTo_leaves_range :
    (MultipartMessage.rangedConvertTo default [[1], [2]] 0 1 [freshString, freshString]).1 =
        some true ∧
      ¬ MultipartMessage.KeepsRange default [[1], [2]] 0 1 [freshString, freshString] := by
  refine ⟨rfl, fun keeps => ?_⟩
  rcases keeps.inside 1 freshString rfl with same | ⟨less, _⟩
  · exact absurd (congrArg Destination.writes (Option.some.inj same)) (by decide)
  · exact absurd less (by decide)

end OfxZeroMQ
