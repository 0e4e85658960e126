import OfxZeroMQ.Foundation.Traverse
import OfxZeroMQ.Model.Socket

/-!
# What the multipart functions do

`addArguments` appends one frame for each argument, `convertTo` fills the destinations from
the frames as far as both reach, and an accepting socket takes a message as a whole.
-/
namespace OfxZeroMQ

open Foundation.Framing Foundation.Traverse

/-! ### Encoding -/

/-- The arguments of `addArguments` as `convert` sees them. -/
def passed : List Argument → List Argument
  | [] => []
  | datum :: data => datum.named :: data

theorem Category.named_ne_rvalue (c : Category) : c.named ≠ .rvalue := by
  cases c <;> simp [Category.named]

namespace MultipartMessage

theorem addArguments_eq_ok (mem : Memory) (parts : MultipartMessage) (args : List Argument)
    (message : MultipartMessage) :
    addArguments mem parts args = .ok message ↔ args ≠ [] ∧ ∃ frames,
      (passed args).map (convert mem) = frames.map .ok ∧ message = parts ++ frames := by
  cases args with
  | nil => simp [addArguments]
  | cons datum data =>
    simp only [addArguments, passed, List.map_cons, ne_eq, reduceCtorEq, not_false_eq_true,
      true_and, bind_eq_ok_iff, mapM_eq_ok, pure_eq_ok, Except.ok.injEq]
    constructor
    · rintro ⟨frame, first, frames, others, rfl⟩
      exact ⟨frame :: frames, by rw [first, others, List.map_cons], rfl⟩
    · rintro ⟨frames, mapped, rfl⟩
      cases frames with
      | nil => simp at mapped
      | cons frame frames =>
        simp only [List.map_cons, List.cons.injEq] at mapped
        exact ⟨frame, mapped.1, frames, mapped.2, rfl⟩

/-- Only a multipart message is not taken apart by the variadic constructor. -/
theorem construct_eq_addArguments (mem : Memory) (args : List Argument) (nonempty : args ≠ [])
    (single : ∀ a, args = [a] → a.type.type ≠ .multipart) :
    construct mem args = addArguments mem [] args := by
  match args with
  | [] => exact absurd rfl nonempty
  | [⟨⟨t, adl⟩, c, v⟩] =>
    have selected : MultipartCtor.selected t c = some .forward := by
      cases t with
      | multipart => exact absurd rfl (single _ rfl)
      | _ => cases c <;> rfl
    simp only [construct, selected]
  | _ :: _ :: _ => rfl

/-- A multipart message has no frame of its own: the calls that would make one go round in
circles. -/
theorem convert_multipart (mem : Memory) (adl : Option (Converter (List Bytes)))
    (parts : List Bytes) :
    convert mem ⟨⟨.multipart, adl⟩, .lvalue, parts⟩ = .error .diverges := rfl

/-- A constructed message was moved from a single rvalue or made of the arguments' frames. -/
theorem construct_eq_ok (mem : Memory) (args : List Argument) (message : MultipartMessage)
    (nonempty : args ≠ []) (built : construct mem args = .ok message) :
    addArguments mem [] args = .ok message ∨
      ∃ adl, args = [⟨⟨.multipart, adl⟩, .rvalue, message⟩] := by
  -- only an rvalue `MultipartMessage` on its own is taken by the move constructor, and not a
  -- const one
  by_cases single : ∃ a, args = [a] ∧ a.type.type = .multipart
  · obtain ⟨⟨⟨t, adl⟩, c, v⟩, rfl, same⟩ := single
    simp only at same
    subst same
    cases c with
    | rvalue => exact Or.inr ⟨adl, by rw [← Except.ok.inj built]⟩
    | lvalue => exact absurd built (by simp [show construct mem
        [⟨⟨.multipart, adl⟩, .lvalue, v⟩] = .error .diverges from rfl])
    | constLvalue => exact absurd built (by simp [show construct mem
        [⟨⟨.multipart, adl⟩, .constLvalue, v⟩] = .error .illFormed from rfl])
    | constRvalue => exact absurd built (by simp [show construct mem
        [⟨⟨.multipart, adl⟩, .constRvalue, v⟩] = .error .diverges from rfl])
  · refine Or.inl ((construct_eq_addArguments mem args nonempty ?_).symm.trans built)
    exact fun a alone multipart => single ⟨a, alone, multipart⟩

end MultipartMessage

/-! ### Decoding -/

/-- Store the frames into the destinations, as far as both reach. -/
def fill (mem : Memory) : List Bytes → List Destination → List Destination
  | frame :: frames, data :: others => data.store mem frame :: fill mem frames others
  | _, data => data

@[simp] theorem fill_nil (mem : Memory) (frames : List Bytes) : fill mem frames [] = [] := by
  cases frames <;> rfl

theorem fill_no_frames (mem : Memory) (data : List Destination) : fill mem [] data = data := by
  cases data <;> rfl

/-- Destinations behind the first ones are filled with the frames those have left. -/
theorem fill_append (mem : Memory) (frames : List Bytes) (data others : List Destination) :
    fill mem frames (data ++ others) =
      fill mem frames data ++ fill mem (frames.drop data.length) others := by
  induction data generalizing frames with
  | nil => simp
  | cons d data ih =>
    cases frames with
    | nil => simp [fill]
    | cons frame frames => simp [fill, ih]

theorem take_fill (mem : Memory) (frames : List Bytes) (data : List Destination) (n : Nat) :
    (fill mem frames data).take n = fill mem frames (data.take n) := by
  induction data generalizing frames n with
  | nil => simp
  | cons d others ih =>
    cases n with
    | zero => simp
    | succ n =>
      cases frames with
      | nil => rfl
      | cons frame frames => simp [fill, ih]

theorem length_fill (mem : Memory) (frames : List Bytes) (data : List Destination) :
    (fill mem frames data).length = data.length := by
  induction data generalizing frames with
  | nil => simp
  | cons d others ih =>
    cases frames with
    | nil => rfl
    | cons frame frames => simp [fill, ih]

theorem getElem?_fill (mem : Memory) (frames : List Bytes) (data : List Destination) (i : Nat) :
    (fill mem frames data)[i]? =
      data[i]?.map (MultipartMessage.argumentTo mem frames i) := by
  induction data generalizing frames i with
  | nil => simp
  | cons d others ih =>
    cases frames with
    | nil =>
      have kept : MultipartMessage.argumentTo mem [] i = id := rfl
      rw [fill_no_frames, kept, Option.map_id_fun, id]
    | cons frame frames =>
      cases i with
      | zero => rfl
      | succ i => exact ih frames i

namespace MultipartMessage

theorem convertToFrom_eq (mem : Memory) (parts : MultipartMessage) (n : Nat)
    (data : List Destination) (nonempty : data ≠ []) :
    parts.convertToFrom mem n data =
      (decide (n + data.length ≤ parts.length), fill mem (parts.drop n) data) := by
  induction data generalizing n with
  | nil => exact absurd rfl nonempty
  | cons d others ih =>
    cases found : parts[n]? with
    | none =>
      have short : parts.length ≤ n := List.getElem?_eq_none_iff.mp found
      have nothing : parts.drop n = [] := List.drop_eq_nil_of_le short
      have few : ¬ n + (d :: others).length ≤ parts.length := by
        simp only [List.length_cons]
        omega
      cases others <;> simp [convertToFrom, found, nothing, fill] <;> omega
    | some frame =>
      obtain ⟨inside, rfl⟩ := List.getElem?_eq_some_iff.mp found
      have split : parts.drop n = parts[n] :: parts.drop (n + 1) := List.drop_eq_getElem_cons inside
      cases others with
      | nil =>
        simp only [convertToFrom, found, split, fill, fill_nil, List.length_singleton,
          Prod.mk.injEq, and_true, Bool.true_eq, decide_eq_true_eq]
        omega
      | cons other others =>
        -- the source looks one frame ahead before it goes on to the next destination
        by_cases more : n + 1 < parts.length
        · have rest := ih (n + 1) (by simp)
          simp only [convertToFrom, found, if_pos more, rest, split, fill, List.length_cons]
          congr 2
          simp only [eq_iff_iff]
          omega
        · have nothing : parts.drop (n + 1) = [] := List.drop_eq_nil_of_le (by omega)
          simp only [convertToFrom, found, if_neg more, split, nothing, fill, List.length_cons,
            Prod.mk.injEq, and_true, Bool.false_eq, decide_eq_false_iff_not]
          omega

end MultipartMessage

/-! ### Sending -/

@[simp] theorem SendFlag.has_sndmore (f : SendFlag) : f.toFlags.has ZMQ_SNDMORE = f.more := by
  obtain ⟨nonblocking, more⟩ := f
  cases nonblocking <;> cases more <;> rfl

@[simp] theorem SendFlag.has_dontwait (f : SendFlag) :
    f.toFlags.has ZMQ_DONTWAIT = f.nonblocking := by
  obtain ⟨nonblocking, more⟩ := f
  cases nonblocking <;> cases more <;> rfl

@[simp] theorem ReceiveFlag.has_dontwait (f : ReceiveFlag) :
    f.toFlags.has ZMQ_DONTWAIT = f.nonblocking := by
  obtain ⟨nonblocking⟩ := f
  cases nonblocking <;> rfl

theorem SendFlag.clear_sndmore (f : SendFlag) :
    f.toFlags &&& ~~~ZMQ_SNDMORE = (SendFlag.mk f.nonblocking false).toFlags := by
  obtain ⟨nonblocking, more⟩ := f
  cases nonblocking <;> cases more <;> rfl

/-- The flags of a frame that is followed by `rest`. -/
theorem SendFlag.frame_flags (nonblocking : Bool) (rest : List Bytes) :
    (if rest.isEmpty then 0#32 else ZMQ_SNDMORE) ||| (SendFlag.mk nonblocking false).toFlags =
      (SendFlag.mk nonblocking (!rest.isEmpty)).toFlags := by
  cases nonblocking <;> cases rest.isEmpty <;> rfl

/-- The call that sends one marked frame. -/
def SendCall.ofMarked (nonblocking : Bool) (x : Bytes × Bool) : SendCall :=
  ⟨x.1, (SendFlag.mk nonblocking x.2).toFlags⟩

theorem Outbox.send_accepted (o : Outbox) (room : Bool) (frame : Bytes) (flag : SendFlag)
    (accepts : flag.nonblocking = true → room = true) :
    o.send room frame flag.toFlags = (some (min frame.length (2 ^ 31 - 1)),
      ⟨o.assembly.push (frame, flag.more), o.calls ++ [⟨frame, flag.toFlags⟩]⟩) := by
  have taken : (room || !flag.nonblocking) = true := by
    cases mode : flag.nonblocking with
    | false => simp
    | true => simp [accepts mode]
  simp [Outbox.send, taken]

/-- Without room a non-blocking call gives up what was pending. -/
theorem Outbox.send_refused (o : Outbox) (frame : Bytes) (more : Bool) :
    o.send false frame (SendFlag.mk true more).toFlags = (none, ⟨⟨o.assembly.delivered, []⟩,
      o.calls ++ [⟨frame, (SendFlag.mk true more).toFlags⟩]⟩) := by
  cases more <;> rfl

namespace MultipartMessage

/-- An accepting socket is given every frame, each but the last announcing more. -/
theorem sendLoop_accepted (nonblocking : Bool) (room : Nat → Bool) (parts : MultipartMessage)
    (o : Outbox) (accepts : nonblocking = true → ∀ i < parts.length, room i = true) :
    sendLoop (SendFlag.mk nonblocking false).toFlags room parts o =
      (true, [], ⟨o.assembly.pushAll (mark parts),
        o.calls ++ (mark parts).map (SendCall.ofMarked nonblocking)⟩) := by
  induction parts generalizing room o with
  | nil => simp [sendLoop, mark, Assembly.pushAll]
  | cons message parts ih =>
    have sent := Outbox.send_accepted o (room 0) message ⟨nonblocking, !parts.isEmpty⟩
      fun mode => accepts mode 0 (by simp)
    have others := ih (fun i => room (i + 1))
      (o.send (room 0) message (SendFlag.mk nonblocking (!parts.isEmpty)).toFlags).2
      fun mode i less => accepts mode (i + 1) (by simpa using less)
    have marked : mark (message :: parts) = (message, !parts.isEmpty) :: mark parts := by
      cases parts <;> rfl
    simp only [sent] at others
    rw [sendLoop, SendFlag.frame_flags, sent]
    simp only [others, marked, Assembly.pushAll, List.foldl_cons, List.map_cons,
      SendCall.ofMarked, List.append_assoc, List.cons_append, List.nil_append]

theorem send_accepted (parts : MultipartMessage) (room : Nat → Bool) (flag : SendFlag)
    (o : Outbox) (accepts : flag.nonblocking = true → ∀ i < parts.length, room i = true) :
    parts.send room flag.toFlags o =
      (true, [], ⟨o.assembly.pushAll (mark parts),
        o.calls ++ (mark parts).map (SendCall.ofMarked flag.nonblocking)⟩) := by
  rw [send, SendFlag.clear_sndmore]
  exact sendLoop_accepted flag.nonblocking room parts o accepts

/-- A refused frame takes the frames before it along: nothing of the message is delivered. -/
theorem sendLoop_refused (room : Nat → Bool) (parts : MultipartMessage) (o : Outbox)
    (refused : ∃ i < parts.length, room i = false) :
    (sendLoop (SendFlag.mk true false).toFlags room parts o).1 = false ∧
      (sendLoop (SendFlag.mk true false).toFlags room parts o).2.2.assembly =
        ⟨o.assembly.delivered, []⟩ := by
  induction parts generalizing room o with
  | nil => simp at refused
  | cons message parts ih =>
    rw [sendLoop, SendFlag.frame_flags]
    cases first : room 0 with
    | false => simp [Outbox.send_refused]
    | true =>
      -- this frame is only pending, and goes with the one that is refused later
      obtain ⟨i, less, no⟩ := refused
      obtain ⟨j, rfl⟩ : ∃ j, i = j + 1 := Nat.exists_eq_succ_of_ne_zero (by
        rintro rfl
        simp [first] at no)
      have inside : j < parts.length := by simpa using less
      have more : parts.isEmpty = false := by
        cases parts with
        | nil => simp at inside
        | cons _ _ => rfl
      have rest := ih (fun i => room (i + 1))
        (o.send true message (SendFlag.mk true (!parts.isEmpty)).toFlags).2 ⟨j, inside, no⟩
      simp only [more, Bool.not_false] at rest ⊢
      exact rest

theorem send_refused (parts : MultipartMessage) (room : Nat → Bool) (flag : SendFlag)
    (o : Outbox) (mode : flag.nonblocking = true) (refused : ∃ i < parts.length, room i = false) :
    (parts.send room flag.toFlags o).1 = false ∧
      (parts.send room flag.toFlags o).2.2.assembly = ⟨o.assembly.delivered, []⟩ := by
  rw [send, SendFlag.clear_sndmore, mode]
  exact sendLoop_refused room parts o refused

end MultipartMessage

/-! ### Receiving -/

/-- The number of frames up to the end of the first message. -/
def firstMessageLength (queue : List (Bytes × Bool)) : Nat := (queue.takeWhile Prod.snd).length + 1

namespace MultipartMessage

/-- Whatever is queued, no frame behind the first message is taken. -/
theorem queue_recvLoop (flags : Flags) (calls : List Flags)
    (queue : List (Bytes × Bool)) (parts : MultipartMessage) :
    (recvLoop flags calls queue parts).inbox.queue = queue.drop (firstMessageLength queue) := by
  induction queue generalizing calls parts with
  | nil => rfl
  | cons frame queue ih =>
    obtain ⟨message, more⟩ := frame
    cases more with
    | false => rfl
    | true =>
      have rest := ih (calls ++ [flags]) (parts ++ [message])
      simpa [recvLoop, firstMessageLength] using rest

theorem recvLoop_mark (flags : Flags) (calls : List Flags) (frames parts : List Bytes)
    (queue : List (Bytes × Bool)) (nonempty : frames ≠ []) :
    recvLoop flags calls (mark frames ++ queue) parts =
      ⟨some true, parts ++ frames, ⟨queue, calls ++ List.replicate frames.length flags⟩⟩ := by
  induction frames generalizing calls parts with
  | nil => exact absurd rfl nonempty
  | cons message frames ih =>
    cases frames with
    | nil => simp [mark, recvLoop]
    | cons other frames =>
      have rest := ih (calls ++ [flags]) (parts ++ [message]) (by simp)
      simp only [mark, List.cons_append, recvLoop, if_true, rest, List.append_assoc,
        List.length_cons, List.replicate_succ, List.nil_append]

end MultipartMessage

/-- A queued message is received whole, in one call for each of its frames. -/
theorem Inbox.recv_mark (frames : List Bytes) (queue : List (Bytes × Bool)) (calls : List Flags)
    (flags : Flags) (nonempty : frames ≠ []) :
    Inbox.recv ⟨mark frames ++ queue, calls⟩ flags =
      ⟨some true, frames, ⟨queue, calls ++ List.replicate frames.length flags⟩⟩ := by
  simp [Inbox.recv, MultipartMessage.recvLoop_mark, nonempty]

/-! ### `sendMultipart` and `receiveMultipart` -/

/-- `std::get` never reports a plain type, so no argument list ends in a flag. -/
@[simp] theorem lastArgIsSendFlag_eq_false (types : List CppType) :
    lastArgIsSendFlag types = false := by
  simp only [lastArgIsSendFlag]
  cases types.getLast? <;> rfl

@[simp] theorem lastArgIsReceiveFlag_eq_false (types : List CppType) :
    lastArgIsReceiveFlag types = false := by
  simp only [lastArgIsReceiveFlag]
  cases types.getLast? <;> rfl

theorem multipartToSend_eq_ok (mem : Memory) (data : List Argument) (message : MultipartMessage)
    (flag : SendFlag) : multipartToSend mem data = .ok (message, flag) ↔
      traitCompiles (argumentTypes data) = true ∧
        MultipartMessage.construct mem data = .ok message ∧ flag = .default := by
  simp only [multipartToSend, lastArgIsSendFlag_eq_false, Bool.false_eq_true, if_false]
  by_cases compiles : traitCompiles (argumentTypes data) = true
  · simp only [compiles, if_true, true_and, bind_eq_ok_iff, pure_eq_ok, Except.ok.injEq,
      Prod.mk.injEq]
    constructor
    · rintro ⟨made, built, rfl, rfl⟩
      exact ⟨built, rfl⟩
    · rintro ⟨built, rfl⟩
      exact ⟨message, built, rfl, rfl⟩
  · simp [compiles]

theorem Outbox.sendMultipart_eq (mem : Memory) (o : Outbox) (room : Nat → Bool)
    (data : List Argument) (message : MultipartMessage) (flag : SendFlag)
    (toSend : multipartToSend mem data = .ok (message, flag)) :
    o.sendMultipart mem room data = .ok (sendResult (message.send room flag.toFlags o).1,
      (message.send room flag.toFlags o).2.2) := by
  simp only [Outbox.sendMultipart, toSend, ok_bind, pure_eq_ok]

/-- `sendMultipart(std::move(m))` sends the message as it is. -/
theorem Outbox.sendMultipart_moved (mem : Memory) (o : Outbox) (room : Nat → Bool)
    (m : MultipartMessage) :
    o.sendMultipart mem room [⟨CppType.multipart.unspecialized, .rvalue, m⟩] =
      .ok (sendResult (m.send room SendFlag.default.toFlags o).1,
        (m.send room SendFlag.default.toFlags o).2.2) :=
  o.sendMultipart_eq mem room _ m .default rfl

/-- An accepting socket takes the whole message that the arguments make, in the default mode. -/
theorem Outbox.sendMultipart_accepted (mem : Memory) (o : Outbox) (room : Nat → Bool)
    (data : List Argument) (message : MultipartMessage)
    (compiles : traitCompiles (argumentTypes data) = true)
    (built : MultipartMessage.construct mem data = .ok message)
    (accepts : ∀ i < message.length, room i = true) :
    o.sendMultipart mem room data = .ok (some 1, ⟨o.assembly.pushAll (mark message),
      o.calls ++ (mark message).map (SendCall.ofMarked true)⟩) := by
  have toSend := (multipartToSend_eq_ok mem data message .default).mpr ⟨compiles, built, rfl⟩
  have sent := MultipartMessage.send_accepted message room .default o fun _ => accepts
  rw [o.sendMultipart_eq mem room data message .default toSend, sent]
  rfl

/-- A call that compiles reports whether the message had a frame for every destination. -/
theorem Inbox.receiveMultipart_eq (mem : Memory) (i : Inbox) (data : List Destination)
    (compiles : receiveCompiles data = true) :
    i.receiveMultipart mem data =
      .ok (some (decide (data.length ≤ (i.receiveMessage .default).message.length)),
        fill mem (i.receiveMessage .default).message data,
        (i.receiveMessage .default).inbox) := by
  have nonempty : data ≠ [] := by
    rintro rfl
    exact absurd compiles (by decide)
  simp [Inbox.receiveMultipart, compiles, MultipartMessage.convertToFrom_eq, nonempty]

/-- The call on a queued message, which makes one receive call in the default mode for each
of its frames. -/
theorem Inbox.receiveMultipart_mark (mem : Memory) (data : List Destination)
    (compiles : receiveCompiles data = true) (frames : List Bytes) (nonempty : frames ≠ [])
    (queue : List (Bytes × Bool)) (calls : List Flags) :
    Inbox.receiveMultipart mem ⟨mark frames ++ queue, calls⟩ data =
      .ok (some (decide (data.length ≤ frames.length)), fill mem frames data,
        ⟨queue, calls ++ List.replicate frames.length ReceiveFlag.default.toFlags⟩) := by
  rw [Inbox.receiveMultipart_eq mem _ data compiles, Inbox.receiveMessage,
    Inbox.recv_mark frames queue calls _ nonempty]

end OfxZeroMQ
