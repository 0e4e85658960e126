import OfxZeroMQ.Properties.RoundTrip

/-!
# What a multipart send reports and keeps

`multipart_t::send` takes each frame out of the message before the socket has accepted it
and returns a `bool`, which the callers pass on as an optional number.
-/
namespace OfxZeroMQ

open Foundation.Framing

/-! ### The result -/

/-- The socket has taken the whole message. -/
def Outbox.Takes (o after : Outbox) (message : MultipartMessage) : Prop :=
  after.assembly = o.assembly.pushAll (mark message)

/-- The two ways to send a whole message. -/
inductive MultipartSend where
  -- `Socket::send(mess, nonblocking, more)`
  | message (mess : MultipartMessage) (flag : SendFlag)
  -- `Socket::sendMultipart(data ...)`
  | arguments (data : List Argument)

namespace MultipartSend

def run (mem : Memory) (o : Outbox) (room : Nat → Bool) :
    MultipartSend → Except Stuck (Option Nat × Outbox)
  | message mess flag =>
    let (result, _, o) := o.sendMessage room mess flag
    .ok (result, o)
  | arguments data => o.sendMultipart mem room data

/-- The message that is sent, and the flag it is sent with. -/
def content (mem : Memory) : MultipartSend → Except Stuck (MultipartMessage × SendFlag)
  | message mess flag => .ok (mess, flag)
  | arguments data => multipartToSend mem data

/-- Both ways end in `multipart_t::send` and make a number of its result. -/
theorem run_eq (mem : Memory) (o : Outbox) (room : Nat → Bool) (call : MultipartSend)
    (message : MultipartMessage) (flag : SendFlag)
    (content : call.content mem = .ok (message, flag)) :
    call.run mem o room = .ok (sendResult (message.send room flag.toFlags o).1,
      (message.send room flag.toFlags o).2.2) := by
  cases call with
  | message mess f =>
    obtain ⟨rfl, rfl⟩ : mess = message ∧ f = flag := by
      simpa [MultipartSend.content] using content
    rfl
  | arguments data =>
    have made : multipartToSend mem data = .ok (message, flag) := content
    exact o.sendMultipart_eq mem room data message flag made

end MultipartSend

/-- A socket takes a message whole, or not at all. -/
theorem takes_send_iff (message : MultipartMessage) (nonempty : message ≠ [])
    (room : Nat → Bool) (flag : SendFlag) (o : Outbox) :
    o.Takes (message.send room flag.toFlags o).2.2 message ↔
      (flag.nonblocking = true → ∀ i < message.length, room i = true) := by
  constructor
  · intro takes mode
    by_contra refused
    simp only [not_forall, Bool.not_eq_true] at refused
    obtain ⟨i, inside, no⟩ := refused
    -- what a refused frame leaves is no longer than what was delivered before
    rw [Outbox.Takes, (message.send_refused room flag o mode ⟨i, inside, no⟩).2,
      pushAll_mark o.assembly message nonempty] at takes
    have length := congrArg (fun a : Assembly Bytes => a.delivered.length) takes
    simp at length
  · intro accepts
    rw [message.send_accepted room flag o accepts]
    rfl

theorem isSome_send_iff (o : Outbox) (room : Bool) (frame : Bytes) (flag : SendFlag) :
    (o.send room frame flag.toFlags).1.isSome = true ↔
      (o.send room frame flag.toFlags).2.assembly = o.assembly.push (frame, flag.more) := by
  by_cases accepts : flag.nonblocking = true → room = true
  · simp [o.send_accepted room frame flag accepts]
  · simp only [Classical.not_imp, Bool.not_eq_true] at accepts
    obtain ⟨mode, no⟩ := accepts
    obtain ⟨nonblocking, more⟩ := flag
    subst mode no
    rw [Outbox.send_refused]
    cases more <;> simp [Assembly.push]

/-- The result of a multipart send, which always has a value, says whether the message was taken
only when it was: the call was blocking, or there was room for every frame. -/
theorem multipart_result_iff (mem : Memory) (o : Outbox) (room : Nat → Bool)
    (call : MultipartSend) (message : MultipartMessage) (flag : SendFlag)
    (content : call.content mem = .ok (message, flag)) (nonempty : message ≠ []) :
    (∃ result after, call.run mem o room = .ok (result, after) ∧
        (result.isSome = true ↔ o.Takes after message)) ↔
      (flag.nonblocking = true → ∀ i < message.length, room i = true) := by
  rw [← takes_send_iff message nonempty room flag o, call.run_eq mem o room message flag content]
  constructor
  · rintro ⟨result, after, ran, same⟩
    simp only [Except.ok.injEq, Prod.mk.injEq] at ran
    obtain ⟨rfl, rfl⟩ := ran
    exact same.mp rfl
  · intro takes
    exact ⟨_, _, rfl, fun _ => takes, fun _ => rfl⟩

/-- A message of one frame is refused, and the result is a number. -/
theorem refused_result :
    let call : MultipartSend := .message [[1]] .default
    call.run .zero .idle (fun _ => false) =
        .ok (some 0, ⟨⟨[], []⟩, [⟨[1], ZMQ_DONTWAIT⟩]⟩) ∧
      (Outbox.idle.send false [1] ZMQ_DONTWAIT).1 = none ∧
      ¬ ∃ result after, call.run .zero .idle (fun _ => false) = .ok (result, after) ∧
        (result.isSome = true ↔ Outbox.idle.Takes after [[1]]) := by
  intro call
  have ran : call.run .zero .idle (fun _ => false) =
      .ok (some 0, ⟨⟨[], []⟩, [⟨[1], ZMQ_DONTWAIT⟩]⟩) := by rfl
  refine ⟨ran, rfl, ?_⟩
  rintro ⟨result, after, same, agrees⟩
  simp only [ran, Except.ok.injEq, Prod.mk.injEq] at same
  obtain ⟨rfl, rfl⟩ := same
  exact absurd (agrees.mp rfl) (by simp [Outbox.Takes, Outbox.idle, mark, Assembly.pushAll,
    Assembly.push])

theorem accepted_result :
    ∃ result after, (MultipartSend.message [[1], [2]] .default).run .zero .idle (fun _ => true) =
        .ok (result, after) ∧ (result.isSome = true ↔ Outbox.idle.Takes after [[1], [2]]) :=
  (multipart_result_iff .zero .idle (fun _ => true) (.message [[1], [2]] .default) [[1], [2]]
    .default rfl (by simp)).mpr fun _ _ _ => rfl

/-! ### The message after a refused send -/

/-- A first frame that is refused is gone from the message, and nothing is left pending. -/
theorem sendMessage_refused (o : Outbox) (room : Nat → Bool) (message : Bytes)
    (parts : MultipartMessage) (flag : SendFlag) (mode : flag.nonblocking = true)
    (refused : room 0 = false) :
    ∃ calls, o.sendMessage room (message :: parts) flag =
      (sendResult false, parts, ⟨⟨o.assembly.delivered, []⟩, calls⟩) := by
  simp only [Outbox.sendMessage, MultipartMessage.send, SendFlag.clear_sndmore, mode,
    MultipartMessage.sendLoop, SendFlag.frame_flags, refused, Outbox.send_refused]
  exact ⟨_, rfl⟩

namespace Outbox

/-- `Socket::send(mess, ...)` again and again, with what the socket answers each time. -/
def attempts (o : Outbox) (flag : SendFlag) :
    List (Nat → Bool) → MultipartMessage → MultipartMessage × Outbox
  | [], mess => (mess, o)
  | room :: rooms, mess =>
    let (_, rest, after) := o.sendMessage room mess flag
    after.attempts flag rooms rest

/-- Every refusal takes a frame away, as long as there are any. -/
theorem attempts_refused (o : Outbox) (flag : SendFlag) (mode : flag.nonblocking = true)
    (rooms : List (Nat → Bool)) (refused : ∀ room ∈ rooms, room 0 = false)
    (mess : MultipartMessage) (complete : o.assembly.pending = []) :
    (o.attempts flag rooms mess).1 = mess.drop rooms.length ∧
      (o.attempts flag rooms mess).2.assembly = o.assembly := by
  induction rooms generalizing o mess with
  | nil => simp [attempts]
  | cons room rooms ih =>
    have others := fun r member => refused r (List.mem_cons_of_mem room member)
    cases mess with
    | nil =>
      have nothing : o.sendMessage room [] flag = (sendResult true, [], o) := rfl
      simpa [attempts, nothing] using ih o others [] complete
    | cons message parts =>
      obtain ⟨calls, first⟩ :=
        sendMessage_refused o room message parts flag mode (refused room (by simp))
      have same : o.assembly = ⟨o.assembly.delivered, []⟩ := by rw [← complete]
      rw [← same] at first
      simpa [attempts, first] using ih ⟨o.assembly, calls⟩ others parts complete

/-- The last attempt delivers what was left, if anything was. -/
theorem delivered_sendMessage (o : Outbox) (flag : SendFlag) (rest : MultipartMessage)
    (complete : o.assembly.pending = []) :
    (o.sendMessage (fun _ => true) rest flag).2.2.assembly.delivered =
      if rest = [] then o.assembly.delivered else o.assembly.delivered ++ [rest] := by
  simp only [sendMessage, rest.send_accepted (fun _ => true) flag o fun _ _ _ => rfl]
  split
  · subst rest
    rfl
  · rename_i nonempty
    simp [pushAll_mark o.assembly rest nonempty, complete]

end Outbox

/-- The object still holds its message after the attempts, and a socket with room for all of
it then takes the message whole. -/
def KeepsMessage (o : Outbox) (flag : SendFlag) (rooms : List (Nat → Bool))
    (mess : MultipartMessage) : Prop :=
  let tried := o.attempts flag rooms mess
  tried.1 = mess ∧ (tried.2.sendMessage (fun _ => true) tried.1 flag).2.2.assembly.delivered =
    o.assembly.delivered ++ [mess]

/-- A message whose first frame is refused once or more is never kept: a frame for each
refusal is missing from the object and from what a later attempt delivers. -/
theorem refused_message_lost (o : Outbox) (flag : SendFlag) (mode : flag.nonblocking = true)
    (rooms : List (Nat → Bool)) (some_refusal : rooms ≠ [])
    (refused : ∀ room ∈ rooms, room 0 = false) (mess : MultipartMessage) (nonempty : mess ≠ []) :
    ¬ KeepsMessage o flag rooms mess ∧
      (o.attempts flag rooms mess).1 = mess.drop rooms.length ∧
      ((o.attempts flag rooms mess).2.sendMessage (fun _ => true)
        (o.attempts flag rooms mess).1 flag).2.2.assembly.delivered ≠
          o.assembly.delivered ++ [mess] := by
  obtain ⟨room, others, rfl⟩ := List.exists_cons_of_ne_nil some_refusal
  obtain ⟨message, parts, rfl⟩ := List.exists_cons_of_ne_nil nonempty
  obtain ⟨calls, first⟩ :=
    sendMessage_refused o room message parts flag mode (refused room (by simp))
  obtain ⟨left, assembly⟩ := Outbox.attempts_refused ⟨⟨o.assembly.delivered, []⟩, calls⟩ flag mode
    others (fun r member => refused r (List.mem_cons_of_mem room member)) parts rfl
  have unfolded : o.attempts flag (room :: others) (message :: parts) =
      Outbox.attempts ⟨⟨o.assembly.delivered, []⟩, calls⟩ flag others parts := by
    simp [Outbox.attempts, first]
  rw [← unfolded] at left assembly
  have kept : (o.attempts flag (room :: others) (message :: parts)).1 ≠ message :: parts := by
    intro same
    have length := congrArg List.length (left.symm.trans same)
    simp at length
    omega
  refine ⟨fun keeps => kept keeps.1, by simpa using left, fun delivers => ?_⟩
  rw [Outbox.delivered_sendMessage _ flag _ (by rw [assembly]), assembly] at delivers
  split at delivers
  · simp at delivers
  · rw [List.append_cancel_left_eq, List.cons.injEq] at delivers
    exact kept delivers.1

/-- A message of two frames, refused once and then accepted: the second frame is delivered as
a message of its own. -/
theorem refused_pair :
    let tried := Outbox.idle.attempts .default [fun _ => false] [[1], [2]]
    tried.1 = [[2]] ∧
      (tried.2.sendMessage (fun _ => true) tried.1 .default).2.2.assembly.delivered =
        [[[2]]] ∧
      ¬ KeepsMessage .idle .default [fun _ => false] [[1], [2]] :=
  ⟨rfl, rfl, fun keeps => absurd keeps.1 (by decide)⟩

theorem refused_message_lost_pair :
    ¬ KeepsMessage .idle .default [fun _ => false] [[1], [2]] ∧
      (Outbox.idle.attempts .default [fun _ => false] [[1], [2]]).1 = [[2]] ∧
      ((Outbox.idle.attempts .default [fun _ => false] [[1], [2]]).2.sendMessage (fun _ => true)
        (Outbox.idle.attempts .default [fun _ => false] [[1], [2]]).1
          .default).2.2.assembly.delivered ≠ [] ++ [[[1], [2]]] :=
  refused_message_lost .idle .default rfl [fun _ => false] (by simp) (by simp) [[1], [2]] (by simp)

end OfxZeroMQ
