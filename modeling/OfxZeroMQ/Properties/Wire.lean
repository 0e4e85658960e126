import Mathlib.Algebra.GroupWithZero.Nat
import OfxZeroMQ.Foundation.Transition
import OfxZeroMQ.Model.Wire

/-!
# Messages arrive as they were sent

Whatever the sizes of the buffers are, and in whatever pieces the bytes are written and read: the
bytes are the frames of the messages, and the messages are found in them again.
-/
namespace OfxZeroMQ

open Foundation

/-! ### Encoding -/

def frame (header : WireMsg → Bytes) (m : WireMsg) : Bytes := header m ++ m.data

namespace WireEncoder

variable {header : WireMsg → Bytes}

/-- What is still to be made ready of the message in progress. -/
def rest (e : WireEncoder) : Bytes :=
  match e.inProgress, e.next with
  | some m, .sizeReady => m.data
  | _, _ => []

/-- What is left of the message in progress. -/
def pending (e : WireEncoder) : Bytes := e.write ++ e.rest

/-- Nothing is left of a message that is not in progress any more. -/
def Tidy (e : WireEncoder) : Prop := e.inProgress = none → e.write = [] ∧ e.next = .messageReady

theorem pending_idle (e : WireEncoder) (tidy : e.Tidy) (idle : e.inProgress = none) :
    e.pending = [] := by
  obtain ⟨empty, -⟩ := tidy idle
  simp [pending, rest, idle, empty]

theorem loadMsg_spec (header : WireMsg → Bytes) (e : WireEncoder) (m : WireMsg) (tidy : e.Tidy)
    (idle : e.inProgress = none) :
    ∃ e', e.loadMsg header m = some e' ∧ e'.inProgress = some m ∧
      e'.pending = frame header m := by
  obtain ⟨-, ready⟩ := tidy idle
  refine ⟨_, by rw [loadMsg, idle], ?_, ?_⟩
  · simp [turn, ready]
  · simp [turn, ready, pending, rest, frame]

/-- Making the next part ready does not change what is left. -/
theorem ready_spec (header : WireMsg → Bytes) (e : WireEncoder) (m : WireMsg)
    (current : e.inProgress = some m)
    (unfinished : ¬(e.write = [] ∧ e.next = .messageReady)) (ready : WireEncoder)
    (turned : ready = if e.write = [] then e.turn header m else e) :
    ready.inProgress = some m ∧ ready.write ++ ready.rest = e.pending := by
  subst turned
  by_cases empty : e.write = []
  · cases next : e.next with
    | messageReady => exact absurd ⟨empty, next⟩ unfinished
    | sizeReady => simp [turn, pending, rest, current, empty, next]
  · rw [if_neg empty]
    exact ⟨current, rfl⟩

theorem fill_spec (own : Bool) (buffersize : Nat) (m : WireMsg) (e : WireEncoder) (out : Bytes)
    (current : e.inProgress = some m) :
    (fill header own buffersize m e out).1 ++ (fill header own buffersize m e out).2.pending =
        out ++ e.pending ∧
      (fill header own buffersize m e out).2.Tidy ∧
      ((fill header own buffersize m e out).2.inProgress = none ∨
        buffersize ≤ (fill header own buffersize m e out).1.length) := by
  fun_induction fill header own buffersize m e out with
  | case1 e out room finished =>
    refine ⟨?_, fun _ => finished, .inl rfl⟩
    simp [pending, rest, finished]
  | case2 e out room unfinished ready large =>
    -- The data of the message is handed out where it lies.
    obtain ⟨same, left⟩ := ready_spec header e m current unfinished ready (by simp [ready])
    obtain ⟨rfl, -, enough⟩ := large
    refine ⟨left, fun idle => ?_, .inr enough⟩
    exact absurd (same.symm.trans idle) (by simp)
  | case3 e out room unfinished ready small toCopy ih =>
    -- What is copied and what is left of it are one after the other what was there.
    obtain ⟨same, left⟩ := ready_spec header e m current unfinished ready (by simp [ready])
    obtain ⟨bytes, kept⟩ := ih same
    refine ⟨bytes.trans ?_, kept⟩
    rw [← left, List.append_assoc, pending, ← List.append_assoc (List.take toCopy ready.write),
      List.take_append_drop]
    rfl
  | case4 e out full =>
    exact ⟨rfl, by simp [Tidy, current], .inr (Nat.le_of_not_lt full)⟩

theorem encode_spec (header : WireMsg → Bytes) (own : Bool) (buffersize : Nat) (e : WireEncoder)
    (tidy : e.Tidy) :
    (e.encode header own buffersize).1 ++ (e.encode header own buffersize).2.pending =
        e.pending ∧
      (e.encode header own buffersize).2.Tidy ∧
      ((e.encode header own buffersize).2.inProgress = none ∨
        buffersize ≤ (e.encode header own buffersize).1.length) := by
  rw [encode]
  cases current : e.inProgress with
  | none => exact ⟨rfl, tidy, .inl current⟩
  | some m => simpa using fill_spec own buffersize m e [] current

end WireEncoder

namespace Output

variable {header : WireMsg → Bytes}

/-- All bytes that an engine has still to write. -/
def unwritten (header : WireMsg → Bytes) (o : Output) : Bytes :=
  o.outbuf ++ (o.encoder.pending ++ o.source.flatMap (frame header))

/-- As many messages are encoded as fit into a batch; nothing of the bytes is lost, and the batch is
short only where the messages have run out. -/
theorem pull_spec (batch : Nat) (nonempty : ∀ m, header m ≠ []) (source : List WireMsg)
    (own : Bool) (e : WireEncoder) (out : Bytes) (tidy : e.Tidy)
    (enough : e.inProgress = none ∨ batch ≤ out.length) :
    ∃ o, pull header batch own e out source = some o ∧
      o.unwritten header = unwritten header ⟨e, out, source⟩ ∧ o.encoder.Tidy ∧
      (o.encoder.inProgress = none ∨ batch ≤ o.outbuf.length) ∧
      (o.source = [] ∨ batch ≤ o.outbuf.length) := by
  induction source generalizing own e out with
  | nil => exact ⟨_, rfl, rfl, tidy, enough, .inl rfl⟩
  | cons m source ih =>
    rw [pull]
    by_cases room : out.length < batch
    · have idle : e.inProgress = none := enough.resolve_right (Nat.not_le_of_lt room)
      obtain ⟨loaded, loads, current, left⟩ := e.loadMsg_spec header m tidy idle
      have tidy_loaded : loaded.Tidy := fun absent => absurd (current.symm.trans absent) (by simp)
      obtain ⟨bytes_left, tidy', enough'⟩ :=
        loaded.encode_spec header own (batch - out.length) tidy_loaded
      rw [if_pos room, loads, Option.bind_some]
      rcases result : loaded.encode header own (batch - out.length) with ⟨bytes, e'⟩
      rw [result, left] at bytes_left
      rw [result] at tidy'
      have enough' : e'.inProgress = none ∨ batch - out.length ≤ bytes.length := by
        rw [result] at enough'
        exact enough'
      -- Every message has a header, so the encoder has given something.
      have written : bytes ≠ [] := by
        rintro rfl
        rcases enough' with done | full
        · rw [e'.pending_idle tidy' done] at bytes_left
          simp [frame, nonempty m] at bytes_left
        · simp only [List.length_nil] at full
          omega
      obtain ⟨o, pulled, same, rest⟩ := ih false e' (out ++ bytes) tidy' (by
        rw [List.length_append]
        exact enough'.imp_right (by omega))
      refine ⟨o, by simpa only [if_neg written] using pulled, same.trans ?_, rest⟩
      have before : e.pending = [] := e.pending_idle tidy idle
      simp only [unwritten, before, List.flatMap_cons, ← bytes_left, List.append_assoc,
        List.nil_append]
    · exact ⟨_, if_neg room, rfl, tidy, enough, .inr (Nat.le_of_not_lt room)⟩

/-- Nothing is lost or added between the messages and the bytes, and a socket that takes bytes gets
some as long as there are any. -/
theorem outEvent_spec (batch : Nat) (positive : 0 < batch) (nonempty : ∀ m, header m ≠ [])
    (o : Output) (tidy : o.encoder.Tidy) (nbytes : Nat) :
    ∃ bytes o', o.outEvent header batch nbytes = some (bytes, o') ∧
      bytes ++ o'.unwritten header = o.unwritten header ∧ o'.encoder.Tidy ∧
      (bytes = [] → 0 < nbytes →
        o'.outbuf = [] ∧ o'.source = [] ∧ o'.encoder.inProgress = none) := by
  obtain ⟨full, filled, same, tidy', ready⟩ : ∃ full : Output,
      (if o.outbuf = [] then
        pull header batch o.encoder.inProgress.isNone
          (o.encoder.encode header true batch).2 (o.encoder.encode header true batch).1 o.source
      else some o) = some full ∧ full.unwritten header = o.unwritten header ∧
      full.encoder.Tidy ∧
      (full.outbuf = [] → full.source = [] ∧ full.encoder.inProgress = none) := by
    -- A buffer that is not empty is written before anything else is encoded.
    by_cases empty : o.outbuf = []
    · obtain ⟨bytes_left, tidy', enough⟩ :=
        o.encoder.encode_spec header true batch tidy
      obtain ⟨full, pulled, same, kept, idle, drained⟩ := pull_spec batch nonempty o.source
        o.encoder.inProgress.isNone _ _ tidy' enough
      refine ⟨full, by rw [if_pos empty]; exact pulled, same.trans ?_, kept, fun nothing => ?_⟩
      · simp only [unwritten, empty, ← bytes_left, List.append_assoc, List.nil_append]
      · have short : ¬batch ≤ full.outbuf.length := by
          rw [nothing, List.length_nil]
          omega
        exact ⟨drained.resolve_right short, idle.resolve_right short⟩
    · exact ⟨o, if_neg empty, rfl, tidy, fun nothing => absurd nothing empty⟩
  refine ⟨full.outbuf.take nbytes, { full with outbuf := full.outbuf.drop nbytes }, ?_, ?_, tidy',
    fun nothing some_bytes => ?_⟩
  · simp only [outEvent, filled, Option.map_some]
  · rw [← same]
    simp only [unwritten, ← List.append_assoc, List.take_append_drop]
  · have empty : full.outbuf = [] := by
      rcases List.take_eq_nil_iff.mp nothing with zero | empty
      · omega
      · exact empty
    exact ⟨by simp [empty], ready empty⟩

end Output

/-! ### Decoding -/

namespace Input

variable {σ : Type} {M : BlockMachine σ UInt8 WireMsg WireError}

def forwarded (ms : List WireMsg) : List WireMsg := ms.filter fun m => !m.command

/-- What the engine has made of the bytes it has seen. -/
structure Consumed (M : BlockMachine σ UInt8 WireMsg WireError) (i j : Input σ) (seen : Bytes) :
    Prop where
  messages : j.pushed ++ j.stopped.toList = i.pushed ++ forwarded (M.run i.decoder seen).1
  outcome : (M.run i.decoder seen).2 = match j.error with
    | none => .ok j.decoder
    | some e => .error e
  calm : j.error.isSome = true → j.stopped = none
  plain : ∀ m, j.stopped = some m → m.command = false

/-- What is read in two pieces, the first of which was passed on without a refusal. -/
theorem Consumed.trans {i j k : Input σ} {seen later : Bytes} (first : Consumed M i j seen)
    (running : j.stopped = none) (good : j.error = none) (second : Consumed M j k later) :
    Consumed M i k (seen ++ later) := by
  have outcome := first.outcome
  have messages := first.messages
  rw [good] at outcome
  rw [running, Option.toList_none, List.append_nil] at messages
  have ran : M.run i.decoder (seen ++ later) =
      ((M.run i.decoder seen).1 ++ (M.run j.decoder later).1, (M.run j.decoder later).2) := by
    rw [M.run_append, BlockMachine.resume, outcome]
  refine ⟨?_, ?_, second.calm, second.plain⟩
  · rw [second.messages, messages, ran, forwarded, forwarded, forwarded, List.filter_append,
      List.append_assoc]
  · rw [ran]
    exact second.outcome

/-- A message is refused only where the session has no room for it. -/
theorem pushMsg_spec (i : Input σ) (m : WireMsg) :
    match i.pushMsg m with
    | none => m.command = false ∧ i.room = 0
    | some j => j.decoder = i.decoder ∧ j.inbuf = i.inbuf ∧ j.stopped = i.stopped ∧
        j.error = i.error ∧ j.pushed = i.pushed ++ forwarded [m] := by
  rw [pushMsg]
  cases command : m.command with
  | true => simp [forwarded, command]
  | false =>
    by_cases full : i.room = 0
    · simp [full]
    · simp [full, forwarded, command]

/-- The engine consumes its buffer message by message, up to an error or a refusal. -/
theorem process_spec (i : Input σ) (running : i.stopped = none) (good : i.error = none) :
    ∃ seen, i.inbuf = seen ++ (process M i).inbuf ∧ Consumed M i (process M i) seen ∧
      ((process M i).stopped = none → (process M i).error = none → (process M i).inbuf = []) ∧
      ((process M i).stopped ≠ none → seen ≠ []) := by
  fun_induction process M i with
  | case1 i empty =>
    refine ⟨[], rfl, ⟨by simp [running, BlockMachine.run, forwarded], ?_, fun _ => running,
      by simp [running]⟩, fun _ _ => empty, by simp [running]⟩
    rw [good]
    rfl
  | case2 i full r rest decoded =>
    -- The buffer ends in the middle of a message.
    have ran := M.decode_run i.decoder i.inbuf
    rw [decoded] at ran
    obtain ⟨rfl, ran⟩ := ran
    refine ⟨i.inbuf, (List.append_nil _).symm, ⟨?_, ?_, fun _ => running, by simp [running]⟩,
      fun _ _ => rfl, by simp [running]⟩
    · simp [ran, running, forwarded]
    · rw [ran, good]
  | case3 i full e rest decoded =>
    have ran := M.decode_run i.decoder i.inbuf
    rw [decoded] at ran
    obtain ⟨used, split, ran⟩ := ran
    refine ⟨used, split, ⟨?_, ?_, fun _ => running, by simp [running]⟩, by simp,
      by simp [running]⟩
    · simp [ran, running, forwarded]
    · rw [ran]
  | case4 i full m r rest decoded refused =>
    -- The session refuses the message; it is held back and the rest stays in the buffer.
    have ran := M.decode_run i.decoder i.inbuf
    rw [decoded] at ran
    obtain ⟨used, split, nonempty, ran⟩ := ran
    have spec := pushMsg_spec { i with decoder := r, inbuf := rest } m
    rw [refused] at spec
    refine ⟨used, split, ⟨?_, ?_, by simp [good], by simp [spec.1]⟩, by simp, fun _ => nonempty⟩
    · simp [ran, forwarded, spec.1]
    · rw [ran, good]
  | case5 i full m r rest decoded next pushed ih =>
    -- The message is passed on, and the rest of the buffer is processed after it.
    have ran := M.decode_run i.decoder i.inbuf
    rw [decoded] at ran
    obtain ⟨used, split, nonempty, ran⟩ := ran
    have spec := pushMsg_spec { i with decoder := r, inbuf := rest } m
    rw [pushed] at spec
    obtain ⟨decoder, inbuf, stopped, error, messages⟩ := spec
    have first : Consumed M i next used := by
      refine ⟨?_, ?_, fun _ => stopped.trans running, by simp [stopped, running]⟩
      · rw [messages, ran, stopped, running, Option.toList_none, List.append_nil]
      · rw [ran, error, good, decoder]
    obtain ⟨seen, tail, consumed, drained, -⟩ := ih (stopped.trans running) (error.trans good)
    refine ⟨used ++ seen, ?_, first.trans (stopped.trans running) (error.trans good) consumed,
      drained, fun _ => List.append_ne_nil_of_left_ne_nil nonempty seen⟩
    rw [split, List.append_assoc, ← tail, inbuf]

/-- The data that is where it belongs is decoded as any other. -/
theorem decodeInPlace_eq (r : Reader σ UInt8) (data : Bytes) (inside : data.length ≤ r.toRead) :
    decodeInPlace M r data = some (M.decode r data) := by
  rw [decodeInPlace, BlockMachine.decode]
  by_cases short : data.length < r.toRead
  · rw [dif_pos short, dif_pos short]
  · have full : data.length = r.toRead := by omega
    have nothing : data.drop r.toRead = [] := List.drop_eq_nil_of_le (by omega)
    have all : data.take r.toRead = data := List.take_of_length_le (by omega)
    rw [dif_neg short, dif_neg short, if_pos full, nothing, all]
    cases M.settle r.state (r.read ++ data) with
    | waiting next =>
      change _ = some (M.decode next [])
      rw [BlockMachine.decode, dif_pos (by simpa using next.positive)]
      simp [Reader.extend]
    | message => rfl
    | error => rfl

/-- Data that fits into the rest of the message leaves nothing over. -/
theorem decode_inside (r : Reader σ UInt8) (data : Bytes) (inside : data.length ≤ r.toRead) :
    (M.decode r data).2 = [] := by
  have same := decodeInPlace_eq (M := M) r data inside
  rw [decodeInPlace] at same
  split at same
  · exact congrArg Prod.snd (Option.some.inj same).symm
  · rw [Option.ite_none_right_eq_some] at same
    exact congrArg Prod.snd (Option.some.inj same.2).symm

/-- Where a rest of a message is read to does not matter. -/
theorem inEvent_eq (i : Input σ) (size : Nat) (arrived : Bytes) (running : i.stopped = none)
    (good : i.error = none) (some_bytes : arrived ≠ []) (empty : i.inbuf = [])
    (fits : arrived.length ≤ i.bufsize size) :
    i.inEvent M size arrived = some (process M { i with inbuf := arrived }) := by
  obtain ⟨decoder, inbuf, stopped, room, before, error⟩ := i
  obtain rfl : inbuf = [] := empty
  rw [inEvent, if_neg (by simp [show stopped = none from running, show error = none from good,
    some_bytes])]
  by_cases long : size ≤ decoder.toRead
  · rw [bufsize, if_pos long] at fits
    have nothing := decode_inside (M := M) decoder arrived fits
    rw [if_pos long, decodeInPlace_eq _ _ fits, Option.map_some, process, if_neg some_bytes]
    rcases result : M.decode decoder arrived with ⟨progress, rest⟩
    obtain rfl : rest = [] := by
      rw [result] at nothing
      exact nothing
    cases progress with
    | waiting r => rfl
    | error e => rfl
    | message m r =>
      dsimp only
      congr 1
      split
      · next refused =>
        split
        · rfl
        · next accepted => cases refused.symm.trans accepted
      · next next accepted =>
        split
        · next refused => cases refused.symm.trans accepted
        · next other again =>
          obtain rfl := Option.some.inj (accepted.symm.trans again)
          rw [process, if_pos (push_inbuf _ _ _ accepted)]
  · rw [if_neg long]

end Input

/-! ### What was read so far -/

section Reading

variable {σ : Type} {P : Protocol σ}

def Protocol.reader (P : Protocol σ) : Reader σ UInt8 := ⟨P.start, [], 1, Nat.one_pos⟩

/-- The engine has read the bytes, and passed on the messages in them. -/
structure HasRead (P : Protocol σ) (i : Input σ) (seen : Bytes) : Prop where
  messages : i.pushed ++ i.stopped.toList = Input.forwarded (P.machine.run P.reader seen).1
  outcome : (P.machine.run P.reader seen).2 = match i.error with
    | none => .ok i.decoder
    | some e => .error e
  calm : i.error.isSome = true → i.stopped = none
  plain : ∀ m, i.stopped = some m → m.command = false
  drained : i.stopped = none → i.error = none → i.inbuf = []

namespace HasRead

variable {i j : Input σ} {seen later : Bytes}

theorem initial : HasRead P (.initial P) [] :=
  ⟨rfl, rfl, fun _ => rfl, by simp [Input.initial], fun _ _ => rfl⟩

/-- Reading goes on where all messages so far were passed on. -/
theorem go_on (passed : i.pushed = Input.forwarded (P.machine.run P.reader seen).1)
    (outcome : (P.machine.run P.reader seen).2 = .ok i.decoder)
    (consumed : Input.Consumed P.machine i j later)
    (drained : j.stopped = none → j.error = none → j.inbuf = []) : HasRead P j (seen ++ later) := by
  have ran : P.machine.run P.reader (seen ++ later) = ((P.machine.run P.reader seen).1 ++
      (P.machine.run i.decoder later).1, (P.machine.run i.decoder later).2) := by
    rw [P.machine.run_append, BlockMachine.resume, outcome]
  refine ⟨?_, ?_, consumed.calm, consumed.plain, drained⟩
  · rw [consumed.messages, passed, ran, Input.forwarded, Input.forwarded, Input.forwarded,
      List.filter_append]
  · rw [ran]
    exact consumed.outcome

theorem inEvent (read : HasRead P i seen) (size : Nat) (arrived : Bytes)
    (running : i.stopped = none) (good : i.error = none) (fits : arrived.length ≤ i.bufsize size) :
    ∃ j more, i.inEvent P.machine size arrived = some j ∧ arrived = more ++ j.inbuf ∧
      HasRead P j (seen ++ more) := by
  by_cases nothing : arrived = []
  · refine ⟨i, [], by simp [Input.inEvent, nothing], ?_, by simpa using read⟩
    rw [nothing, read.drained running good]
    rfl
  · rw [Input.inEvent_eq i size arrived running good nothing (read.drained running good) fits]
    obtain ⟨more, split, consumed, drained, -⟩ :=
      Input.process_spec (M := P.machine) { i with inbuf := arrived } running good
    have outcome := read.outcome
    have messages := read.messages
    rw [good] at outcome
    rw [running, Option.toList_none, List.append_nil] at messages
    exact ⟨_, more, rfl, split,
      go_on (i := { i with inbuf := arrived }) messages outcome consumed drained⟩

theorem restartInput (read : HasRead P i seen) (room : Nat) :
    ∃ more, i.inbuf = more ++ (i.restartInput P.machine room).inbuf ∧
      HasRead P (i.restartInput P.machine room) (seen ++ more) := by
  have roomy : HasRead P { i with room := room } seen :=
    ⟨read.messages, read.outcome, read.calm, read.plain, read.drained⟩
  rw [Input.restartInput]
  have same : i.inbuf = ({ i with room := room } : Input σ).inbuf := rfl
  rw [same]
  generalize ({ i with room := room } : Input σ) = i at roomy
  cases stopped : i.stopped with
  | none => exact ⟨[], rfl, by rw [List.append_nil]; exact roomy⟩
  | some m =>
    have good : i.error = none := by
      cases error : i.error with
      | none => rfl
      | some e => exact absurd (stopped.symm.trans (roomy.calm (by simp [error]))) (by simp)
    have messages := roomy.messages
    have outcome := roomy.outcome
    have spec := Input.pushMsg_spec i m
    dsimp only
    cases pushed : Input.pushMsg i m with
    | none => exact ⟨[], rfl, by rw [List.append_nil]; exact roomy⟩
    | some next =>
      rw [pushed] at spec
      obtain ⟨decoder, inbuf, -, error, passed⟩ := spec
      obtain ⟨more, split, consumed, drained, -⟩ :=
        Input.process_spec (M := P.machine) { next with stopped := none } rfl (error.trans good)
      have all : next.pushed = Input.forwarded (P.machine.run P.reader seen).1 := by
        rw [passed, ← messages, stopped, Input.forwarded]
        simp [roomy.plain m stopped]
      rw [good] at outcome
      exact ⟨more, inbuf.symm.trans split, go_on (i := { next with stopped := none }) all
        (by rw [outcome, decoder]) consumed drained⟩

end HasRead

end Reading

/-! ### Frames -/

theorem get_putUint64 (value : Nat) (fits : value < 2 ^ 64) :
    getUint64 (putUint64 value) = value := by
  simp only [getUint64, putUint64, List.map_cons, List.map_nil, List.foldl_cons, List.foldl_nil,
    UInt8.toNat_ofNat', Nat.shiftRight_eq_div_pow]
  omega

/-- What arrives of a message: a version without commands does not tell them apart. -/
def Version.arriving (v : Version) (m : WireMsg) : WireMsg :=
  match v with
  | .v1 => { m with command := false }
  | .v2 => m

/-- A message that the other end accepts. -/
structure Fits (maxMsgSize : Option Nat) (m : WireMsg) : Prop where
  allowed : exceeds maxMsgSize m.data.length = false
  small : m.data.length + 1 < 2 ^ 64

section Frames

variable (maxMsgSize : Option Nat) (m : WireMsg) (fits : Fits maxMsgSize m)
include fits

theorem v1_frame :
    (V1.protocol maxMsgSize).machine.run (V1.protocol maxMsgSize).reader
        (frame (V1.protocol maxMsgSize).header m) =
      ([{ m with command := false }], .ok (V1.protocol maxMsgSize).reader) := by
  let M := (V1.protocol maxMsgSize).machine
  have eight : 0 < 8 := by decide
  have flag : ((if m.more then 1 else 0 : UInt8) &&& 1 != 0) = m.more := by
    cases m.more <;> rfl
  have flags : M.turn (.flagsReady m.data.length) [if m.more then 1 else 0] =
      .more (.messageReady m.more) m.data.length := by
    simp [M, V1.protocol, V1.turn, flag]
  have body : M.run ⟨.flagsReady m.data.length, [], 1, Nat.one_pos⟩
      ([if m.more then 1 else 0] ++ m.data) =
        ([{ m with command := false }], .ok ⟨.oneByteSizeReady, [], 1, Nat.one_pos⟩) :=
    M.run_counted rfl flags rfl
  by_cases short : m.data.length + 1 < 255
  · have size : (UInt8.ofNat (m.data.length + 1)).toNat = m.data.length + 1 := by
      rw [UInt8.toNat_ofNat']
      omega
    have sized : M.turn .oneByteSizeReady [UInt8.ofNat (m.data.length + 1)] =
        .more (.flagsReady m.data.length) 1 := by
      simp only [M, V1.protocol, V1.turn, List.headD_cons, size, Nat.add_sub_cancel, fits.allowed]
      rw [if_neg (by omega), if_neg (by omega), if_neg (by simp)]
    have header : frame (V1.protocol maxMsgSize).header m =
        [UInt8.ofNat (m.data.length + 1)] ++ ([if m.more then 1 else 0] ++ m.data) := by
      simp [frame, V1.protocol, V1.header, short]
    rw [header]
    exact (M.run_next rfl Nat.one_pos sized).trans body
  · have sized : M.turn .eightByteSizeReady (putUint64 (m.data.length + 1)) =
        .more (.flagsReady m.data.length) 1 := by
      simp [M, V1.protocol, V1.turn, get_putUint64 _ fits.small, fits.allowed]
    have escape : M.turn .oneByteSizeReady [255] = .more .eightByteSizeReady 8 :=
      rfl
    have header : frame (V1.protocol maxMsgSize).header m =
        [255] ++ (putUint64 (m.data.length + 1) ++ ([if m.more then 1 else 0] ++ m.data)) := by
      simp [frame, V1.protocol, V1.header, short]
    have long : M.run ⟨.eightByteSizeReady, [], 8, eight⟩
        (putUint64 (m.data.length + 1) ++ ([if m.more then 1 else 0] ++ m.data)) = _ :=
      (M.run_next rfl Nat.one_pos sized).trans body
    rw [header]
    exact (M.run_next rfl eight escape).trans long

theorem v2_frame :
    (V2.protocol maxMsgSize).machine.run (V2.protocol maxMsgSize).reader
        (frame (V2.protocol maxMsgSize).header m) =
      ([m], .ok (V2.protocol maxMsgSize).reader) := by
  let M := (V2.protocol maxMsgSize).machine
  have eight : 0 < 8 := by decide
  have sized : V2.sizeReady maxMsgSize m.more m.command m.data.length =
      .more (.messageReady m.more m.command) m.data.length := by
    simp [V2.sizeReady, fits.allowed]
  by_cases short : m.data.length ≤ 255
  · have size : (UInt8.ofNat m.data.length).toNat = m.data.length := by
      rw [UInt8.toNat_ofNat']
      omega
    have flags : M.turn .flagsReady
        [(if m.more then 1 else 0) ||| 0 ||| (if m.command then 4 else 0)] =
          .more (.oneByteSizeReady m.more m.command) 1 := by
      cases m.more <;> cases m.command <;> rfl
    have counted : M.turn (.oneByteSizeReady m.more m.command)
        [UInt8.ofNat m.data.length] = .more (.messageReady m.more m.command) m.data.length := by
      simp only [M, V2.protocol, V2.turn, List.headD_cons, size, sized]
    have body : M.run ⟨.oneByteSizeReady m.more m.command, [], 1, Nat.one_pos⟩
        ([UInt8.ofNat m.data.length] ++ m.data) =
          ([m], .ok ⟨.flagsReady, [], 1, Nat.one_pos⟩) := M.run_counted rfl counted rfl
    have header : frame (V2.protocol maxMsgSize).header m =
        [(if m.more then 1 else 0) ||| 0 ||| (if m.command then 4 else 0)] ++
          ([UInt8.ofNat m.data.length] ++ m.data) := by
      simp [frame, V2.protocol, V2.header, Nat.not_lt.mpr short]
    rw [header]
    exact (M.run_next rfl Nat.one_pos flags).trans body
  · have flags : M.turn .flagsReady
        [(if m.more then 1 else 0) ||| 2 ||| (if m.command then 4 else 0)] =
          .more (.eightByteSizeReady m.more m.command) 8 := by
      cases m.more <;> cases m.command <;> rfl
    have counted : M.turn (.eightByteSizeReady m.more m.command)
        (putUint64 m.data.length) = .more (.messageReady m.more m.command) m.data.length := by
      simp only [M, V2.protocol, V2.turn, get_putUint64 _ (Nat.lt_of_succ_lt fits.small), sized]
    have body : M.run ⟨.eightByteSizeReady m.more m.command, [], 8, eight⟩
        (putUint64 m.data.length ++ m.data) =
          ([m], .ok ⟨.flagsReady, [], 1, Nat.one_pos⟩) := M.run_counted rfl counted rfl
    have header : frame (V2.protocol maxMsgSize).header m =
        [(if m.more then 1 else 0) ||| 2 ||| (if m.command then 4 else 0)] ++
          (putUint64 m.data.length ++ m.data) := by
      simp [frame, V2.protocol, V2.header, Nat.not_le.mp short]
    rw [header]
    exact (M.run_next rfl eight flags).trans body

end Frames

theorem Version.frame (v : Version) (maxMsgSize : Option Nat) (m : WireMsg)
    (fits : Fits maxMsgSize m) :
    (v.protocol maxMsgSize).machine.run (v.protocol maxMsgSize).reader
        (OfxZeroMQ.frame (v.protocol maxMsgSize).header m) =
      ([v.arriving m], .ok (v.protocol maxMsgSize).reader) := by
  cases v with
  | v1 => exact v1_frame maxMsgSize m fits
  | v2 => exact v2_frame maxMsgSize m fits

/-! ### From one engine to the other -/

namespace Version

variable (v : Version) (maxMsgSize : Option Nat)

theorem header_nonempty (m : WireMsg) : (v.protocol maxMsgSize).header m ≠ [] := by
  cases v with
  | v1 =>
    simp only [protocol, V1.protocol, V1.header]
    split <;> simp
  | v2 =>
    simp only [protocol, V2.protocol, V2.header]
    split <;> simp

theorem frames (ms : List WireMsg) (fits : ∀ m ∈ ms, Fits maxMsgSize m) :
    (v.protocol maxMsgSize).machine.run (v.protocol maxMsgSize).reader
        (ms.flatMap (OfxZeroMQ.frame (v.protocol maxMsgSize).header)) =
      (ms.map v.arriving, .ok (v.protocol maxMsgSize).reader) :=
  BlockMachine.run_frames _ _ _ _ _ fun m member => v.frame maxMsgSize m (fits m member)

end Version

namespace Connection

variable {v : Version} {maxMsgSize : Option Nat} {batch : Nat}

/-- Every byte of the frames is at one place, and those that were read have been decoded. -/
structure Sound (v : Version) (maxMsgSize : Option Nat) (s : Connection v.Step) : Prop where
  tidy : s.output.encoder.Tidy
  fits : ∀ m ∈ s.sent, Fits maxMsgSize m
  bytes : ∃ seen, s.sent.flatMap (frame (v.protocol maxMsgSize).header) =
      seen ++ (s.input.inbuf ++ (s.wire ++ s.output.unwritten (v.protocol maxMsgSize).header)) ∧
    HasRead (v.protocol maxMsgSize) s.input seen

theorem initial_sound : (initial (v.protocol maxMsgSize)).Sound v maxMsgSize :=
  ⟨fun _ => ⟨rfl, rfl⟩, by simp [initial], [], rfl, HasRead.initial⟩

namespace Sound

variable {s : Connection v.Step}

/-- What was passed on comes first of what was sent, and the engine does not fail. -/
theorem delivered (sound : s.Sound v maxMsgSize) :
    s.input.error = none ∧
      ∃ left, Input.forwarded (s.sent.map v.arriving) =
          s.input.pushed ++ s.input.stopped.toList ++ left ∧
        (s.input.stopped = none → s.wire = [] →
          s.output.unwritten (v.protocol maxMsgSize).header = [] → left = []) := by
  obtain ⟨seen, split, read⟩ := sound.bytes
  have all := v.frames maxMsgSize s.sent sound.fits
  rw [split] at all
  obtain ⟨next, ran, messages, -⟩ := BlockMachine.run_ok_append _ all
  have outcome := read.outcome
  rw [ran] at outcome
  have good : s.input.error = none := by
    cases error : s.input.error with
    | none => rfl
    | some e =>
      rw [error] at outcome
      cases outcome
  refine ⟨good, Input.forwarded ((v.protocol maxMsgSize).machine.run next
    (s.input.inbuf ++ (s.wire ++ s.output.unwritten (v.protocol maxMsgSize).header))).1,
      ?_, ?_⟩
  · rw [messages, Input.forwarded, List.filter_append, read.messages]
    rfl
  · intro running none_on_wire none_left
    rw [read.drained running good, none_on_wire, none_left]
    rfl

theorem step (sound : s.Sound v maxMsgSize) (positive : 0 < batch) (event : ConnectionEvent)
    (fits : ∀ m, event = .send m → Fits maxMsgSize m) :
    ∃ t, s.step (v.protocol maxMsgSize) batch event = some t ∧ t.Sound v maxMsgSize := by
  obtain ⟨seen, split, read⟩ := sound.bytes
  cases event with
  | send m =>
    refine ⟨_, rfl, sound.tidy, ?_, seen, ?_, read⟩
    · intro n member
      rcases List.mem_append.mp member with old | new
      · exact sound.fits n old
      · exact List.mem_singleton.mp new ▸ fits m rfl
    · simp only [List.flatMap_append, split, Output.unwritten, List.append_assoc]
  | outEvent nbytes =>
    obtain ⟨bytes, output, written, same, tidy, -⟩ := Output.outEvent_spec batch positive
      (v.header_nonempty maxMsgSize) s.output sound.tidy nbytes
    refine ⟨{ s with output := output, wire := s.wire ++ bytes },
      by rw [Connection.step, written]; rfl, tidy, sound.fits, seen, ?_, read⟩
    rw [split, ← same]
    simp only [List.append_assoc]
  | inEvent nbytes size =>
    rw [Connection.step]
    have good := sound.delivered.1
    cases stopped : s.input.stopped with
    | some m => exact ⟨s, by simp, sound⟩
    | none =>
      obtain ⟨input, more, entered, used, read'⟩ := read.inEvent size
        (s.wire.take (min nbytes (s.input.bufsize size))) stopped good (by
          rw [List.length_take]
          omega)
      simp only [good, Option.isSome_none, Bool.or_self, Bool.false_eq_true, if_false, entered]
      refine ⟨_, rfl, sound.tidy, sound.fits, seen ++ more, ?_, read'⟩
      have wire := List.take_append_drop (min nbytes (s.input.bufsize size)) s.wire
      rw [used] at wire
      rw [split, read.drained stopped good, List.nil_append]
      nth_rewrite 1 [← wire]
      simp only [List.append_assoc]
  | restartInput room =>
    obtain ⟨more, used, read'⟩ := read.restartInput room
    refine ⟨_, rfl, sound.tidy, sound.fits, seen ++ more, ?_, read'⟩
    rw [split, used]
    simp only [List.append_assoc]

end Sound

/-! ### Nothing gets stuck -/

/-- Nothing is left to be done. -/
structure Quiet (s : Connection v.Step) : Prop where
  source : s.output.source = []
  outbuf : s.output.outbuf = []
  idle : s.output.encoder.inProgress = none
  wire : s.wire = []
  running : s.input.stopped = none

theorem Sound.delivered_quiet {s : Connection v.Step} (sound : s.Sound v maxMsgSize)
    (quiet : s.Quiet) : s.input.pushed = Input.forwarded (s.sent.map v.arriving) := by
  obtain ⟨-, left, split, nothing⟩ := sound.delivered
  have unwritten : s.output.unwritten (v.protocol maxMsgSize).header = [] := by
    simp [Output.unwritten, quiet.outbuf, quiet.source,
      WireEncoder.pending_idle _ sound.tidy quiet.idle]
  rw [nothing quiet.running quiet.wire unwritten, quiet.running] at split
  simpa using split.symm

/-- How much is left to be done. -/
def left (header : WireMsg → Bytes) (s : Connection v.Step) : Nat :=
  4 * (s.output.unwritten header).length + 2 * s.wire.length + 2 * s.input.inbuf.length +
    s.input.stopped.toList.length +
    if s.output.source = [] ∧ s.output.outbuf = [] ∧ s.output.encoder.inProgress = none then 0
    else 1

theorem process_left {σ : Type} {M : BlockMachine σ UInt8 WireMsg WireError} (i : Input σ)
    (running : i.stopped = none) (good : i.error = none) (fine : (i.process M).error = none) :
    2 * (i.process M).inbuf.length + (i.process M).stopped.toList.length ≤
      2 * i.inbuf.length - 1 := by
  obtain ⟨seen, split, -, drained, consumed⟩ := Input.process_spec (M := M) i running good
  cases stopped : (i.process M).stopped with
  | none =>
    rw [drained stopped fine]
    simp
  | some m =>
    have := List.length_pos_of_ne_nil (consumed (by simp [stopped]))
    rw [split, List.length_append]
    simp
    omega

theorem restart_left {σ : Type} {M : BlockMachine σ UInt8 WireMsg WireError} (i : Input σ)
    {m : WireMsg} (stopped : i.stopped = some m) (good : i.error = none)
    (plain : m.command = false) (fine : (i.restartInput M 1).error = none) :
    2 * (i.restartInput M 1).inbuf.length + (i.restartInput M 1).stopped.toList.length <
      2 * i.inbuf.length + i.stopped.toList.length := by
  have restarts : i.restartInput M 1 =
      Input.process M { i with room := 0, pushed := i.pushed ++ [m], stopped := none } := by
    simp [Input.restartInput, stopped, Input.pushMsg, plain]
  rw [restarts] at fine ⊢
  have := process_left { i with room := 0, pushed := i.pushed ++ [m], stopped := none } rfl good
    fine
  rw [stopped]
  simp only [Option.toList_some, List.length_singleton] at this ⊢
  omega

theorem Sound.closer {s : Connection v.Step} (sound : s.Sound v maxMsgSize) (positive : 0 < batch)
    (busy : ¬s.Quiet) :
    ∃ event t, (∀ m, event ≠ .send m) ∧
      s.step (v.protocol maxMsgSize) batch event = some t ∧
      (t.Sound v maxMsgSize ∧ t.sent = s.sent) ∧
      t.left (v.protocol maxMsgSize).header < s.left (v.protocol maxMsgSize).header := by
  have good := sound.delivered.1
  by_cases drained : s.output.source = [] ∧ s.output.outbuf = [] ∧
      s.output.encoder.inProgress = none
  · -- The sender has no more bytes: the receiver passes on what it holds, or reads one byte.
    obtain ⟨source, outbuf, idle⟩ := drained
    cases stopped : s.input.stopped with
    | some m =>
      obtain ⟨t, stepped, kept⟩ := sound.step positive (.restartInput 1) (by simp)
      obtain ⟨_, -, read⟩ := sound.bytes
      have fine := kept.delivered.1
      have result := stepped
      rw [Connection.step] at result
      obtain rfl := Option.some.inj result
      refine ⟨.restartInput 1, _, by simp, stepped, ⟨kept, rfl⟩, ?_⟩
      have := restart_left s.input stopped good (read.plain m stopped) fine
      simp only [left]
      omega
    | none =>
      have wire : s.wire ≠ [] := fun wire => busy ⟨source, outbuf, idle, wire, stopped⟩
      obtain ⟨t, stepped, kept⟩ := sound.step positive (.inEvent 1 1) (by simp)
      obtain ⟨_, -, read⟩ := sound.bytes
      have fine := kept.delivered.1
      have one : min 1 (s.input.bufsize 1) = 1 := by
        have := s.input.decoder.positive
        rw [Input.bufsize]
        split <;> omega
      obtain ⟨byte, rest, split⟩ := List.exists_cons_of_ne_nil wire
      have result := stepped
      simp only [Connection.step, stopped, good, Option.isSome_none, Bool.or_self,
        Bool.false_eq_true, if_false, one, split, List.take_succ_cons, List.take_zero,
        List.drop_succ_cons, List.drop_zero] at result
      rw [Input.inEvent_eq s.input 1 [byte] stopped good (by simp) (read.drained stopped good) (by
        rw [List.length_singleton]
        omega)] at result
      obtain rfl := Option.some.inj result
      refine ⟨.inEvent 1 1, _, by simp, stepped, ⟨kept, rfl⟩, ?_⟩
      have := process_left { s.input with inbuf := [byte] } stopped good fine
      simp only [left, split, List.length_cons, List.length_nil] at this ⊢
      omega
  · -- The sender writes a byte, or finds out that there is none.
    obtain ⟨bytes, output, written, same, tidy, all⟩ := Output.outEvent_spec batch positive
      (v.header_nonempty maxMsgSize) s.output sound.tidy 1
    obtain ⟨t, stepped, kept⟩ := sound.step positive (.outEvent 1) (by simp)
    have result := stepped
    rw [Connection.step, written] at result
    obtain rfl := Option.some.inj result
    refine ⟨.outEvent 1, _, by simp, stepped, ⟨kept, rfl⟩, ?_⟩
    have length := congrArg List.length same
    rw [List.length_append] at length
    simp only [left, if_neg drained, List.length_append]
    by_cases nothing : bytes = []
    · obtain ⟨outbuf, source, idle⟩ := all nothing Nat.one_pos
      rw [if_pos ⟨source, outbuf, idle⟩]
      simp only [nothing, List.length_nil] at length ⊢
      omega
    · have := List.length_pos_of_ne_nil nothing
      split <;> omega

theorem run_sound (v : Version) (maxMsgSize : Option Nat) (batch : Nat) (positive : 0 < batch)
    (events : List ConnectionEvent) (fits : ∀ m, .send m ∈ events → Fits maxMsgSize m) :
    ∃ s, Transition.run (Connection.step (v.protocol maxMsgSize) batch)
        (Connection.initial (v.protocol maxMsgSize)) events = some s ∧ s.Sound v maxMsgSize :=
  Transition.run_total (Connection.step (v.protocol maxMsgSize) batch)
    (fun _ s => s.Sound v maxMsgSize) (fun event => ∀ m, event = .send m → Fits maxMsgSize m)
    (fun _ _ event guard sound => sound.step positive event guard) 0 _ events
    (fun _ member m same => fits m (same ▸ member)) initial_sound

end Connection

/-- Two engines that talk ZMTP, with whatever batch and buffer sizes, whatever pieces the sockets
take and give, and a session that refuses messages for any time: no assertion fails, no message is
taken for a malformed or an oversized one, those that were passed on are the first of those that
were sent, in order and unchanged, and when nothing is left to do they are all of them. -/
theorem link_delivers (v : Version) (maxMsgSize : Option Nat) (batch : Nat)
    (positive : 0 < batch) (events : List ConnectionEvent)
    (fits : ∀ m, .send m ∈ events → Fits maxMsgSize m) :
    ∃ s, Transition.run (Connection.step (v.protocol maxMsgSize) batch)
        (Connection.initial (v.protocol maxMsgSize)) events = some s ∧
      s.input.error = none ∧
      s.input.pushed ++ s.input.stopped.toList <+: Input.forwarded (s.sent.map v.arriving) ∧
      (s.Quiet → s.input.pushed = Input.forwarded (s.sent.map v.arriving)) := by
  obtain ⟨s, ran, sound⟩ := Connection.run_sound v maxMsgSize batch positive events fits
  obtain ⟨good, left, split, -⟩ := sound.delivered
  exact ⟨s, ran, good, ⟨left, split.symm⟩, sound.delivered_quiet⟩

theorem link_delivers_batches :
    ∃ s, Transition.run (Connection.step (Version.v2.protocol (some 300)) 4)
        (Connection.initial (Version.v2.protocol (some 300)))
        [.send ⟨[1, 2, 3], true, false⟩, .send ⟨[], false, false⟩, .outEvent 3, .inEvent 9 8,
          .outEvent 9, .inEvent 9 2, .restartInput 1, .outEvent 9, .inEvent 9 2] = some s ∧
      s.input.error = none ∧
      s.input.pushed ++ s.input.stopped.toList <+:
        Input.forwarded (s.sent.map Version.v2.arriving) ∧
      (s.Quiet → s.input.pushed = Input.forwarded (s.sent.map Version.v2.arriving)) :=
  link_delivers .v2 (some 300) 4 (by decide) _ (by
    rintro m member
    obtain rfl | rfl : m = ⟨[1, 2, 3], true, false⟩ ∨ m = ⟨[], false, false⟩ := by
      simpa using member
    all_goals exact ⟨by decide, by decide⟩)

/-- From every state that two engines come to, everything that was sent can still be delivered,
without anything more to be sent. -/
theorem link_never_stuck (v : Version) (maxMsgSize : Option Nat) (batch : Nat)
    (positive : 0 < batch) (events : List ConnectionEvent)
    (fits : ∀ m, .send m ∈ events → Fits maxMsgSize m) :
    ∃ s, Transition.run (Connection.step (v.protocol maxMsgSize) batch)
        (Connection.initial (v.protocol maxMsgSize)) events = some s ∧
      ∃ later t, (∀ m, .send m ∉ later) ∧
        Transition.run (Connection.step (v.protocol maxMsgSize) batch) s later = some t ∧
        t.Quiet ∧ t.input.pushed = Input.forwarded (s.sent.map v.arriving) := by
  obtain ⟨s, ran, sound⟩ := Connection.run_sound v maxMsgSize batch positive events fits
  obtain ⟨later, t, quiet_events, reached, ⟨kept, same⟩, quiet⟩ := Transition.run_reaches
    (Connection.step (v.protocol maxMsgSize) batch)
    (fun t => t.Sound v maxMsgSize ∧ t.sent = s.sent) Connection.Quiet
    (fun event => ∀ m, event ≠ .send m) (Connection.left (v.protocol maxMsgSize).header)
    (fun u holds busy => by
      obtain ⟨event, t, silent, stepped, ⟨kept, same⟩, nearer⟩ := holds.1.closer positive busy
      exact ⟨event, t, silent, stepped, ⟨kept, same.trans holds.2⟩, nearer⟩) s ⟨sound, rfl⟩
  refine ⟨s, ran, later, t, fun m member => quiet_events _ member m rfl, reached, quiet, ?_⟩
  rw [kept.delivered_quiet quiet, same]

theorem link_never_stuck_empty :
    ∃ s, Transition.run (Connection.step (Version.v1.protocol none) 1)
          (Connection.initial (Version.v1.protocol none))
          [.send ⟨[], false, false⟩, .outEvent 1] = some s ∧
      ∃ later t, (∀ m, .send m ∉ later) ∧
        Transition.run (Connection.step (Version.v1.protocol none) 1) s later = some t ∧
        t.Quiet ∧ t.input.pushed = Input.forwarded (s.sent.map Version.v1.arriving) :=
  link_never_stuck .v1 none 1 (by decide) _ (by
    rintro m member
    obtain rfl : m = ⟨[], false, false⟩ := by simpa using member
    exact ⟨rfl, by decide⟩)

/-! ### Whatever the other end sends -/

section Keeps

variable (maxMsgSize : Option Nat)

theorem v1_keeps : (V1.protocol maxMsgSize).machine.Keeps
    (fun s n => match s with
      | .flagsReady size => exceeds maxMsgSize size = false
      | .messageReady _ => exceeds maxMsgSize n = false
      | _ => True)
    (fun m => exceeds maxMsgSize m.data.length = false) := by
  constructor
  · intro s block t n holds turned
    have turned : V1.turn maxMsgSize s block = .more t n := turned
    cases s <;> grind [V1.turn]
  · intro s block m t n positive holds turned
    have turned : V1.turn maxMsgSize s block = .message m t n positive := turned
    cases s <;> grind [V1.turn]

theorem v2_keeps : (V2.protocol maxMsgSize).machine.Keeps
    (fun s n => match s with
      | .messageReady _ _ => exceeds maxMsgSize n = false
      | _ => True)
    (fun m => exceeds maxMsgSize m.data.length = false) := by
  constructor
  · intro s block t n holds turned
    have turned : V2.turn maxMsgSize s block = .more t n := turned
    cases s <;> grind [V2.turn, V2.sizeReady]
  · intro s block m t n positive holds turned
    have turned : V2.turn maxMsgSize s block = .message m t n positive := turned
    cases s <;> grind [V2.turn, V2.sizeReady]

theorem Version.sizes (v : Version) (stream : Bytes) :
    ∀ m ∈ ((v.protocol maxMsgSize).machine.run (v.protocol maxMsgSize).reader stream).1,
      exceeds maxMsgSize m.data.length = false := by
  cases v with
  | v1 => exact (v1_keeps maxMsgSize).run _ stream trivial
  | v2 => exact (v2_keeps maxMsgSize).run _ stream trivial

end Keeps

namespace Connection

variable {σ : Type} {P : Protocol σ} {batch : Nat}

/-- A connection over which these bytes come. -/
def reading (P : Protocol σ) (bytes : Bytes) : Connection σ := { initial P with wire := bytes }

theorem step_reading {s : Connection σ} {bytes : Bytes} (event : ConnectionEvent)
    (receives : (∃ nbytes size, event = .inEvent nbytes size) ∨
      ∃ room, event = .restartInput room)
    (holds : ∃ seen, bytes = seen ++ (s.input.inbuf ++ s.wire) ∧ HasRead P s.input seen) :
    ∃ t, s.step P batch event = some t ∧
      ∃ seen, bytes = seen ++ (t.input.inbuf ++ t.wire) ∧ HasRead P t.input seen := by
  obtain ⟨seen, split, read⟩ := holds
  rcases receives with ⟨nbytes, size, rfl⟩ | ⟨room, rfl⟩
  · rw [Connection.step]
    split
    · exact ⟨s, rfl, seen, split, read⟩
    · next open_input =>
      obtain ⟨running, good⟩ : s.input.stopped = none ∧ s.input.error = none := by
        simpa using open_input
      obtain ⟨input, more, entered, used, read'⟩ := read.inEvent size
        (s.wire.take (min nbytes (s.input.bufsize size))) running good (by
          rw [List.length_take]
          omega)
      have wire := List.take_append_drop (min nbytes (s.input.bufsize size)) s.wire
      rw [used] at wire
      refine ⟨{ s with wire := s.wire.drop (min nbytes (s.input.bufsize size)), input := input },
        by simp only [entered, Option.map_some], seen ++ more, ?_, read'⟩
      rw [split, read.drained running good, List.nil_append]
      nth_rewrite 1 [← wire]
      simp only [List.append_assoc]
  · obtain ⟨more, used, read'⟩ := read.restartInput room
    refine ⟨_, rfl, seen ++ more, ?_, read'⟩
    rw [split, used]
    simp only [List.append_assoc]

end Connection

/-- Whatever bytes come, well-formed or not, in whatever pieces they are read and whenever the
session has room: what is passed on is what a decoder finds that reads one byte after the other, and
so is the error. No message is larger than allowed. -/
theorem pieces_do_not_matter (v : Version) (maxMsgSize : Option Nat) (batch : Nat) (bytes : Bytes)
    (events : List ConnectionEvent) (receives : ∀ event ∈ events,
      (∃ nbytes size, event = .inEvent nbytes size) ∨ ∃ room, event = .restartInput room) :
    ∃ s, Transition.run (Connection.step (v.protocol maxMsgSize) batch)
        (Connection.reading (v.protocol maxMsgSize) bytes) events = some s ∧
      ∃ ms outcome, (v.protocol maxMsgSize).machine.run (v.protocol maxMsgSize).reader bytes =
          (ms, outcome) ∧
        s.input.pushed ++ s.input.stopped.toList <+: Input.forwarded ms ∧
        (s.wire = [] ∧ s.input.stopped = none ∨ s.input.error ≠ none →
          s.input.pushed = Input.forwarded ms ∧
            outcome = match s.input.error with
              | none => .ok s.input.decoder
              | some e => .error e) ∧
        ∀ m ∈ s.input.pushed, exceeds maxMsgSize m.data.length = false := by
  let P := v.protocol maxMsgSize
  obtain ⟨s, ran, seen, split, read⟩ := Transition.run_total (Connection.step P batch)
    (fun _ s => ∃ seen, bytes = seen ++ (s.input.inbuf ++ s.wire) ∧ HasRead P s.input seen)
    (fun event => (∃ nbytes size, event = .inEvent nbytes size) ∨
      ∃ room, event = .restartInput room)
    (fun _ _ event guard holds => Connection.step_reading event guard holds) 0
    (Connection.reading P bytes) events receives ⟨[], rfl, HasRead.initial⟩
  have sizes := v.sizes maxMsgSize bytes
  have whole : P.machine.run P.reader bytes = P.machine.resume (P.machine.run P.reader seen)
      (s.input.inbuf ++ s.wire) := by
    rw [split, BlockMachine.run_append]
  have outcome := read.outcome
  obtain ⟨rest, messages⟩ : s.input.pushed ++ s.input.stopped.toList <+:
      Input.forwarded (P.machine.run P.reader bytes).1 := by
    rw [whole, BlockMachine.resume, outcome, read.messages]
    split
    · exact ⟨_, (List.filter_append ..).symm⟩
    · exact List.prefix_rfl
  refine ⟨s, ran, _, _, rfl, ⟨rest, messages⟩, ?_, fun m member => ?_⟩
  · intro finished
    have messages := read.messages
    cases error : s.input.error with
    | none =>
      -- Everything that came was read, so what was seen is the whole stream.
      obtain ⟨none_left, running⟩ := finished.resolve_right (by simp [error])
      rw [error] at outcome
      have same : bytes = seen := by
        rw [split, read.drained running error, none_left]
        simp
      rw [running, Option.toList_none, List.append_nil] at messages
      rw [same]
      exact ⟨messages, outcome⟩
    | some e =>
      rw [error] at outcome
      rw [read.calm (by simp [error]), Option.toList_none, List.append_nil] at messages
      rw [whole, BlockMachine.resume, outcome]
      exact ⟨messages, rfl⟩
  · refine sizes m ?_
    have passed : m ∈ Input.forwarded (P.machine.run P.reader bytes).1 := by
      rw [← messages]
      simp [member]
    exact (List.mem_filter.mp passed).1

/-- A message, and one that is too large, in three pieces. -/
theorem pieces_do_not_matter_oversized :
    ∃ s, Transition.run (Connection.step (Version.v2.protocol (some 1)) 1)
        (Connection.reading (Version.v2.protocol (some 1)) [0, 1, 7, 0, 2, 7, 7])
        [.inEvent 2 8, .inEvent 1 8, .restartInput 1, .inEvent 9 8] = some s ∧
      ∃ ms outcome, (Version.v2.protocol (some 1)).machine.run
          (Version.v2.protocol (some 1)).reader [0, 1, 7, 0, 2, 7, 7] = (ms, outcome) ∧
        s.input.pushed ++ s.input.stopped.toList <+: Input.forwarded ms ∧
        (s.wire = [] ∧ s.input.stopped = none ∨ s.input.error ≠ none →
          s.input.pushed = Input.forwarded ms ∧
            outcome = match s.input.error with
              | none => .ok s.input.decoder
              | some e => .error e) ∧
        ∀ m ∈ s.input.pushed, exceeds (some 1) m.data.length = false :=
  pieces_do_not_matter .v2 (some 1) 1 _ _ (by simp)

end OfxZeroMQ
