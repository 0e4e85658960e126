import Mathlib.Data.List.Chain
import Mathlib.Data.List.Infix
import OfxZeroMQ.Model.Routing
import OfxZeroMQ.Properties.Pipe

/-!
# What a call changes of a pair of pipes

A socket that reads leaves alone what it writes, and the other way round.
-/
namespace OfxZeroMQ

open Foundation

variable {α : Type}

/-- A message that an application gets to see. -/
def PipeMsg.forUser (m : PipeMsg α) : Bool := !m.isCredential && !m.isDelimiter

/-- A message that the owner of a pipe has written. -/
def PipeMsg.content (m : PipeMsg α) : Bool := !m.isDelimiter

theorem PipeMsg.forUser_iff (m : PipeMsg α) :
    m.forUser = true ↔ m.isCredential = false ∧ m.isDelimiter = false := by
  simp [forUser]

/-- A pipe in a state in which it may read. -/
def Pipe.opened (p : Pipe) : Bool := p.state == .active || p.state == .waitingForDelimiter

theorem canRead_eq (p : Pipe) : PipeEnd.canRead p = (p.inActive && p.opened) := rfl

/-- Credentials are not found within a message. -/
def Linked (ms : List (PipeMsg α)) : Prop :=
  ms.IsChain fun m n => m.more = true → n.isCredential = false

theorem Linked.concat {ms : List (PipeMsg α)} (linked : Linked ms) (m : PipeMsg α)
    (last : m.isCredential = true → Whole ms) : Linked (ms ++ [m]) := by
  refine List.IsChain.append linked (List.isChain_singleton m) ?_
  intro n member k here more
  obtain rfl : m = k := by simpa using here
  by_contra credential
  have whole := last (by simpa using credential) n member
  simp [whole] at more

namespace PipeEnd

variable {e e' : PipeEnd α}

/-! ### Reading -/

/-- A call that reads `ms`. -/
structure Reads (e e' : PipeEnd α) (ms : List (PipeMsg α)) : Prop where
  accepted : e'.accepted = e.accepted
  outpipe : e'.outpipe = e.outpipe
  unfinished : e'.inpipe.unfinished = e.inpipe.unfinished
  ready : e'.inpipe.ready = e.inpipe.ready
  outActive : e'.pipe.outActive = e.pipe.outActive
  room : e'.pipe.checkHwm = e.pipe.checkHwm
  delay : e'.pipe.delay = e.pipe.delay
  gone : e'.pipe.gone = e.pipe.gone
  state : e'.pipe.state = .active → e.pipe.state = .active
  received : e'.received.filter PipeMsg.forUser = e.received.filter PipeMsg.forUser ++ ms

theorem processDelimiter_effect (ended : e.processDelimiter = some e') :
    e'.pipe.opened = false ∧ e'.accepted = e.accepted ∧ e'.outpipe = e.outpipe ∧
      e'.inpipe = e.inpipe ∧ e'.received = e.received ∧ e'.pipe.outActive = e.pipe.outActive ∧
      e'.pipe.checkHwm = e.pipe.checkHwm ∧ e'.pipe.delay = e.pipe.delay ∧
      e'.pipe.gone = e.pipe.gone := by
  rw [processDelimiter] at ended
  split at ended
  · obtain rfl := Option.some.inj ended
    exact ⟨by simp [Pipe.opened], rfl, rfl, rfl, rfl, rfl, rfl, rfl, rfl⟩
  · obtain rfl := Option.some.inj ended
    exact ⟨by simp [Pipe.opened, send], rfl, rfl, rfl, rfl, rfl, rfl, rfl, rfl⟩
  · cases ended

theorem Reads.of_delimiter {pipe : PipeEnd α} (ended : pipe.processDelimiter = some e')
    (taken : List (PipeMsg α)) (hidden : taken.filter PipeMsg.forUser = [])
    (received : pipe.received = e.received ++ taken) (accepted : pipe.accepted = e.accepted)
    (outpipe : pipe.outpipe = e.outpipe) (same : pipe.pipe = e.pipe)
    (unfinished : pipe.inpipe.unfinished = e.inpipe.unfinished)
    (ready : pipe.inpipe.ready = e.inpipe.ready) :
    Reads e e' [] ∧ canRead e'.pipe = false := by
  obtain ⟨closed, accepted', outpipe', inpipe', received', outActive', room', delay', gone'⟩ :=
    processDelimiter_effect ended
  rw [same] at outActive' room' delay' gone'
  refine ⟨⟨accepted'.trans accepted, outpipe'.trans outpipe, inpipe' ▸ unfinished,
    inpipe' ▸ ready, outActive', room', delay', gone', ?_, ?_⟩,
    by rw [canRead_eq, closed, Bool.and_false]⟩
  · intro active
    simp [Pipe.opened, active] at closed
  · rw [received', received, List.filter_append, hidden]

theorem read_effect {found : Option (PipeMsg α)} (read : e.read = some (found, e')) :
    Reads e e' found.toList ∧
      match found with
      | none => canRead e'.pipe = false
      | some m => canRead e.pipe = true ∧ canRead e'.pipe = true ∧
          e'.pipe.state = e.pipe.state ∧ e'.received.getLast? = some m := by
  rw [PipeEnd.read] at read
  split at read
  · next unreadable =>
    obtain ⟨rfl, rfl⟩ := Prod.mk.inj (Option.some.inj read)
    exact ⟨⟨rfl, rfl, rfl, rfl, rfl, rfl, rfl, rfl, id, by simp⟩, by simpa using unreadable⟩
  · next readable =>
    have readable : canRead e.pipe = true := by simpa using readable
    rcases result : PipeEnd.take e.inpipe.sent with ⟨taken, payload, rest⟩
    obtain ⟨split, passed, rfl, credentials, plain, -⟩ := take_spec _ _ _ _ result
    -- Credentials are taken by the pipe itself and are not shown to the user.
    have hidden : passed.filter PipeMsg.forUser = [] := by
      rw [List.filter_eq_nil_iff]
      intro m member
      simp [PipeMsg.forUser, credentials m member]
    rw [result] at read
    cases payload with
    | none =>
      obtain ⟨rfl, rfl⟩ := Prod.mk.inj (Option.some.inj read)
      exact ⟨⟨rfl, rfl, rfl, rfl, rfl, rfl, rfl, rfl, id, by simp [hidden]⟩, by simp [canRead]⟩
    | some m =>
      cases delimiter : m.isDelimiter with
      | true =>
        simp only [delimiter, if_true] at read
        obtain ⟨e₁, ended, same⟩ := Option.map_eq_some_iff.mp read
        obtain ⟨rfl, rfl⟩ := Prod.mk.inj same
        refine Reads.of_delimiter ended (passed ++ [m]) ?_ rfl rfl rfl rfl rfl rfl
        simp [hidden, PipeMsg.forUser, delimiter]
      | false =>
        have shown : m.forUser = true := by simp [PipeMsg.forUser, delimiter, plain m rfl]
        simp only [delimiter, Bool.false_eq_true, if_false] at read
        -- Whether the peer is told how much was read makes no difference to the reader.
        split at read
        all_goals
          obtain ⟨rfl, rfl⟩ := Prod.mk.inj (Option.some.inj read)
          refine ⟨⟨rfl, rfl, rfl, rfl, rfl, rfl, rfl, rfl, id, by simp [send, hidden, shown]⟩,
            readable, ?_, rfl, by simp [send]⟩
          simpa [canRead, send] using readable

theorem checkRead_effect {found : Bool} (checked : e.checkRead = some (found, e')) :
    Reads e e' [] ∧ if found then e' = e else canRead e'.pipe = false := by
  rw [PipeEnd.checkRead] at checked
  split at checked
  · next unreadable =>
    obtain ⟨rfl, rfl⟩ := Prod.mk.inj (Option.some.inj checked)
    exact ⟨⟨rfl, rfl, rfl, rfl, rfl, rfl, rfl, rfl, id, by simp⟩, by simpa using unreadable⟩
  · split at checked
    · next nothing =>
      obtain ⟨rfl, rfl⟩ := Prod.mk.inj (Option.some.inj checked)
      refine ⟨⟨rfl, rfl, ?_, ?_, rfl, rfl, rfl, rfl, id, by simp⟩, by simp [canRead]⟩
      all_goals
        rw [Channel.checkRead]
        split <;> rfl
    · next m ms queue =>
      split at checked
      · next delimiter =>
        obtain ⟨e₁, ended, same⟩ := Option.map_eq_some_iff.mp checked
        obtain ⟨rfl, rfl⟩ := Prod.mk.inj same
        refine Reads.of_delimiter ended [m] ?_ rfl rfl rfl rfl ?_ ?_
        · simp [PipeMsg.forUser, delimiter]
        all_goals
          dsimp only
          rw [Channel.read]
          split <;> rfl
      · obtain ⟨rfl, rfl⟩ := Prod.mk.inj (Option.some.inj checked)
        exact ⟨⟨rfl, rfl, rfl, rfl, rfl, rfl, rfl, rfl, id, by simp⟩, by simp⟩

/-! ### Writing -/

/-- A call that leaves alone what is read. -/
structure Writes (e e' : PipeEnd α) : Prop where
  received : e'.received = e.received
  inpipe : e'.inpipe = e.inpipe
  inActive : e'.pipe.inActive = e.pipe.inActive
  state : e'.pipe.state = e.pipe.state
  delay : e'.pipe.delay = e.pipe.delay
  gone : e'.pipe.gone = e.pipe.gone

theorem Writes.canRead (writes : Writes e e') : canRead e'.pipe = PipeEnd.canRead e.pipe := by
  rw [PipeEnd.canRead, PipeEnd.canRead, writes.inActive, writes.state]

/-- Why a pipe was not written. -/
def Refuses (e e' : PipeEnd α) : Prop :=
  e'.accepted = e.accepted ∧ e'.outpipe = e.outpipe ∧
    (e'.pipe.state = .active → e'.pipe.outActive = false) ∧
    (e.pipe.state = .active → e.pipe.outActive = true → e.pipe.checkHwm = false)

/-- A pipe that can be written is left as it is, and one that cannot has stopped writing, if it has
not stopped before. -/
theorem checkWrite_effect (e : PipeEnd α) :
    Writes e e.checkWrite.2 ∧
      if e.checkWrite.1 then
        e.checkWrite.2 = e ∧ e.pipe.state = .active ∧ e.pipe.outActive = true ∧
          e.pipe.checkHwm = true
      else Refuses e e.checkWrite.2 := by
  rw [checkWrite]
  split
  · next blocked =>
    refine ⟨⟨rfl, rfl, rfl, rfl, rfl, rfl⟩, rfl, rfl, ?_, ?_⟩
    · intro (active : e.pipe.state = .active)
      simpa [active] using blocked
    · intro active outActive
      simp [active, outActive] at blocked
  · next writable =>
    simp only [Bool.or_eq_true, not_or] at writable
    split
    · next full =>
      exact ⟨⟨rfl, rfl, rfl, rfl, rfl, rfl⟩, rfl, rfl, fun _ => rfl, fun _ _ => by simpa using full⟩
    · next room =>
      exact ⟨⟨rfl, rfl, rfl, rfl, rfl, rfl⟩, rfl, by simpa using writable.2,
        by simpa using writable.1, by simpa using room⟩

/-- A message, or a part of one, was written. -/
structure Written (e e' : PipeEnd α) (m : PipeMsg α) (ch : Channel (PipeMsg α)) : Prop where
  active : e.pipe.state = .active
  room : e.pipe.checkHwm = true
  outPipe : e.pipe.outPipe = true
  part : m.more = true → e'.pipe = e.pipe
  outActive : e'.pipe.outActive = e.pipe.outActive
  same_pipe : e'.pipe.outPipe = e.pipe.outPipe
  before : e.outpipe = some ch
  after : e'.outpipe = some (ch.write m m.more)
  accepted : e'.accepted = if m.more then e.accepted else e.accepted ++ (ch.unfinished ++ [m])

/-- A write puts the message into the queue, or refuses it for a reason that `check_write` finds. -/
theorem tryWrite_effect {m : PipeMsg α} {written : Bool}
    (wrote : e.tryWrite m = some (written, e')) :
    Writes e e' ∧ if written then ∃ ch, Written e e' m ch else Refuses e e' := by
  obtain ⟨writes, rest⟩ := e.checkWrite_effect
  rw [tryWrite, PipeEnd.write] at wrote
  rcases checked : e.checkWrite with ⟨answer, e₁⟩
  rw [checked] at writes rest wrote
  obtain ⟨e₂, done, same⟩ := Option.map_eq_some_iff.mp wrote
  obtain ⟨rfl, rfl⟩ := Prod.mk.inj same
  cases answer with
  | false =>
    obtain rfl := Option.some.inj done
    exact ⟨writes, rest⟩
  | true =>
    obtain ⟨rfl, active, -, room⟩ := rest
    simp only [Bool.not_true, Bool.false_eq_true, if_false] at done
    rw [withOutpipe, Option.ite_none_right_eq_some] at done
    obtain ⟨outPipe, connected⟩ := done
    obtain ⟨ch, queue, result⟩ := Option.bind_eq_some_iff.mp connected
    obtain rfl := Option.some.inj result
    -- A part that is to be continued is not counted, so that the pipe is as it was.
    have uncounted : m.more = true → m.counts = false := fun more => by
      cases m <;> simp_all [PipeMsg.more, PipeMsg.counts]
    refine ⟨⟨rfl, rfl, ?_, ?_, ?_, ?_⟩, ch, active, room, outPipe, ?_, ?_, ?_, queue, rfl, rfl⟩
    case refine_5 =>
      intro more
      simp [uncounted more]
    all_goals
      dsimp only
      split <;> rfl

theorem flush_parts {α : Type} (ch : Channel α) :
    ch.flush.2.unfinished = ch.unfinished ∧ ch.flush.2.ready = [] ∧
      ch.sent <+: ch.flush.2.sent := by
  rw [Channel.flush]
  split
  · next none_ready => exact ⟨rfl, none_ready, List.prefix_refl _⟩
  · exact ⟨rfl, rfl, List.prefix_append ..⟩

theorem write_sent {α : Type} (ch : Channel α) (value : α) (incomplete : Bool) :
    (ch.write value incomplete).sent = ch.sent := by
  cases incomplete <;> rfl

/-- A flush sends what is complete, unless the pipe is closed or has acknowledged the end. -/
theorem flush_effect (flushed : e.flush = some e') :
    Writes e e' ∧ e'.pipe = e.pipe ∧ e'.accepted = e.accepted ∧
      if e.pipe.outPipe = true ∧ e.pipe.state ≠ .termAckSent then
        ∃ ch, e.outpipe = some ch ∧ e'.outpipe = some ch.flush.2
      else e'.outpipe = e.outpipe := by
  rw [PipeEnd.flush] at flushed
  split at flushed
  · next idle =>
    obtain rfl := Option.some.inj flushed
    refine ⟨⟨rfl, rfl, rfl, rfl, rfl, rfl⟩, rfl, rfl, ?_⟩
    rw [if_neg]
    rintro ⟨outPipe, running⟩
    simp [running, outPipe] at idle
  · next busy =>
    rw [withOutpipe, Option.ite_none_right_eq_some] at flushed
    obtain ⟨-, connected⟩ := flushed
    obtain ⟨ch, queue, result⟩ := Option.bind_eq_some_iff.mp connected
    obtain rfl := Option.some.inj result
    refine ⟨?_, by split <;> rfl, by split <;> rfl, ?_⟩
    · split <;> exact ⟨rfl, rfl, rfl, rfl, rfl, rfl⟩
    · rw [if_pos (by simpa [and_comm] using busy)]
      exact ⟨ch, queue, by split <;> rfl⟩

/-- A rollback takes out what is unfinished, and nothing else. -/
theorem rollback_effect (rolled : e.rollback = some e') :
    Writes e e' ∧ e'.pipe = e.pipe ∧ e'.accepted = e.accepted ∧
      if e.pipe.outPipe then
        ∃ ch, e.outpipe = some ch ∧ e'.outpipe = some { ch with unfinished := [] }
      else e'.outpipe = e.outpipe := by
  rw [PipeEnd.rollback] at rolled
  split at rolled
  · next closed =>
    obtain rfl := Option.some.inj rolled
    exact ⟨⟨rfl, rfl, rfl, rfl, rfl, rfl⟩, rfl, rfl, by rw [if_neg (by simpa using closed)]⟩
  · next outPipe =>
    rw [withOutpipe, Option.ite_none_right_eq_some] at rolled
    obtain ⟨-, connected⟩ := rolled
    obtain ⟨ch, queue, result⟩ := Option.bind_eq_some_iff.mp connected
    rw [Option.ite_none_right_eq_some] at result
    obtain rfl := Option.some.inj result.2
    refine ⟨⟨rfl, rfl, rfl, rfl, rfl, rfl⟩, rfl, rfl, ?_⟩
    rw [if_pos (by simpa using outPipe)]
    exact ⟨ch, queue, rfl⟩

theorem rollback_queue (rolled : e.rollback = some e') (ch : Channel (PipeMsg α)) :
    (e'.outpipe.getD ch).ready = (e.outpipe.getD ch).ready ∧
      (e'.outpipe.getD ch).sent = (e.outpipe.getD ch).sent := by
  obtain ⟨-, -, -, queue⟩ := rollback_effect rolled
  split at queue
  · obtain ⟨ch₁, before, after⟩ := queue
    rw [before, after]
    exact ⟨rfl, rfl⟩
  · rw [queue]
    exact ⟨rfl, rfl⟩

theorem flush_queue (flushed : e.flush = some e') (ch : Channel (PipeMsg α)) :
    (e.outpipe.getD ch).sent <+: (e'.outpipe.getD ch).sent := by
  obtain ⟨-, -, -, queue⟩ := flush_effect flushed
  split at queue
  · obtain ⟨ch₁, before, after⟩ := queue
    rw [before, after]
    exact (flush_parts ch₁).2.2
  · rw [queue]

/-! ### Termination -/

/-- A call after which the pipe is not active any more. -/
structure Ends (e e' : PipeEnd α) : Prop where
  received : e'.received = e.received
  inpipe : e'.inpipe = e.inpipe
  inActive : e'.pipe.inActive = e.pipe.inActive
  gone : e'.pipe.gone = e.pipe.gone
  state : e'.pipe.state ≠ .active
  opened : e'.pipe.opened = true → e.pipe.opened = true
  accepted : e'.accepted.filter PipeMsg.content = e.accepted.filter PipeMsg.content
  ready : ∀ ch, (e.outpipe.getD ch).ready = [] → (e'.outpipe.getD ch).ready = []
  grows : ∀ ch, (e.outpipe.getD ch).sent <+: (e'.outpipe.getD ch).sent

theorem Ends.refl (ended : e.pipe.state ≠ .active) : Ends e e :=
  ⟨rfl, rfl, rfl, rfl, ended, id, rfl, fun _ => id, fun _ => List.prefix_refl _⟩

/-- The end is asked for. -/
theorem Ends.request (e : PipeEnd α) :
    Ends e { e.send .pipeTerm with pipe := { e.pipe with state := .termReqSent1 } } :=
  ⟨rfl, rfl, rfl, rfl, by simp, by simp [Pipe.opened], rfl, fun _ => id,
    fun _ => List.prefix_refl _⟩

/-- Whatever state the pipe was in, it is not active after the branches of `terminate`. -/
theorem terminateState_effect {returns : Bool} (ended : e.terminateState = some (returns, e')) :
    Ends e e' ∧ (e'.pipe.outPipe = true → e.pipe.outPipe = true ∧
      (e'.pipe.state = .termAckSent → e.pipe.state = .termAckSent)) := by
  -- In three of the states, and in a fourth with delay, nothing is done.
  have same {state : PipeState} (here : e.pipe.state = state) (other : state ≠ .active)
      (stays : e' = e) : Ends e e' ∧ (e'.pipe.outPipe = true → e.pipe.outPipe = true ∧
        (e'.pipe.state = .termAckSent → e.pipe.state = .termAckSent)) := by
    subst stays
    exact ⟨.refl (here ▸ other), fun outPipe => ⟨outPipe, id⟩⟩
  rw [terminateState] at ended
  split at ended
  · next here => exact same here (by simp) (Prod.mk.inj (Option.some.inj ended)).2.symm
  · next here => exact same here (by simp) (Prod.mk.inj (Option.some.inj ended)).2.symm
  · next here => exact same here (by simp) (Prod.mk.inj (Option.some.inj ended)).2.symm
  · obtain ⟨rfl, rfl⟩ := Prod.mk.inj (Option.some.inj ended)
    exact ⟨.request e, fun outPipe => ⟨outPipe, by simp⟩⟩
  · obtain ⟨rfl, rfl⟩ := Prod.mk.inj (Option.some.inj ended)
    exact ⟨.request e, fun outPipe => ⟨outPipe, by simp⟩⟩
  · next here =>
    split at ended
    · exact same here (by simp) (Prod.mk.inj (Option.some.inj ended)).2.symm
    · obtain ⟨e₁, rolled, same⟩ := Option.map_eq_some_iff.mp ended
      obtain ⟨rfl, rfl⟩ := Prod.mk.inj same
      obtain ⟨writes, -, accepted, -⟩ := rollback_effect rolled
      have queue := rollback_queue rolled
      exact ⟨⟨writes.received, writes.inpipe, writes.inActive, writes.gone, by simp,
        by simp [Pipe.opened], by simp [send, accepted],
        fun ch none_ready => (queue ch).1.trans none_ready,
        fun ch => by rw [← (queue ch).2]; exact List.prefix_refl _⟩, by simp [send]⟩

/-- The delimiter comes behind all that is complete, and is flushed at once. -/
theorem writeDelimiter_effect (written : e.writeDelimiter = some e')
    (linked : e.pipe.outPipe = true → e.pipe.state ≠ .termAckSent) :
    Writes e e' ∧ e'.pipe = e.pipe ∧ (e'.accepted = e.accepted ∨
      e'.accepted = e.accepted ++ [.delimiter]) ∧
      (∀ ch, (e.outpipe.getD ch).ready = [] → (e'.outpipe.getD ch).ready = []) ∧
      ∀ ch, (e.outpipe.getD ch).sent <+: (e'.outpipe.getD ch).sent := by
  rw [writeDelimiter] at written
  split at written
  · obtain rfl := Option.some.inj written
    exact ⟨⟨rfl, rfl, rfl, rfl, rfl, rfl⟩, rfl, .inl rfl, fun _ => id, fun _ => List.prefix_refl _⟩
  · next outPipe =>
    have outPipe : e.pipe.outPipe = true := by simpa using outPipe
    obtain ⟨e₁, rolled, rest⟩ := Option.bind_eq_some_iff.mp written
    obtain ⟨e₂, wrote, flushed⟩ := Option.bind_eq_some_iff.mp rest
    -- Rollback, write and flush, one after the other.
    obtain ⟨writes₁, pipe₁, accepted₁, queue₁⟩ := rollback_effect rolled
    rw [if_pos outPipe] at queue₁
    obtain ⟨ch, before, after⟩ := queue₁
    rw [withOutpipe, Option.ite_none_right_eq_some, after] at wrote
    obtain rfl := Option.some.inj wrote.2
    obtain ⟨writes₂, pipe₂, accepted₂, queue₂⟩ := flush_effect flushed
    rw [if_pos ⟨wrote.1, by rw [pipe₁]; exact linked outPipe⟩] at queue₂
    obtain ⟨ch₂, sent, last⟩ := queue₂
    have same : e'.pipe = e.pipe := pipe₂.trans pipe₁
    refine ⟨⟨writes₂.received.trans writes₁.received, writes₂.inpipe.trans writes₁.inpipe,
      by rw [same], by rw [same], by rw [same], by rw [same]⟩, same, .inr ?_, fun ch' _ => ?_,
      fun ch' => ?_⟩
    · rw [accepted₂, ← accepted₁]
      simp
    · rw [last]
      exact (flush_parts ch₂).2.1
    · have grown := (flush_parts ch₂).2.2
      rw [← Option.some.inj sent, write_sent] at grown
      rw [before, last, ← Option.some.inj sent]
      exact grown

theorem terminate_effect {delay : Bool} (ended : e.terminate delay = some e')
    (linked : e.pipe.outPipe = true → e.pipe.state ≠ .termAckSent) : Ends e e' := by
  rw [PipeEnd.terminate] at ended
  obtain ⟨⟨returns, e₁⟩, stated, rest⟩ := Option.bind_eq_some_iff.mp ended
  obtain ⟨ends, outPipe⟩ := terminateState_effect stated
  cases returns with
  | true =>
    obtain rfl := Option.some.inj rest
    exact ⟨ends.received, ends.inpipe, ends.inActive, ends.gone, ends.state, ends.opened,
      ends.accepted, ends.ready, ends.grows⟩
  | false =>
    have open_end (connected : e₁.pipe.outPipe = true) : e₁.pipe.state ≠ .termAckSent :=
      fun here => linked (outPipe connected).1 ((outPipe connected).2 here)
    obtain ⟨writes, pipe, accepted, queue, grows⟩ := writeDelimiter_effect rest open_end
    refine ⟨writes.received.trans ends.received, writes.inpipe.trans ends.inpipe,
      writes.inActive.trans ends.inActive, writes.gone.trans ends.gone, ?_, ?_, ?_, ?_, ?_⟩
    · rw [writes.state]
      exact ends.state
    · rw [Pipe.opened, writes.state]
      exact ends.opened
    · rw [← ends.accepted]
      rcases accepted with same | more
      · rw [same]
      · rw [more]
        simp [PipeMsg.content, PipeMsg.isDelimiter]
    · exact fun ch none_ready => queue ch (ends.ready ch none_ready)
    · exact fun ch => (ends.grows ch).trans (grows ch)

/-! ### Commands -/

/-- What every command leaves alone. -/
structure Serves (e e' : PipeEnd α) : Prop where
  received : e'.received = e.received
  accepted : e'.accepted = e.accepted
  inpipe : e'.inpipe = e.inpipe
  outpipe : e'.outpipe = e.outpipe
  delay : e'.pipe.delay = e.pipe.delay
  state : e'.pipe.state = .active → e.pipe.state = .active
  opened : e'.pipe.opened = true → e.pipe.opened = true
  /-- A pipe that waits for the delimiter goes on reading. -/
  patient : e.pipe.opened = true → (e.pipe.state = .active → e.pipe.delay = true) →
    e'.pipe.opened = true

/-- What a command changes, and what the socket is told of it. -/
def Told (e e' : PipeEnd α) : Option PipeEvent → Prop
  | none => e'.pipe.inActive = e.pipe.inActive ∧ e'.pipe.outActive = e.pipe.outActive ∧
      e'.pipe.gone = e.pipe.gone
  | some .readActivated => e.pipe.inActive = false ∧ e.pipe.opened = true ∧
      e'.pipe = { e.pipe with inActive := true }
  | some .writeActivated => e.pipe.outActive = false ∧ e.pipe.state = .active ∧
      e'.pipe.outActive = true ∧ e'.pipe.inActive = e.pipe.inActive ∧
      e'.pipe.gone = e.pipe.gone
  | some .pipeTerminated => e.pipe.opened = false ∧ e'.pipe.gone = true

theorem process_effect {c : PipeCommand} (done : e.process c = some e') :
    Serves e e' ∧ Told e e' (e.notifies c) := by
  cases c with
  | activateRead =>
    obtain rfl := Option.some.inj done
    rw [notifies, processActivateRead]
    split
    · next asleep =>
      rw [Bool.and_eq_true] at asleep
      exact ⟨⟨rfl, rfl, rfl, rfl, rfl, id, id, fun opened _ => opened⟩,
        by simpa using asleep.1, asleep.2, rfl⟩
    · exact ⟨⟨rfl, rfl, rfl, rfl, rfl, id, id, fun opened _ => opened⟩, rfl, rfl, rfl⟩
  | activateWrite msgsRead =>
    obtain rfl := Option.some.inj done
    rw [notifies, processActivateWrite]
    dsimp only
    split
    · next blocked =>
      rw [Bool.and_eq_true] at blocked
      exact ⟨⟨rfl, rfl, rfl, rfl, rfl, id, id, fun opened _ => opened⟩,
        by simpa using blocked.1, by simpa using blocked.2, rfl, rfl, rfl⟩
    · exact ⟨⟨rfl, rfl, rfl, rfl, rfl, id, id, fun opened _ => opened⟩, rfl, rfl, rfl⟩
  | pipeTerm =>
    rw [process, processPipeTerm] at done
    split at done
    · next active =>
      split at done
      · obtain rfl := Option.some.inj done
        refine ⟨⟨rfl, rfl, rfl, rfl, rfl, by simp, fun _ => by simp [Pipe.opened, active],
          fun _ _ => by simp [Pipe.opened]⟩, rfl, rfl, rfl⟩
      · next hasty =>
        -- A pipe without delay acknowledges at once and reads no more.
        obtain rfl := Option.some.inj done
        refine ⟨⟨rfl, rfl, rfl, rfl, rfl, by simp [acknowledge], ?_, ?_⟩, rfl, rfl, rfl⟩
        · simp [Pipe.opened, acknowledge]
        · exact fun _ delay => absurd (delay active) (by simpa using hasty)
    · next received =>
      obtain rfl := Option.some.inj done
      refine ⟨⟨rfl, rfl, rfl, rfl, rfl, by simp [acknowledge], ?_, ?_⟩, rfl, rfl, rfl⟩
      · simp [Pipe.opened, acknowledge]
      · simp [Pipe.opened, received]
    · next asked =>
      obtain rfl := Option.some.inj done
      refine ⟨⟨rfl, rfl, rfl, rfl, rfl, by simp [acknowledge], ?_, ?_⟩, rfl, rfl, rfl⟩
      · simp [Pipe.opened, acknowledge]
      · simp [Pipe.opened, asked]
    · cases done
  | pipeTermAck =>
    rw [process, processPipeTermAck] at done
    split at done
    · next here =>
      obtain rfl := Option.some.inj done
      refine ⟨⟨rfl, rfl, rfl, rfl, rfl, by simp [acknowledge], ?_, ?_⟩, ?_, rfl⟩
      all_goals simp [Pipe.opened, acknowledge, here]
    · next here =>
      obtain rfl := Option.some.inj done
      refine ⟨⟨rfl, rfl, rfl, rfl, rfl, id, id, fun opened _ => opened⟩, ?_, rfl⟩
      simp [Pipe.opened, here]
    · next here =>
      obtain rfl := Option.some.inj done
      refine ⟨⟨rfl, rfl, rfl, rfl, rfl, id, id, fun opened _ => opened⟩, ?_, rfl⟩
      simp [Pipe.opened, here]
    · cases done

/-! ### The other end -/

variable {others : Others α}

/-- Everything that was written and not taken back. -/
def wrote (others : Others α) (e : PipeEnd α) : List (PipeMsg α) :=
  e.accepted ++ (e.out others).unfinished

theorem wrote_rollback (rolled : e.rollback = some e') (linked : Linked (e.wrote others)) :
    Linked (e'.wrote others) := by
  obtain ⟨-, -, accepted, queue⟩ := rollback_effect rolled
  rw [wrote, accepted]
  split at queue
  · obtain ⟨ch, before, after⟩ := queue
    rw [out, after]
    have front : Linked e.accepted := List.IsChain.left_of_append linked
    simpa using front
  · rwa [out, queue]

theorem wrote_flush (flushed : e.flush = some e') : e'.wrote others = e.wrote others := by
  obtain ⟨-, -, accepted, queue⟩ := flush_effect flushed
  rw [wrote, wrote, accepted]
  split at queue
  · obtain ⟨ch, before, after⟩ := queue
    rw [out, out, before, after]
    simp [flush_parts]
  · rw [out, out, queue]

theorem wrote_write {m : PipeMsg α} (written : e.write m = some e')
    (sound : Sound others e) (linked : Linked (e.wrote others))
    (plain : m.isCredential = true → (e.out others).unfinished = []) :
    Linked (e'.wrote others) := by
  have tried : e.tryWrite m = some (e.checkWrite.1, e') := by rw [tryWrite, written]; rfl
  obtain ⟨-, effect⟩ := tryWrite_effect tried
  split at effect
  · obtain ⟨ch, effect⟩ := effect
    have concat : e'.wrote others = e.wrote others ++ [m] := by
      rw [wrote, wrote, out, out, effect.before, effect.after, effect.accepted]
      cases m.more <;> simp [Channel.write]
    rw [concat]
    refine linked.concat m fun credential => ?_
    rw [wrote, plain credential, List.append_nil]
    exact sound.outbound.data.whole_accepted
  · obtain ⟨accepted, queue, -⟩ := effect
    rwa [wrote, out, accepted, queue]

theorem wrote_terminate {delay : Bool} (ended : e.terminate delay = some e')
    (linked : Linked (e.wrote others)) : Linked (e'.wrote others) := by
  rw [PipeEnd.terminate] at ended
  obtain ⟨⟨returns, e₁⟩, stated, rest⟩ := Option.bind_eq_some_iff.mp ended
  have first : Linked (e₁.wrote others) := by
    rw [terminateState] at stated
    split at stated
    case h_6 =>
      split at stated
      · obtain ⟨-, rfl⟩ := Prod.mk.inj (Option.some.inj stated)
        exact linked
      · obtain ⟨e₂, rolled, same⟩ := Option.map_eq_some_iff.mp stated
        obtain ⟨-, rfl⟩ := Prod.mk.inj same
        have kept : Linked (e₂.wrote others) := wrote_rollback rolled linked
        exact kept
    all_goals
      obtain ⟨-, rfl⟩ := Prod.mk.inj (Option.some.inj stated)
      exact linked
  cases returns with
  | true =>
    obtain rfl := Option.some.inj rest
    exact first
  | false =>
    dsimp only at rest
    rw [if_neg (by simp), writeDelimiter] at rest
    split at rest
    · obtain rfl := Option.some.inj rest
      exact first
    · obtain ⟨e₂, rolled, rest⟩ := Option.bind_eq_some_iff.mp rest
      obtain ⟨e₃, wrote, flushed⟩ := Option.bind_eq_some_iff.mp rest
      have second : Linked (e₂.wrote others) := wrote_rollback rolled first
      rw [wrote_flush flushed]
      rw [withOutpipe, Option.ite_none_right_eq_some] at wrote
      obtain ⟨ch, connected, result⟩ := Option.bind_eq_some_iff.mp wrote.2
      obtain rfl := Option.some.inj result
      have concat : PipeEnd.wrote others { e₂ with
          outpipe := some (ch.write .delimiter false)
          accepted := e₂.accepted ++ (ch.unfinished ++ [.delimiter]) } =
          e₂.wrote others ++ [.delimiter] := by
        simp [PipeEnd.wrote, out, connected, Channel.write]
      rw [concat]
      exact second.concat _ (by simp [PipeMsg.isCredential])

/-- What the thread at the other end leaves alone. -/
structure Far (others : Others α) (e e' : PipeEnd α) : Prop where
  linked : Linked (e.wrote others) → Linked (e'.wrote others)
  unfinished : e'.inpipe.unfinished = e.inpipe.unfinished
  ready : e'.inpipe.ready = e.inpipe.ready
  grows : (e.out others).sent <+: (e'.out others).sent

theorem call_far {call : PipeCall α} (called : e.call call = some e') (sound : Sound others e)
    (linked : e.pipe.outPipe = true → e.pipe.state ≠ .termAckSent)
    (plain : ∀ m, call = .write m → m.isCredential = true → (e.out others).unfinished = []) :
    Far others e e' := by
  have same (outpipe : e'.outpipe = e.outpipe) :
      (e.out others).sent <+: (e'.out others).sent := by
    rw [out, out, outpipe]
  cases call with
  | write m =>
    rw [PipeEnd.call] at called
    split at called
    · -- The owner does not write a delimiter.
      obtain rfl := Option.some.inj called
      exact ⟨id, rfl, rfl, List.prefix_refl _⟩
    · have tried : e.tryWrite m = some (e.checkWrite.1, e') := by rw [tryWrite, called]; rfl
      obtain ⟨writes, effect⟩ := tryWrite_effect tried
      refine ⟨fun chain => wrote_write called sound chain (plain m rfl), ?_, ?_, ?_⟩
      · rw [writes.inpipe]
      · rw [writes.inpipe]
      · split at effect
        · obtain ⟨ch, effect⟩ := effect
          rw [out, out, effect.before, effect.after, Option.getD_some, Option.getD_some, write_sent]
        · exact same effect.2.1
  | flush =>
    have writes := (flush_effect called).1
    have wrote : e'.wrote others = e.wrote others := wrote_flush called
    exact ⟨fun chain => wrote ▸ chain, by rw [writes.inpipe], by rw [writes.inpipe],
      flush_queue called _⟩
  | rollback =>
    have writes := (rollback_effect called).1
    refine ⟨wrote_rollback called, by rw [writes.inpipe], by rw [writes.inpipe], ?_⟩
    rw [out, out, (rollback_queue called _).2]
  | read =>
    obtain ⟨⟨found, e₁⟩, read, rfl⟩ := Option.map_eq_some_iff.mp called
    have reads := (read_effect read).1
    refine ⟨fun chain => ?_, reads.unfinished, reads.ready, same reads.outpipe⟩
    rwa [wrote, out, reads.accepted, reads.outpipe]
  | checkRead =>
    obtain ⟨⟨found, e₁⟩, checked, rfl⟩ := Option.map_eq_some_iff.mp called
    have reads := (checkRead_effect checked).1
    refine ⟨fun chain => ?_, reads.unfinished, reads.ready, same reads.outpipe⟩
    rwa [wrote, out, reads.accepted, reads.outpipe]
  | checkWrite =>
    obtain rfl := Option.some.inj called
    obtain ⟨writes, effect⟩ := e.checkWrite_effect
    have kept : e.checkWrite.2.outpipe = e.outpipe ∧ e.checkWrite.2.accepted = e.accepted := by
      split at effect
      · rw [effect.1]
        exact ⟨rfl, rfl⟩
      · exact ⟨effect.2.1, effect.1⟩
    refine ⟨fun chain => ?_, by rw [writes.inpipe], by rw [writes.inpipe], same kept.1⟩
    rwa [wrote, out, kept.2, kept.1]
  | terminate delay =>
    have ends := terminate_effect called linked
    exact ⟨wrote_terminate called, by rw [ends.inpipe], by rw [ends.inpipe], ends.grows _⟩
  | setNodelay =>
    obtain rfl := Option.some.inj called
    exact ⟨id, rfl, rfl, List.prefix_refl _⟩

theorem process_far {c : PipeCommand} (done : e.process c = some e') : Far others e e' := by
  have serves := (process_effect done).1
  refine ⟨fun chain => ?_, by rw [serves.inpipe], by rw [serves.inpipe], ?_⟩
  · rwa [wrote, out, serves.accepted, serves.outpipe]
  · rw [out, out, serves.outpipe]

end PipeEnd

end OfxZeroMQ
