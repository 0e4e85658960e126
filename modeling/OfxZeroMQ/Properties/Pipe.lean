import OfxZeroMQ.Foundation.Transition
import OfxZeroMQ.Model.Pipe

/-!
# Pipes are taken down in an orderly way and never get stuck

However the two threads of a pair of pipes alternate, no assertion fails, nothing is used after it
was deallocated, messages arrive whole and in order, and neither a reader nor a writer waits for
something that will not come. This is about the calls of `PipeCall`, so the watermarks are fixed
and no pipe hiccups.
-/
namespace OfxZeroMQ

open Foundation

/-! ### How far a pipe is taken down -/

structure Phase where
  state : PipeState
  outPipe : Bool
  gone : Bool

def Pipe.phase (p : Pipe) : Phase := ⟨p.state, p.outPipe, p.gone⟩

namespace Phase

def sentTerm (x : Phase) : Bool :=
  match x.state with
  | .termReqSent1 | .termReqSent2 => true
  | _ => false

def gotTerm (x : Phase) : Bool :=
  match x.state with
  | .waitingForDelimiter | .termAckSent | .termReqSent2 => true
  | _ => false

def sentAck (x : Phase) : Bool :=
  match x.state with
  | .termAckSent | .termReqSent2 => true
  | _ => x.gone

def reads (x : Phase) : Bool :=
  match x.state with
  | .active | .waitingForDelimiter => true
  | _ => false

end Phase

/-- Of the commands that take a pipe down at most the request and the acknowledgement of `y` are on
their way to `x`, and nothing comes after the acknowledgement. -/
structure Mail (x y : Phase) (toX : List PipeCommand) (front : List PipeCommand) : Prop where
  split : toX = front ++ if y.sentAck && !x.gone then [.pipeTermAck] else []
  ack : .pipeTermAck ∉ front
  term : front.count .pipeTerm = if y.sentTerm && !x.gotTerm then 1 else 0

structure Term (x y : Phase) (toX : List PipeCommand) : Prop where
  mail : ∃ front, Mail x y toX front
  quiet : x.gone = true → toX = []
  gotTerm : x.gotTerm = true → y.sentTerm = true
  gone : x.gone = true → y.sentAck = true
  ended : x.gone = true →
    x.state = .termReqSent1 ∨ x.state = .termAckSent ∨ x.state = .termReqSent2
  null : x.outPipe = !x.sentAck
  seen : x.state = .delimiterReceived → y.sentTerm = true

namespace Term

variable {x y : Phase} {toX : List PipeCommand}

/-- Commands that take nothing down can be sent as long as no acknowledgement was sent. -/
theorem append (term : Term x y toX) (open_end : y.sentAck = false) (c : PipeCommand)
    (other : c ≠ .pipeTerm ∧ c ≠ .pipeTermAck) : Term x y (toX ++ [c]) := by
  obtain ⟨front, split, ack, count⟩ := term.mail
  refine ⟨⟨front ++ [c], ?_, ?_, ?_⟩, ?_, term.gotTerm, term.gone, term.ended, term.null,
    term.seen⟩
  · simp [split, open_end]
  · simp [ack, other.2.symm]
  · rw [List.count_append, count, List.count_singleton]
    simp [other.1]
  · intro gone
    have := term.gone gone
    simp [open_end] at this

theorem pop {c : PipeCommand} (term : Term x y (c :: toX))
    (other : c ≠ .pipeTerm ∧ c ≠ .pipeTermAck) : Term x y toX := by
  obtain ⟨front, split, ack, count⟩ := term.mail
  cases front with
  | nil =>
    rw [List.nil_append] at split
    split at split
    · exact absurd (List.cons.inj split).1 other.2
    · simp at split
  | cons d front =>
    obtain ⟨rfl, rest⟩ := List.cons.inj split
    refine ⟨⟨front, rest, fun member => ack (by simp [member]), ?_⟩, ?_, term.gotTerm, term.gone,
      term.ended, term.null, term.seen⟩
    · rw [List.count_cons_of_ne other.1] at count
      exact count
    · intro gone
      simpa using term.quiet gone

/-- What is on its way to `x` depends on what `y` has sent. -/
theorem congr_peer {y' : Phase} (term : Term x y toX) (sentTerm : y'.sentTerm = y.sentTerm)
    (sentAck : y'.sentAck = y.sentAck) : Term x y' toX := by
  obtain ⟨front, split, ack, count⟩ := term.mail
  exact ⟨⟨front, sentAck ▸ split, ack, sentTerm ▸ count⟩, term.quiet, sentTerm ▸ term.gotTerm,
    sentAck ▸ term.gone, term.ended, term.null, sentTerm ▸ term.seen⟩

theorem not_gone (term : Term x y toX) (open_end : y.sentAck = false) : x.gone = false := by
  cases gone : x.gone with
  | false => rfl
  | true => exact absurd (open_end.symm.trans (term.gone gone)) Bool.false_ne_true

/-- The request of `y`. -/
theorem request {y' : Phase} (term : Term x y toX) (before : y.sentTerm = false)
    (after : y'.sentTerm = true) (open_end : y.sentAck = false) (still : y'.sentAck = false) :
    Term x y' (toX ++ [.pipeTerm]) := by
  obtain ⟨front, split, ack, count⟩ := term.mail
  have running := term.not_gone open_end
  have unknown : x.gotTerm = false := by
    cases got : x.gotTerm with
    | false => rfl
    | true => exact absurd (before.symm.trans (term.gotTerm got)) Bool.false_ne_true
  refine ⟨⟨front ++ [.pipeTerm], ?_, ?_, ?_⟩, ?_, fun _ => after, ?_, term.ended, term.null,
    fun _ => after⟩
  · simp [split, open_end, still]
  · simp [ack]
  · rw [List.count_append, count, before, after, unknown]
    rfl
  · simp [running]
  · simp [running]

/-- The acknowledgement of `y` is the last that it sends. -/
theorem acknowledge {y' : Phase} (term : Term x y toX) (same : y'.sentTerm = y.sentTerm)
    (open_end : y.sentAck = false) (after : y'.sentAck = true) :
    Term x y' (toX ++ [.pipeTermAck]) := by
  obtain ⟨front, split, ack, count⟩ := term.mail
  have running := term.not_gone open_end
  refine ⟨⟨front, ?_, ack, same ▸ count⟩, ?_, same ▸ term.gotTerm, fun _ => after, term.ended,
    term.null, same ▸ term.seen⟩
  · simp [split, open_end, after, running]
  · simp [running]

/-- A change of `x` that receives nothing. -/
theorem congr_self {x' : Phase} (term : Term x y toX) (gotTerm : x'.gotTerm = x.gotTerm)
    (gone : x'.gone = x.gone) (running : x.gone = false) (null : x'.outPipe = !x'.sentAck)
    (seen : x'.state = .delimiterReceived → y.sentTerm = true) : Term x' y toX := by
  obtain ⟨front, split, ack, count⟩ := term.mail
  refine ⟨⟨front, by rw [gone]; exact split, ack, by rw [gotTerm]; exact count⟩, ?_,
    by rw [gotTerm]; exact term.gotTerm, ?_, ?_, null, seen⟩
  all_goals simp [gone, running]

/-- The request of `y` comes to a pipe that can take it. -/
theorem pop_request (term : Term x y (.pipeTerm :: toX)) :
    y.sentTerm = true ∧ x.gone = false ∧ x.gotTerm = false ∧
      ∀ x' : Phase, x'.gotTerm = true → x'.gone = false → (x'.outPipe = !x'.sentAck) →
        x'.state ≠ .delimiterReceived → Term x' y toX := by
  obtain ⟨front, split, ack, count⟩ := term.mail
  have running : x.gone = false := by
    cases gone : x.gone with
    | false => rfl
    | true => simpa using term.quiet gone
  cases front with
  | nil =>
    rw [List.nil_append] at split
    split at split <;> simp at split
  | cons c front =>
    obtain ⟨rfl, rest⟩ := List.cons.inj split
    rw [List.count_cons_self] at count
    have asked : (y.sentTerm && !x.gotTerm) = true := by
      by_contra other
      rw [if_neg other] at count
      omega
    rw [if_pos asked] at count
    obtain ⟨sent, unknown⟩ : y.sentTerm = true ∧ x.gotTerm = false := by simpa using asked
    refine ⟨sent, running, unknown, fun x' got still null other => ?_⟩
    refine ⟨⟨front, ?_, fun member => ack (by simp [member]), ?_⟩, by simp [still], fun _ => sent,
      by simp [still], by simp [still], null, fun seen => absurd seen other⟩
    · rw [rest, running, still]
      rfl
    · rw [got]
      simp only [Bool.not_true, Bool.and_false, Bool.false_eq_true, if_false]
      omega

/-- The acknowledgement of `y` comes last. -/
theorem pop_acknowledgement (term : Term x y (.pipeTermAck :: toX)) :
    toX = [] ∧ y.sentAck = true ∧ x.gone = false ∧ (y.sentTerm && !x.gotTerm) = false := by
  obtain ⟨front, split, ack, count⟩ := term.mail
  cases front with
  | nil =>
    rw [List.nil_append] at split
    split at split
    · next acknowledged =>
      obtain ⟨sent, running⟩ : y.sentAck = true ∧ x.gone = false := by simpa using acknowledged
      refine ⟨(List.cons.inj split).2, sent, running, ?_⟩
      by_contra asked
      rw [if_pos (by simpa using asked)] at count
      simp at count
    · simp at split
  | cons c front =>
    obtain ⟨rfl, -⟩ := List.cons.inj split
    simp at ack

/-- The acknowledgement of `y` ends `x`. -/
theorem finish {x' : Phase} (term : Term x y (.pipeTermAck :: toX))
    (gotTerm : x'.gotTerm = x.gotTerm) (null : x'.outPipe = !x'.sentAck)
    (ended : x'.state = .termReqSent1 ∨ x'.state = .termAckSent ∨
      x'.state = .termReqSent2)
    (gone : x'.gone = true) : Term x' y toX := by
  obtain ⟨rfl, acked, -, known⟩ := term.pop_acknowledgement
  refine ⟨⟨[], ?_, by simp, ?_⟩, fun _ => rfl, ?_, fun _ => acked, fun _ => ended, null, ?_⟩
  · simp [gone]
  · rw [gotTerm, known]
    rfl
  · rw [gotTerm]
    exact term.gotTerm
  · intro seen
    rw [seen] at ended
    simp at ended

/-- Only a pipe that is about to terminate is acknowledged. -/
theorem acknowledged (term : Term x y toX) (acked : x.sentAck = true) :
    y.sentTerm = true ∨ y.sentAck = true := by
  cases got : x.gotTerm with
  | true => exact .inl (term.gotTerm got)
  | false =>
    right
    refine term.gone ?_
    cases here : x.state <;> simp_all [Phase.sentAck, Phase.gotTerm]

end Term

section Queues

variable {α : Type}

/-- A delimiter is in the queue of `x` only when the pipes are taken down. -/
def Asked (x y : Phase) (q : Channel (PipeMsg α)) : Prop :=
  .delimiter ∈ q.contents → x.sentTerm = true ∨ y.sentTerm = true

/-- A pipe that has asked for the end has left a delimiter for a pipe that still reads. -/
def Owes (x y : Phase) (q : Channel (PipeMsg α)) : Prop :=
  x.sentTerm = true → y.reads = true → .delimiter ∈ q.sent

/-! ### What is in a queue -/

/-- The messages do not end within a message of several parts. -/
def Whole (ms : List (PipeMsg α)) : Prop := ∀ m, ms.getLast? = some m → m.more = false

theorem Whole.append {ms ns : List (PipeMsg α)} (first : Whole ms) (second : Whole ns) :
    Whole (ms ++ ns) := by
  intro m last
  rcases List.eq_nil_or_concat ns with rfl | ⟨front, n, rfl⟩
  · exact first m (by simpa using last)
  · exact second m (by simpa using last)

theorem whole_concat (ms : List (PipeMsg α)) (m : PipeMsg α) (single : m.more = false) :
    Whole (ms ++ [m]) := by
  intro n last
  obtain rfl : m = n := by simpa using last
  exact single

/-- A message that is not complete is not followed by the delimiter. -/
def Parted (accepted : List (PipeMsg α)) : Prop :=
  ∀ before after, accepted = before ++ .delimiter :: after → Whole before

namespace Parted

variable {accepted : List (PipeMsg α)}

theorem append (parted : Parted accepted) (ms : List (PipeMsg α)) (other : .delimiter ∉ ms) :
    Parted (accepted ++ ms) := by
  intro before after split
  rcases List.append_eq_append_iff.mp split with ⟨between, rfl, rest⟩ | ⟨between, rfl, rest⟩
  · simp [rest] at other
  · cases between with
    | nil =>
      rw [List.nil_append] at rest
      simp [← rest] at other
    | cons m between =>
      obtain ⟨rfl, -⟩ := List.cons.inj rest
      exact parted before between rfl

theorem delimiter (parted : Parted accepted) (whole : Whole accepted) :
    Parted (accepted ++ [.delimiter]) := by
  intro before after split
  rcases List.append_eq_append_iff.mp split with ⟨between, rfl, rest⟩ | ⟨between, rfl, rest⟩
  · obtain rfl : between = [] := by
      cases between with
      | nil => rfl
      | cons m between => simp at rest
    simpa using whole
  · cases between with
    | nil => simpa using whole
    | cons m between =>
      obtain ⟨rfl, -⟩ := List.cons.inj rest
      exact parted before between rfl

end Parted

structure Data (y : Pipe) (toY : List PipeCommand) (q : Channel (PipeMsg α))
    (accepted received : List (PipeMsg α)) : Prop where
  fair : q.Fair
  log : accepted = received ++ (q.sent ++ q.ready)
  whole : Whole (received ++ q.sent)
  ready : Whole q.ready
  unfinished : ∀ m ∈ q.unfinished, m.more = true
  wake : y.inActive = false → y.phase.reads = true → q.asleep = true ∨ .activateRead ∈ toY
  idle : y.inActive = false → Whole received
  parted : Parted accepted

namespace Data

variable {y : Pipe} {toY : List PipeCommand} {q : Channel (PipeMsg α)}
variable {accepted received : List (PipeMsg α)}

theorem mono (data : Data y toY q accepted received) (commands : List PipeCommand) :
    Data y (toY ++ commands) q accepted received := by
  refine ⟨data.fair, data.log, data.whole, data.ready, data.unfinished, ?_, data.idle,
    data.parted⟩
  intro inactive reads
  exact (data.wake inactive reads).imp_right fun waking => List.mem_append_left commands waking

theorem congr_reader {y' : Pipe} (data : Data y toY q accepted received)
    (inActive : y'.inActive = y.inActive)
    (reads : y'.phase.reads = true → y.phase.reads = true) :
    Data y' toY q accepted received := by
  refine ⟨data.fair, data.log, data.whole, data.ready, data.unfinished, ?_, ?_, data.parted⟩
  · intro inactive reading
    exact data.wake (inActive ▸ inactive) (reads reading)
  · intro inactive
    exact data.idle (inActive ▸ inactive)

theorem whole_accepted (data : Data y toY q accepted received) : Whole accepted := by
  rw [data.log, ← List.append_assoc]
  exact data.whole.append data.ready

theorem flush (data : Data y toY q accepted received) :
    Data y (if q.flush.1 then toY else toY ++ [.activateRead]) q.flush.2 accepted received := by
  rw [Channel.flush]
  split
  · exact data
  · refine ⟨?_, ?_, ?_, ?_, data.unfinished, ?_, data.idle, data.parted⟩
    · rintro ⟨⟩
    · simpa using data.log
    · simpa using data.whole.append data.ready
    · simp [Whole]
    · intro inactive reads
      right
      rcases data.wake inactive reads with asleep | waking
      · simp [asleep]
      · split
        · exact waking
        · exact List.mem_append_left _ waking

theorem rollback (data : Data y toY q accepted received) :
    Data y toY { q with unfinished := [] } accepted received :=
  ⟨data.fair, data.log, data.whole, data.ready, by simp, data.wake, data.idle, data.parted⟩

theorem write_part (data : Data y toY q accepted received) (m : PipeMsg α)
    (more : m.more = true) : Data y toY (q.write m true) accepted received := by
  refine ⟨data.fair, data.log, data.whole, data.ready, ?_, data.wake, data.idle, data.parted⟩
  intro n member
  rcases List.mem_append.mp member with earlier | last
  · exact data.unfinished n earlier
  · obtain rfl : n = m := by simpa using last
    exact more

theorem write_last (data : Data y toY q accepted received) (m : PipeMsg α)
    (more : m.more = false)
    (parted : Parted (accepted ++ (q.unfinished ++ [m]))) :
    Data y toY (q.write m false) (accepted ++ (q.unfinished ++ [m])) received := by
  refine ⟨data.fair, ?_, data.whole, ?_, ?_, data.wake, data.idle, parted⟩
  · simp [data.log, Channel.write]
  · rw [Channel.write, ← List.append_assoc]
    exact whole_concat _ m more
  · simp [Channel.write]

theorem not_delimiter (data : Data y toY q accepted received) : .delimiter ∉ q.unfinished := by
  intro member
  cases data.unfinished _ member

theorem write (data : Data y toY q accepted received) (m : PipeMsg α)
    (other : m.isDelimiter = false) :
    Data y toY (q.write m m.more)
      (if m.more then accepted else accepted ++ (q.unfinished ++ [m])) received := by
  cases more : m.more with
  | true => exact data.write_part m more
  | false =>
    refine data.write_last m more (data.parted.append _ ?_)
    rw [List.mem_append, List.mem_singleton]
    rintro (member | rfl)
    · exact data.not_delimiter member
    · cases other

theorem write_delimiter (data : Data y toY q accepted received) (empty : q.unfinished = []) :
    Data y toY (q.write .delimiter false) (accepted ++ (q.unfinished ++ [.delimiter]))
      received := by
  refine data.write_last .delimiter rfl ?_
  rw [empty]
  exact data.parted.delimiter data.whole_accepted

/-- The reader takes messages of the queue. -/
theorem take {taken rest : List (PipeMsg α)} (data : Data y toY q accepted received)
    (split : q.sent = taken ++ rest) {y' : Pipe} (awake : y'.inActive = true)
    (found : q.sent ≠ []) :
    Data y' toY { q with sent := rest } accepted (received ++ taken) := by
  refine ⟨?_, ?_, ?_, data.ready, data.unfinished, ?_, ?_, data.parted⟩
  · intro asleep
    exact absurd (data.fair asleep) found
  · simp [data.log, split]
  · have := data.whole
    rw [split, ← List.append_assoc] at this
    exact this
  · simp [awake]
  · simp [awake]

/-- The reader finds nothing more, and falls asleep. -/
theorem sleep (data : Data y toY q accepted received) {y' : Pipe} :
    Data y' toY { q with sent := [], asleep := true } accepted (received ++ q.sent) := by
  refine ⟨fun _ => rfl, ?_, ?_, data.ready, data.unfinished, fun _ _ => .inl rfl,
    fun _ => data.whole, data.parted⟩
  · simp [data.log]
  · simpa using data.whole

/-- A message of several parts is there as a whole. -/
theorem continues (data : Data y toY q accepted received) {m : PipeMsg α}
    (last : received.getLast? = some m) (more : m.more = true) :
    y.inActive = true ∧ ∃ n, q.sent.head? = some n ∧ n.isDelimiter = false := by
  have torn : ¬Whole received := fun whole => by simp [whole m last] at more
  refine ⟨by_contra fun idle => torn (data.idle (by simpa using idle)), ?_⟩
  have whole := data.whole
  have log := data.log
  cases queue : q.sent with
  | nil =>
    rw [queue, List.append_nil] at whole
    exact absurd whole torn
  | cons n sent =>
    refine ⟨n, rfl, ?_⟩
    cases n with
    | msg => rfl
    | delimiter =>
      rw [queue, List.cons_append] at log
      exact absurd (data.parted _ _ log) torn

end Data

/-! ### The watermarks -/

def reports (mail : List PipeCommand) : List Nat :=
  mail.filterMap fun
    | .activateWrite msgsRead => some msgsRead
    | _ => none

/-- What the writer will know of the reader. -/
def latest (x : Pipe) (toX : List PipeCommand) : Nat := (reports toX).getLastD x.peersMsgsRead

/-- The messages that the writer counts and the reader does not are credentials. -/
def readCounts (m : PipeMsg α) : Bool := m.counts && !m.isCredential

structure Credit (bound : Nat) (x y : Pipe) (toX : List PipeCommand)
    (accepted received : List (PipeMsg α)) : Prop where
  hwm : x.hwm = bound
  written : x.msgsWritten = accepted.countP PipeMsg.counts
  read : y.msgsRead = received.countP readCounts
  sorted : (x.peersMsgsRead :: (reports toX ++ [y.msgsRead])).Pairwise (· ≤ ·)
  fresh : y.msgsRead - y.msgsRead % y.lwm ≤ latest x toX
  limit : 0 < x.hwm → x.msgsWritten ≤ x.peersMsgsRead + x.hwm
  blocked : x.outActive = false → x.state = .active →
    0 < x.hwm ∧ x.peersMsgsRead + x.hwm ≤ x.msgsWritten
  lwm : y.lwm = computeLwm bound

namespace Credit

variable {bound : Nat} {x y : Pipe} {toX : List PipeCommand} {accepted received : List (PipeMsg α)}

/-- Changes that the watermarks do not depend on. -/
theorem congr {x' y' : Pipe} {toX' : List PipeCommand}
    (credit : Credit bound x y toX accepted received)
    (writer : (x'.hwm, x'.msgsWritten, x'.peersMsgsRead) =
      (x.hwm, x.msgsWritten, x.peersMsgsRead))
    (blocked : x'.outActive = false → x'.state = .active →
      x.outActive = false ∧ x.state = .active)
    (reader : (y'.lwm, y'.msgsRead) = (y.lwm, y.msgsRead))
    (mail : reports toX' = reports toX) : Credit bound x' y' toX' accepted received := by
  obtain ⟨hwm, written, peers⟩ : x'.hwm = x.hwm ∧ x'.msgsWritten = x.msgsWritten ∧
      x'.peersMsgsRead = x.peersMsgsRead := by simpa using writer
  obtain ⟨lwm, read⟩ : y'.lwm = y.lwm ∧ y'.msgsRead = y.msgsRead := by simpa using reader
  refine ⟨hwm ▸ credit.hwm, written ▸ credit.written, read ▸ credit.read, ?_, ?_, ?_, ?_,
    lwm ▸ credit.lwm⟩
  · rw [peers, mail, read]
    exact credit.sorted
  · rw [read, lwm, latest, mail, peers]
    exact credit.fresh
  · rw [hwm, written, peers]
    exact credit.limit
  · intro inactive active
    rw [hwm, written, peers]
    obtain ⟨inactive, active⟩ := blocked inactive active
    exact credit.blocked inactive active

/-- The pipe is full. -/
theorem block (credit : Credit bound x y toX accepted received) (full : x.checkHwm = false) :
    Credit bound { x with outActive := false } y toX accepted received := by
  refine ⟨credit.hwm, credit.written, credit.read, credit.sorted, credit.fresh, credit.limit, ?_,
    credit.lwm⟩
  intro _ _
  obtain ⟨bounded, reached⟩ : 0 < x.hwm ∧ x.hwm ≤ x.msgsWritten - x.peersMsgsRead := by
    simpa [Pipe.checkHwm] using full
  exact ⟨bounded, by dsimp only; omega⟩

theorem write (credit : Credit bound x y toX accepted received) (room : x.checkHwm = true)
    (active : x.outActive = true) (ms : List (PipeMsg α)) (m : PipeMsg α)
    (parts : ∀ n ∈ ms, n.more = true) :
    Credit bound (if m.counts then { x with msgsWritten := x.msgsWritten + 1 } else x) y toX
      (if m.more then accepted else accepted ++ (ms ++ [m])) received := by
  have uncounted : ms.countP PipeMsg.counts = 0 := by
    rw [List.countP_eq_zero]
    intro n member
    have more := parts n member
    cases n <;> simp_all [PipeMsg.counts, PipeMsg.more]
  have written :
      (if m.counts then { x with msgsWritten := x.msgsWritten + 1 } else x).msgsWritten =
        (if m.more then accepted else accepted ++ (ms ++ [m])).countP PipeMsg.counts := by
    have before := credit.written
    cases m <;> grind [PipeMsg.counts, PipeMsg.more]
  have free : 0 < x.hwm → x.msgsWritten < x.peersMsgsRead + x.hwm := by
    intro bounded
    have : x.hwm = 0 ∨ x.msgsWritten - x.peersMsgsRead < x.hwm := by
      simpa [Pipe.checkHwm] using room
    omega
  generalize after : (if m.counts then { x with msgsWritten := x.msgsWritten + 1 } else x) = x'
    at written
  obtain ⟨hwm, peers, still, grown⟩ : x'.hwm = x.hwm ∧
      x'.peersMsgsRead = x.peersMsgsRead ∧ x'.outActive = true ∧
      x'.msgsWritten ≤ x.msgsWritten + 1 := by
    subst after
    split <;> simp [active]
  refine ⟨hwm ▸ credit.hwm, written, credit.read, peers ▸ credit.sorted, ?_, ?_, by simp [still],
    credit.lwm⟩
  · rw [latest, peers]
    exact credit.fresh
  · rw [hwm, peers]
    intro bounded
    have := free bounded
    omega

theorem delimiter (credit : Credit bound x y toX accepted received) :
    Credit bound x y toX (accepted ++ [.delimiter]) received := by
  refine ⟨credit.hwm, ?_, credit.read, credit.sorted, credit.fresh, credit.limit, credit.blocked,
    credit.lwm⟩
  rw [credit.written, List.countP_append]
  rfl

/-- The writer learns how much was read. -/
theorem learn {msgsRead : Nat}
    (credit : Credit bound x y (.activateWrite msgsRead :: toX) accepted received) {x' : Pipe}
    (writer : (x'.hwm, x'.msgsWritten, x'.peersMsgsRead) =
      (x.hwm, x.msgsWritten, msgsRead))
    (awake : x'.outActive = false → x'.state ≠ .active) :
    Credit bound x' y toX accepted received := by
  obtain ⟨hwm, written, peers⟩ : x'.hwm = x.hwm ∧ x'.msgsWritten = x.msgsWritten ∧
      x'.peersMsgsRead = msgsRead := by simpa using writer
  have sorted := credit.sorted
  have newer : x.peersMsgsRead ≤ msgsRead := by
    simp only [reports, List.filterMap_cons, List.cons_append, List.pairwise_cons] at sorted
    exact sorted.1 msgsRead (by simp)
  refine ⟨hwm ▸ credit.hwm, written ▸ credit.written, credit.read, ?_, ?_, ?_,
    fun inactive active => absurd active (awake inactive), credit.lwm⟩
  · rw [peers]
    exact (List.pairwise_cons.mp sorted).2
  · have fresh := credit.fresh
    simp only [latest, reports, List.filterMap_cons, List.getLastD_cons] at fresh
    rw [latest, peers]
    exact fresh
  · rw [hwm, written, peers]
    intro bounded
    have := credit.limit bounded
    omega

/-- The reader counts what it has read, and reports it from time to time. -/
theorem read_more (credit : Credit bound x y toX accepted received) {y' : Pipe}
    {taken : List (PipeMsg α)} {toX' : List PipeCommand}
    (lwm : y'.lwm = y.lwm) (read : y'.msgsRead = y.msgsRead + taken.countP readCounts)
    (reported : reports toX' = reports toX ++ [y'.msgsRead] ∨
      reports toX' = reports toX ∧ y'.msgsRead - y'.msgsRead % y.lwm ≤ latest x toX) :
    Credit bound x y' toX' accepted (received ++ taken) := by
  have sorted := credit.sorted
  simp only [← List.cons_append, List.pairwise_append, List.mem_singleton, forall_eq] at sorted
  obtain ⟨earlier, -, below⟩ := sorted
  have grown : ∀ n ∈ x.peersMsgsRead :: reports toX, n ≤ y'.msgsRead := by
    intro n member
    have := below n member
    omega
  refine ⟨credit.hwm, credit.written, ?_, ?_, ?_, credit.limit, credit.blocked,
    lwm ▸ credit.lwm⟩
  · rw [read, credit.read, List.countP_append]
  · rcases reported with mail | ⟨mail, -⟩
    · simp only [mail, ← List.cons_append, List.pairwise_append, List.mem_singleton, forall_eq]
      refine ⟨⟨earlier, List.pairwise_singleton _ _, grown⟩, List.pairwise_singleton _ _, ?_⟩
      intro n member
      rcases List.mem_append.mp member with old | new
      · exact grown n old
      · exact Nat.le_of_eq (List.mem_singleton.mp new)
    · simp only [mail, ← List.cons_append, List.pairwise_append, List.mem_singleton, forall_eq]
      exact ⟨earlier, List.pairwise_singleton _ _, grown⟩
  · rcases reported with mail | ⟨mail, fresh⟩
    · rw [latest, mail, List.getLastD_concat]
      exact Nat.sub_le _ _
    · rw [latest, mail, lwm]
      exact fresh

theorem read_le (credit : Credit bound x y toX accepted received) :
    x.peersMsgsRead ≤ received.countP PipeMsg.counts := by
  have sorted := credit.sorted
  rw [List.pairwise_cons] at sorted
  refine Nat.le_trans (sorted.1 y.msgsRead (by simp)) ?_
  rw [credit.read]
  refine List.countP_mono_left fun m _ counted => ?_
  rw [readCounts, Bool.and_eq_true] at counted
  exact counted.1

theorem bounded (credit : Credit bound x y toX accepted received) (limited : 0 < bound) :
    accepted.countP PipeMsg.counts ≤ received.countP PipeMsg.counts + bound := by
  have limit := credit.limit (credit.hwm ▸ limited)
  have := credit.read_le
  rw [credit.hwm] at limit
  rw [← credit.written]
  omega

end Credit

/-! ### What one pipe can rely on -/

/-- One direction, from `x` to `y`. -/
structure Way (hwm : Nat) (x y : Pipe) (toX toY : List PipeCommand) (q : Channel (PipeMsg α))
    (accepted received : List (PipeMsg α)) : Prop where
  term : Term x.phase y.phase toX
  asked : Asked x.phase y.phase q
  data : Data y toY q accepted received
  credit : Credit hwm x y toX accepted received

namespace Way

variable {hwm : Nat} {x y : Pipe} {toX toY : List PipeCommand} {q : Channel (PipeMsg α)}
variable {accepted received : List (PipeMsg α)}

/-- A pipe that is full has not been told of everything that was read. -/
theorem not_full (way : Way hwm x y toX toY q accepted received) (fits : hwm < intMax)
    (plain : ∀ m ∈ accepted, m.isCredential = false) (active : x.state = .active)
    (full : x.outActive = false) :
    received.countP PipeMsg.counts < accepted.countP PipeMsg.counts ∨
      ∃ msgsRead, .activateWrite msgsRead ∈ toX := by
  have credit := way.credit
  by_cases told : reports toX = []
  · left
    have read : y.msgsRead = received.countP PipeMsg.counts := by
      rw [credit.read]
      refine List.countP_congr fun m member => ?_
      have : m ∈ accepted := by
        rw [way.data.log]
        exact List.mem_append_left _ member
      simp [readCounts, plain m this]
    obtain ⟨positive, reached⟩ := credit.blocked full active
    have fresh := credit.fresh
    rw [latest, told, List.getLastD_nil] at fresh
    have lwm : y.lwm = (x.hwm + 1) / 2 := by
      rw [credit.lwm, computeLwm, if_pos fits, credit.hwm]
    have small : y.msgsRead % y.lwm < y.lwm := by
      refine Nat.mod_lt _ ?_
      rw [lwm]
      omega
    have low : y.lwm ≤ x.hwm := by
      rw [lwm]
      omega
    rw [← credit.written, ← read]
    omega
  · right
    obtain ⟨msgsRead, member⟩ := List.exists_mem_of_ne_nil _ told
    obtain ⟨c, sent, same⟩ := List.mem_filterMap.mp member
    cases c with
    | activateWrite n => exact ⟨n, sent⟩
    | activateRead | pipeTerm | pipeTermAck => cases same

theorem not_stuck (way : Way hwm x y toX toY q accepted received)
    (reads : y.phase.reads = true) (inactive : y.inActive = false) (left : q.sent ≠ []) :
    .activateRead ∈ toY := by
  rcases way.data.wake inactive reads with asleep | waking
  · exact absurd (way.data.fair asleep) left
  · exact waking

end Way

/-- What an operation of a pipe leaves alone. -/
structure Others (α : Type) where
  outhwm : Nat
  inhwm : Nat
  peer : Pipe
  toMe : List PipeCommand
  toPeer : List PipeCommand
  -- the outbound queue, as it was when it was deallocated
  queue : Channel (PipeMsg α)
  accepted : List (PipeMsg α)
  received : List (PipeMsg α)

def PipeEnd.out (e : PipeEnd α) (others : Others α) : Channel (PipeMsg α) :=
  e.outpipe.getD others.queue

structure Sound (others : Others α) (e : PipeEnd α) : Prop where
  outbound : Way others.outhwm e.pipe others.peer others.toMe (others.toPeer ++ e.sent)
    (e.out others) e.accepted others.received
  inbound : Way others.inhwm others.peer e.pipe (others.toPeer ++ e.sent) others.toMe e.inpipe
    others.accepted e.received
  there : others.peer.gone = false → ∃ ch, e.outpipe = some ch
  silent : others.peer.gone = true → e.sent = []
  owed : Owes others.peer.phase e.pipe.phase e.inpipe

/-- The pipe has left the delimiter it owes. -/
def Paid (others : Others α) (e : PipeEnd α) : Prop :=
  Owes e.pipe.phase others.peer.phase (e.out others)

theorem reports_append (l m : List PipeCommand) : reports (l ++ m) = reports l ++ reports m :=
  List.filterMap_append

namespace Sound

variable {others : Others α} {e : PipeEnd α}

theorem peer_there (sound : Sound others e) (open_end : e.pipe.phase.sentAck = false) :
    others.peer.gone = false := sound.inbound.term.not_gone open_end

/-- A pipe that has an outbound queue can use it. -/
theorem connected (sound : Sound others e) (outPipe : e.pipe.outPipe = true) :
    e.pipe.phase.sentAck = false ∧ ∃ ch, e.outpipe = some ch := by
  have null : e.pipe.outPipe = !e.pipe.phase.sentAck := sound.outbound.term.null
  have open_end : e.pipe.phase.sentAck = false := by simpa [outPipe] using null
  exact ⟨open_end, sound.there (sound.peer_there open_end)⟩

/-- What is known of a pipe that is not deallocated. -/
theorem phase_eq (sound : Sound others e) (running : e.pipe.gone = false) {state : PipeState}
    (here : e.pipe.state = state) :
    e.pipe.phase = ⟨state, !(⟨state, true, false⟩ : Phase).sentAck, false⟩ := by
  have null := sound.outbound.term.null
  subst here
  simp only [Pipe.phase, running, Phase.mk.injEq, and_true, true_and] at null ⊢
  exact null

/-- A change of the pipe's state and the commands that go with it. -/
theorem change {p : Pipe} {x x' : Phase} {toMe : List PipeCommand} (sound : Sound others e)
    (commands : List PipeCommand) (before : e.pipe.phase = x) (after : p.phase = x')
    (mine : Term x' others.peer.phase toMe)
    (theirs : Term others.peer.phase x' (others.toPeer ++ e.sent ++ commands))
    (counters : (p.hwm, p.msgsWritten, p.peersMsgsRead, p.lwm, p.msgsRead) =
      (e.pipe.hwm, e.pipe.msgsWritten, e.pipe.peersMsgsRead, e.pipe.lwm, e.pipe.msgsRead))
    (inActive : p.inActive = e.pipe.inActive)
    (reads : x'.reads = true → x.reads = true)
    (asks : x.sentTerm = true → x'.sentTerm = true)
    (stopped : x'.state ≠ .active) (uncounted : reports commands = [])
    (mail : reports toMe = reports others.toMe)
    (waking : .activateRead ∈ others.toMe → .activateRead ∈ toMe)
    (heard : commands ≠ [] → x.sentAck = false) :
    Sound { others with toMe := toMe } { e with pipe := p, sent := e.sent ++ commands } := by
  obtain ⟨hwm, written, peers, lwm, read⟩ : p.hwm = e.pipe.hwm ∧
      p.msgsWritten = e.pipe.msgsWritten ∧ p.peersMsgsRead = e.pipe.peersMsgsRead ∧
      p.lwm = e.pipe.lwm ∧ p.msgsRead = e.pipe.msgsRead := by simpa using counters
  subst before after
  have out := sound.outbound
  have inn := sound.inbound
  refine ⟨⟨mine, ?_, ?_, ?_⟩, ⟨?_, ?_, ?_, ?_⟩, sound.there, ?_, ?_⟩
  · intro member
    exact (out.asked member).imp_left asks
  · rw [← List.append_assoc]
    exact out.data.mono commands
  · exact out.credit.congr (by simp [hwm, written, peers])
      (fun _ active => absurd active stopped) rfl mail
  · rw [← List.append_assoc]
    exact theirs
  · intro member
    exact (inn.asked member).imp_right asks
  · have data := inn.data.congr_reader inActive reads
    refine ⟨data.fair, data.log, data.whole, data.ready, data.unfinished, ?_, data.idle,
      data.parted⟩
    intro inactive reading
    exact (data.wake inactive reading).imp_right waking
  · refine inn.credit.congr rfl (fun inactive active => ⟨inactive, active⟩)
      (by simp [lwm, read]) ?_
    simp only [reports_append, uncounted, List.append_nil]
  · intro gone
    have : commands = [] := by
      by_contra some_command
      exact absurd gone (by simp [sound.peer_there (heard some_command)])
    rw [this, List.append_nil]
    exact sound.silent gone
  · intro asked reading
    exact sound.owed asked (reads reading)

end Sound

/-! ### Reading -/

theorem take_spec (ms taken rest : List (PipeMsg α)) (found : Option (PipeMsg α))
    (result : PipeEnd.take ms = (taken, found, rest)) :
    ms = taken ++ rest ∧ ∃ passed, taken = passed ++ found.toList ∧
      (∀ m ∈ passed, m.isCredential = true) ∧ (∀ m, found = some m → m.isCredential = false) ∧
      (found = none → rest = []) := by
  induction ms generalizing taken rest found with
  | nil =>
    simp only [PipeEnd.take, Prod.mk.injEq] at result
    obtain ⟨rfl, rfl, rfl⟩ := result
    exact ⟨rfl, [], rfl, by simp, by simp, fun _ => rfl⟩
  | cons m ms ih =>
    rw [PipeEnd.take] at result
    split at result
    · next credential =>
      simp only [Prod.mk.injEq] at result
      obtain ⟨rfl, rfl, rfl⟩ := result
      obtain ⟨split, passed, taken, credentials, payload, all⟩ := ih _ _ _ rfl
      refine ⟨congrArg (m :: ·) split, m :: passed, congrArg (m :: ·) taken, ?_, payload, all⟩
      simpa [credential] using credentials
    · next payload =>
      simp only [Prod.mk.injEq] at result
      obtain ⟨rfl, rfl, rfl⟩ := result
      exact ⟨rfl, [], rfl, by simp, by simp [payload], by simp⟩

theorem credentials_uncounted (ms : List (PipeMsg α)) (all : ∀ m ∈ ms, m.isCredential = true) :
    ms.countP readCounts = 0 ∧ .delimiter ∉ ms := by
  constructor
  · rw [List.countP_eq_zero]
    intro m member
    simp [readCounts, all m member]
  · intro member
    cases all _ member

namespace Sound

variable {others : Others α} {e : PipeEnd α}

/-- The pipe takes messages of its inbound queue and counts them. -/
theorem take {taken rest : List (PipeMsg α)} {n : Nat} (sound : Sound others e)
    (commands : List PipeCommand) (split : e.inpipe.sent = taken ++ rest)
    (found : e.inpipe.sent ≠ []) (awake : e.pipe.inActive = true)
    (kept : e.pipe.phase.reads = true → .delimiter ∉ taken)
    (read : n = e.pipe.msgsRead + taken.countP readCounts)
    (reported : commands = [.activateWrite n] ∧ e.pipe.phase.sentAck = false ∨
      commands = [] ∧ n - n % e.pipe.lwm ≤ latest others.peer (others.toPeer ++ e.sent)) :
    Sound others { e with
      pipe := { e.pipe with msgsRead := n }
      inpipe := { e.inpipe with sent := rest }
      sent := e.sent ++ commands
      received := e.received ++ taken } := by
  have out := sound.outbound
  have inn := sound.inbound
  refine ⟨⟨out.term, out.asked, ?_, ?_⟩, ⟨?_, ?_, ?_, ?_⟩, sound.there, ?_, ?_⟩
  · rw [← List.append_assoc]
    exact out.data.mono commands
  · exact out.credit.congr rfl (fun inactive active => ⟨inactive, active⟩) rfl rfl
  · rcases reported with ⟨rfl, open_end⟩ | ⟨rfl, -⟩
    · rw [← List.append_assoc]
      exact inn.term.append open_end _ (by simp)
    · rw [List.append_nil]
      exact inn.term
  · intro member
    refine inn.asked ?_
    simp only [Channel.contents, split, List.append_assoc]
    exact List.mem_append_right taken member
  · exact inn.data.take split awake found
  · refine inn.credit.read_more rfl read ?_
    rcases reported with ⟨rfl, -⟩ | ⟨rfl, fresh⟩
    · left
      rw [← List.append_assoc, reports_append]
      rfl
    · exact .inr ⟨by simp, fresh⟩
  · intro gone
    rcases reported with ⟨-, open_end⟩ | ⟨rfl, -⟩
    · exact absurd gone (by simp [sound.peer_there open_end])
    · simpa using sound.silent gone
  · intro asked reading
    have member := sound.owed asked reading
    rw [split, List.mem_append] at member
    exact member.resolve_left (kept reading)

/-- Only credentials were left. -/
theorem sleep (sound : Sound others e) (all : ∀ m ∈ e.inpipe.sent, m.isCredential = true) :
    Sound others { e with
      pipe := { e.pipe with inActive := false }
      inpipe := { e.inpipe with sent := [], asleep := true }
      received := e.received ++ e.inpipe.sent } := by
  obtain ⟨uncounted, no_delimiter⟩ := credentials_uncounted _ all
  have out := sound.outbound
  have inn := sound.inbound
  refine ⟨⟨out.term, out.asked, out.data, ?_⟩, ⟨inn.term, ?_, inn.data.sleep, ?_⟩, sound.there,
    sound.silent, ?_⟩
  · exact out.credit.congr rfl (fun inactive active => ⟨inactive, active⟩) rfl rfl
  · intro member
    exact inn.asked (List.mem_append_right _ member)
  · refine inn.credit.read_more rfl (by simp [uncounted]) (.inr ⟨rfl, ?_⟩)
    exact inn.credit.fresh
  · intro asked reading
    exact absurd (sound.owed asked reading) no_delimiter

/-- The delimiter ends the reading. -/
theorem delimiter (passed : List (PipeMsg α)) {rest : List (PipeMsg α)} (sound : Sound others e)
    (running : e.pipe.gone = false) (readable : PipeEnd.canRead e.pipe = true)
    (split : e.inpipe.sent = passed ++ .delimiter :: rest)
    (credentials : ∀ m ∈ passed, m.isCredential = true) :
    ∃ e', PipeEnd.processDelimiter { e with
        inpipe := { e.inpipe with sent := rest }
        received := e.received ++ (passed ++ [.delimiter]) } = some e' ∧
      Sound others e' ∧ Paid others e' := by
  have out := sound.outbound
  have inn := sound.inbound
  obtain ⟨awake, reading⟩ : e.pipe.inActive = true ∧
      (e.pipe.state = .active ∨ e.pipe.state = .waitingForDelimiter) := by
    simpa [PipeEnd.canRead] using readable
  have parts : e.inpipe.sent = (passed ++ [PipeMsg.delimiter]) ++ rest := by simp [split]
  have counted : e.pipe.msgsRead =
      e.pipe.msgsRead + (passed ++ [PipeMsg.delimiter]).countP readCounts := by
    rw [List.countP_append, (credentials_uncounted passed credentials).1]
    rfl
  have found : e.inpipe.sent ≠ [] := by simp [split]
  have asked : others.peer.phase.sentTerm = true ∨ e.pipe.phase.sentTerm = true :=
    inn.asked (by simp [Channel.contents, split])
  rcases reading with active | waiting
  · -- The delimiter has overtaken the request of the other end, which is still to come.
    have phase : e.pipe.phase = ⟨.active, true, false⟩ := sound.phase_eq running active
    have next : Pipe.phase { e.pipe with state := .delimiterReceived } =
        ⟨.delimiterReceived, true, false⟩ :=
      congrArg (fun x : Phase => { x with state := .delimiterReceived }) phase
    have peer : others.peer.phase.sentTerm = true := by
      simpa [phase, Phase.sentTerm] using asked
    have mine := phase ▸ out.term
    have theirs := phase ▸ inn.term
    have changed := sound.change [] phase next
      (mine.congr_self rfl rfl rfl rfl fun _ => peer)
      (by rw [List.append_nil]; exact theirs.congr_peer rfl rfl) rfl rfl (by simp [Phase.reads])
      (by simp [Phase.sentTerm]) (by simp) rfl rfl id (by simp)
    have read := changed.take [] parts found awake
      (by simp [next, Phase.reads]) counted (.inr ⟨rfl, by simpa using inn.credit.fresh⟩)
    refine ⟨_, by simp [PipeEnd.processDelimiter, active]; rfl, by simpa using read, ?_⟩
    simp [Paid, Owes, Phase.sentTerm, Pipe.phase]
  · -- The request was there before, and is acknowledged now.
    have phase : e.pipe.phase = ⟨.waitingForDelimiter, true, false⟩ :=
      sound.phase_eq running waiting
    have mine := phase ▸ out.term
    have theirs := phase ▸ inn.term
    have next : Pipe.phase { e.pipe with outPipe := false, state := .termAckSent } =
        ⟨.termAckSent, false, false⟩ := by
      rw [Pipe.phase, running]
    have changed := sound.change [.pipeTermAck] phase next
      (mine.congr_self rfl rfl rfl rfl (by simp)) (theirs.acknowledge rfl rfl rfl) rfl rfl
      (by simp [Phase.reads]) (by simp [Phase.sentTerm]) (by simp) rfl rfl id (fun _ => rfl)
    have read := changed.take [] parts found awake
      (by simp [next, Phase.reads]) counted (.inr ⟨rfl, ?_⟩)
    · refine ⟨_, by simp [PipeEnd.processDelimiter, waiting]; rfl,
        by simpa [PipeEnd.send] using read, ?_⟩
      simp [Paid, Owes, Phase.sentTerm, Pipe.phase, PipeEnd.send]
    · exact changed.inbound.credit.fresh

theorem checkRead (sound : Sound others e) (paid : Paid others e)
    (running : e.pipe.gone = false) :
    ∃ r, e.checkRead = some r ∧ Sound others r.2 ∧ Paid others r.2 := by
  rw [PipeEnd.checkRead]
  cases readable : PipeEnd.canRead e.pipe with
  | false => exact ⟨_, rfl, sound, paid⟩
  | true =>
    simp only [Bool.not_true, Bool.false_eq_true, if_false]
    cases queue : e.inpipe.sent with
    | nil =>
      have slept := sound.sleep (by simp [queue])
      refine ⟨_, rfl, ?_, paid⟩
      simpa [Channel.checkRead, queue] using slept
    | cons m ms =>
      dsimp only
      cases m with
      | msg => exact ⟨_, rfl, sound, paid⟩
      | delimiter =>
        obtain ⟨e', ended, kept, paid'⟩ :=
          sound.delimiter [] running readable queue (by simp)
        refine ⟨(false, e'), ?_, kept, paid'⟩
        simp only [PipeMsg.isDelimiter, if_true, Channel.read, queue]
        rw [List.nil_append] at ended
        rw [ended]
        rfl

/-- What was not reported does not grow beyond the low watermark. -/
theorem unreported_le (n lwm : Nat) (silent : ¬(0 < lwm ∧ (n + 1) % lwm = 0)) :
    n + 1 - (n + 1) % lwm ≤ n - n % lwm := by
  rcases Nat.eq_zero_or_pos lwm with rfl | positive
  · simp
  · have same : (n + 1) / lwm = n / lwm :=
      Nat.succ_div_of_not_dvd fun divides => silent ⟨positive, Nat.mod_eq_zero_of_dvd divides⟩
    have before := Nat.div_add_mod n lwm
    have after := Nat.div_add_mod (n + 1) lwm
    rw [same] at after
    omega

/-- A message is read and counted. -/
theorem read_message {passed rest : List (PipeMsg α)} {m : PipeMsg α} (sound : Sound others e)
    (running : e.pipe.gone = false) (readable : PipeEnd.canRead e.pipe = true)
    (split : e.inpipe.sent = passed ++ m :: rest)
    (credentials : ∀ n ∈ passed, n.isCredential = true) (payload : m.isCredential = false)
    (other : m.isDelimiter = false) {n : Nat}
    (counted : n = if m.counts then e.pipe.msgsRead + 1 else e.pipe.msgsRead)
    {commands : List PipeCommand}
    (reported : commands =
      if 0 < e.pipe.lwm ∧ n % e.pipe.lwm = 0 then [.activateWrite n] else []) :
    Sound others { e with
      pipe := { e.pipe with msgsRead := n }
      inpipe := { e.inpipe with sent := rest }
      sent := e.sent ++ commands
      received := e.received ++ (passed ++ [m]) } := by
  obtain ⟨awake, reading⟩ : e.pipe.inActive = true ∧
      (e.pipe.state = .active ∨ e.pipe.state = .waitingForDelimiter) := by
    simpa [PipeEnd.canRead] using readable
  obtain ⟨uncounted, no_delimiter⟩ := credentials_uncounted passed credentials
  refine sound.take commands (by simp [split]) (by simp [split]) awake ?_ ?_ ?_
  · intro _ member
    rcases List.mem_append.mp member with earlier | last
    · exact no_delimiter earlier
    · obtain rfl := List.mem_singleton.mp last
      cases other
  · rw [counted, List.countP_append, uncounted, List.countP_singleton, readCounts, payload]
    cases m.counts <;> rfl
  · split at reported
    · refine .inl ⟨reported, ?_⟩
      rcases reading with active | waiting
      · rw [sound.phase_eq running active]
        rfl
      · rw [sound.phase_eq running waiting]
        rfl
    · next silent =>
      refine .inr ⟨reported, Nat.le_trans ?_ sound.inbound.credit.fresh⟩
      split at counted
      · subst counted
        exact unreported_le _ _ silent
      · exact Nat.le_of_eq (by rw [counted])

theorem read (sound : Sound others e) (paid : Paid others e) (running : e.pipe.gone = false) :
    ∃ r, e.read = some r ∧ Sound others r.2 ∧ Paid others r.2 := by
  rw [PipeEnd.read]
  cases readable : PipeEnd.canRead e.pipe with
  | false => exact ⟨_, rfl, sound, paid⟩
  | true =>
    simp only [Bool.not_true, Bool.false_eq_true, if_false]
    rcases result : PipeEnd.take e.inpipe.sent with ⟨taken, found, rest⟩
    obtain ⟨split, passed, rfl, credentials, payload, all⟩ := take_spec _ _ _ _ result
    dsimp only
    cases found with
    | none =>
      obtain rfl := all rfl
      rw [Option.toList_none, List.append_nil] at split
      have slept := sound.sleep (by simpa [split] using credentials)
      refine ⟨_, rfl, ?_, paid⟩
      simpa [split] using slept
    | some m =>
      rw [Option.toList_some, List.append_assoc, List.singleton_append] at split
      cases m with
      | delimiter =>
        obtain ⟨e', ended, kept, paid'⟩ := sound.delimiter passed running readable split credentials
        refine ⟨(none, e'), ?_, kept, paid'⟩
        simp only [PipeMsg.isDelimiter, if_true, Option.toList_some]
        rw [ended]
        rfl
      | msg body more routingId credential =>
        simp only [PipeMsg.isDelimiter, Bool.false_eq_true, if_false]
        generalize counted : e.pipe.countRead (PipeMsg.msg body more routingId credential) = n
        have kept := sound.read_message running readable split credentials (payload _ rfl) rfl
          counted.symm rfl
        split
        · next reports =>
          rw [if_pos reports] at kept
          exact ⟨_, rfl, kept, paid⟩
        · next silent =>
          rw [if_neg silent, List.append_nil] at kept
          exact ⟨_, rfl, kept, paid⟩

end Sound

/-! ### Writing -/

namespace Sound

variable {others : Others α} {e : PipeEnd α} {ch : Channel (PipeMsg α)}

/-- A command that takes nothing down and reports nothing. -/
theorem wake (sound : Sound others e) (open_end : e.pipe.phase.sentAck = false) :
    Sound others (e.send .activateRead) := by
  have out := sound.outbound
  have inn := sound.inbound
  refine ⟨⟨out.term, out.asked, ?_, out.credit⟩, ⟨?_, inn.asked, inn.data, ?_⟩, sound.there, ?_,
    sound.owed⟩
  · rw [PipeEnd.send, ← List.append_assoc]
    exact out.data.mono _
  · rw [PipeEnd.send, ← List.append_assoc]
    exact inn.term.append open_end _ (by simp)
  · refine inn.credit.congr rfl (fun inactive active => ⟨inactive, active⟩) rfl ?_
    simp [PipeEnd.send, reports]
  · intro gone
    exact absurd gone (by simp [sound.peer_there open_end])

/-- The outbound queue changes, and what was written with it. -/
theorem change_queue {p : Pipe} {accepted : List (PipeMsg α)} (sound : Sound others e)
    (outpipe : Option (Channel (PipeMsg α)))
    (there : others.peer.gone = false → ∃ ch, outpipe = some ch)
    (asked : Asked e.pipe.phase others.peer.phase (outpipe.getD others.queue))
    (data : Data others.peer (others.toPeer ++ e.sent) (outpipe.getD others.queue) accepted
      others.received)
    (credit : Credit others.outhwm p others.peer others.toMe accepted others.received)
    (same : p.phase = e.pipe.phase) (reader : (p.inActive, p.lwm, p.msgsRead) =
      (e.pipe.inActive, e.pipe.lwm, e.pipe.msgsRead)) :
    Sound others { e with pipe := p, outpipe := outpipe, accepted := accepted } := by
  have inn := sound.inbound
  obtain ⟨inActive, lwm, read⟩ : p.inActive = e.pipe.inActive ∧ p.lwm = e.pipe.lwm ∧
      p.msgsRead = e.pipe.msgsRead := by simpa using reader
  refine ⟨⟨?_, ?_, data, credit⟩, ⟨?_, ?_, ?_, ?_⟩, there, sound.silent, ?_⟩
  · rw [same]
    exact sound.outbound.term
  · rw [same]
    exact asked
  · rw [same]
    exact inn.term
  · rw [same]
    exact inn.asked
  · exact inn.data.congr_reader inActive (by rw [same]; exact id)
  · exact inn.credit.congr rfl (fun inactive active => ⟨inactive, active⟩)
      (by rw [lwm, read]) rfl
  · rw [same]
    exact sound.owed

/-- Changes of a pipe that only the watermarks depend on. -/
theorem adjust {p : Pipe} (sound : Sound others e) (phase : p.phase = e.pipe.phase)
    (credit : Credit others.outhwm p others.peer others.toMe e.accepted others.received)
    (reader : (p.inActive, p.lwm, p.msgsRead) =
      (e.pipe.inActive, e.pipe.lwm, e.pipe.msgsRead)) :
    Sound others { e with pipe := p } :=
  sound.change_queue e.outpipe sound.there sound.outbound.asked sound.outbound.data credit phase
    reader

theorem out_eq (connected : e.outpipe = some ch) : e.out others = ch := by
  rw [PipeEnd.out, connected]
  rfl

/-- The flushed queue, as the sender of the command sees it. -/
theorem flush (sound : Sound others e) :
    ∃ e', e.flush = some e' ∧ Sound others e' ∧ (Paid others e → Paid others e') ∧
      (e.pipe.outPipe = true → .delimiter ∈ (e.out others).ready → Paid others e') := by
  rw [PipeEnd.flush]
  split
  · next idle =>
    refine ⟨e, rfl, sound, id, fun outPipe => ?_⟩
    have stopped : e.pipe.state = .termAckSent := by simpa [outPipe] using idle
    have open_end := (sound.connected outPipe).1
    simp [Phase.sentAck, Pipe.phase, stopped] at open_end
  · next busy =>
    have outPipe : e.pipe.outPipe = true := by
      simp only [Bool.or_eq_true, not_or] at busy
      simpa using busy.2
    obtain ⟨open_end, ch, connected⟩ := sound.connected outPipe
    have out := sound.outbound
    rw [out_eq connected] at out
    have sent : ∀ m, m ∈ ch.flush.2.sent ↔ m ∈ ch.sent ∨ m ∈ ch.ready := by
      intro m
      rw [Channel.flush]
      split
      · next none_ready => simp [none_ready]
      · simp
    have asked : Asked e.pipe.phase others.peer.phase ch.flush.2 := by
      intro member
      rw [Channel.contents_flush] at member
      exact out.asked member
    have data := out.data.flush
    have paid : ∀ e' : PipeEnd α, e'.pipe = e.pipe → e'.outpipe = some ch.flush.2 →
        (Paid others e → Paid others e') ∧
          (.delimiter ∈ (e.out others).ready → Paid others e') := by
      intro e' same queue
      rw [Paid, Paid, out_eq queue, out_eq connected, same]
      constructor
      · intro before asked reading
        exact (sent _).mpr (.inl (before asked reading))
      · intro member _ _
        exact (sent _).mpr (.inr member)
    rw [PipeEnd.withOutpipe, if_pos outPipe, connected]
    -- The reader is woken up exactly where the channel says that it sleeps.
    refine ⟨_, rfl, ?_, ?_⟩
    · cases quiet : ch.flush.1 with
      | true =>
        rw [quiet, if_pos rfl] at data
        exact sound.change_queue (some _) (fun _ => ⟨_, rfl⟩) asked data out.credit rfl rfl
      | false =>
        rw [quiet, if_neg (by simp), List.append_assoc] at data
        exact (sound.wake open_end).change_queue (some _) (fun _ => ⟨_, rfl⟩) asked data
          out.credit rfl rfl
    · have := paid _ (show (if ch.flush.1 = true then { e with outpipe := some ch.flush.2 } else
        PipeEnd.send { e with outpipe := some ch.flush.2 } .activateRead).pipe = e.pipe by
          split <;> rfl) (by split <;> rfl)
      exact ⟨this.1, fun _ => this.2⟩

/-- Parts of a message that is not complete are taken back. -/
theorem rollback (sound : Sound others e) :
    ∃ e', e.rollback = some e' ∧ Sound others e' ∧ (Paid others e → Paid others e') ∧
      e'.pipe = e.pipe ∧ e'.sent = e.sent ∧
      (e.pipe.outPipe = true → ∃ ch, e'.outpipe = some ch ∧ ch.unfinished = []) := by
  rw [PipeEnd.rollback]
  cases outPipe : e.pipe.outPipe with
  | false => exact ⟨e, rfl, sound, id, rfl, rfl, by simp⟩
  | true =>
    obtain ⟨-, ch, connected⟩ := sound.connected outPipe
    have out := sound.outbound
    rw [out_eq connected] at out
    have parts : ch.unfinished.all PipeMsg.more = true := by
      simpa using out.data.unfinished
    have asked : Asked e.pipe.phase others.peer.phase { ch with unfinished := [] } := by
      intro member
      refine out.asked ?_
      simp only [Channel.contents, List.append_nil] at member
      simp only [Channel.contents, ← List.append_assoc]
      exact List.mem_append_left _ member
    have kept := sound.change_queue (some _) (fun _ => ⟨_, rfl⟩) asked out.data.rollback
      out.credit rfl rfl
    rw [if_neg (by simp), PipeEnd.withOutpipe, if_pos outPipe, connected, Option.bind_some,
      if_pos parts]
    refine ⟨_, rfl, kept, ?_, rfl, rfl, fun _ => ⟨_, rfl, rfl⟩⟩
    intro before
    rw [Paid, out_eq connected] at before
    exact before

/-- Whether the pipe can be written, it is only the watermark that stops it. -/
theorem checkWrite (sound : Sound others e) :
    Sound others e.checkWrite.2 ∧ (e.checkWrite.1 = true → e.checkWrite.2 = e ∧
      e.pipe.outActive = true ∧ e.pipe.state = .active ∧ e.pipe.checkHwm = true) ∧
      (Paid others e → Paid others e.checkWrite.2) := by
  rw [PipeEnd.checkWrite]
  split
  · exact ⟨sound, by simp, id⟩
  · next writable =>
    simp only [Bool.or_eq_true, not_or] at writable
    obtain ⟨active, state⟩ : e.pipe.outActive = true ∧ e.pipe.state = .active := by
      simpa using writable
    split
    · next full =>
      have blocked := sound.outbound.credit.block (by simpa using full)
      exact ⟨sound.adjust rfl blocked rfl, by simp, id⟩
    · next room => exact ⟨sound, fun _ => ⟨rfl, active, state, by simpa using room⟩, id⟩

theorem write (sound : Sound others e) (paid : Paid others e) (running : e.pipe.gone = false)
    (m : PipeMsg α) (other : m.isDelimiter = false) :
    ∃ e', e.write m = some e' ∧ Sound others e' ∧ Paid others e' := by
  obtain ⟨kept, writable, paid'⟩ := sound.checkWrite
  rw [PipeEnd.write]
  rcases checked : e.checkWrite with ⟨answer, e'⟩
  rw [checked] at kept writable paid'
  cases answer with
  | false => exact ⟨e', rfl, kept, paid' paid⟩
  | true =>
    obtain ⟨rfl, active, state, room⟩ := writable rfl
    have phase : e'.pipe.phase = ⟨.active, true, false⟩ := sound.phase_eq running state
    have outPipe : e'.pipe.outPipe = true := congrArg Phase.outPipe phase
    obtain ⟨-, ch, connected⟩ := sound.connected outPipe
    have out := sound.outbound
    rw [out_eq connected] at out
    have asked : Asked e'.pipe.phase others.peer.phase (ch.write m m.more) := by
      intro member
      rw [Channel.contents_write, List.mem_append, List.mem_singleton] at member
      refine out.asked (member.resolve_right ?_)
      rintro rfl
      cases other
    have kept := sound.change_queue (p := if m.counts then
      { e'.pipe with msgsWritten := e'.pipe.msgsWritten + 1 } else e'.pipe) (some _)
      (fun _ => ⟨_, rfl⟩) asked
      (out.data.write m other) (out.credit.write room active ch.unfinished m out.data.unfinished)
      (by split <;> rfl) (by split <;> rfl)
    simp only [Bool.not_true, Bool.false_eq_true, if_false]
    rw [PipeEnd.withOutpipe, if_pos outPipe, connected, Option.bind_some]
    refine ⟨_, rfl, kept, ?_⟩
    intro asked
    have same : Pipe.phase (if m.counts = true then
      { e'.pipe with msgsWritten := e'.pipe.msgsWritten + 1 } else e'.pipe) = e'.pipe.phase := by
      split <;> rfl
    simp [same, phase, Phase.sentTerm] at asked

/-- The delimiter is flushed with everything before it. -/
theorem writeDelimiter (sound : Sound others e)
    (asked : e.pipe.phase.sentTerm = true ∨ others.peer.phase.sentTerm = true)
    (paid : e.pipe.outPipe = false → Paid others e) :
    ∃ e', e.writeDelimiter = some e' ∧ Sound others e' ∧ Paid others e' := by
  rw [PipeEnd.writeDelimiter]
  cases outPipe : e.pipe.outPipe with
  | false => exact ⟨e, rfl, sound, paid outPipe⟩
  | true =>
    obtain ⟨e₁, rolled, kept, -, same, -, queue⟩ := sound.rollback
    obtain ⟨ch, connected, empty⟩ := queue outPipe
    have out := kept.outbound
    rw [out_eq connected] at out
    have written := kept.change_queue (p := e₁.pipe) (some (ch.write .delimiter false))
      (fun _ => ⟨_, rfl⟩) (fun _ => same ▸ asked) (out.data.write_delimiter empty) ?_ rfl rfl
    · obtain ⟨e', flushed, kept, -, paid'⟩ := written.flush
      refine ⟨e', ?_, kept, paid' ?_ ?_⟩
      · rw [if_neg (by simp), rolled, Option.bind_some, PipeEnd.withOutpipe,
          if_pos (by rw [same]; exact outPipe), connected]
        exact flushed
      · rw [same]
        exact outPipe
      · simp [PipeEnd.out, Channel.write]
    · rw [empty]
      exact out.credit.delimiter

end Sound

/-! ### Termination -/

namespace Sound

variable {others : Others α} {e : PipeEnd α}

theorem set_delay (sound : Sound others e) (delay : Bool) :
    Sound others { e with pipe := { e.pipe with delay := delay } } :=
  sound.adjust rfl (sound.outbound.credit.congr rfl
    (fun inactive active => ⟨inactive, active⟩) rfl rfl) rfl

/-- A pipe that has started to terminate writes nothing more. -/
theorem stop (sound : Sound others e) (ending : e.pipe.state ≠ .active) :
    Sound others { e with pipe := { e.pipe with outActive := false } } :=
  sound.adjust rfl (sound.outbound.credit.congr rfl
    (fun _ active => absurd active ending) rfl rfl) rfl

/-- The pipe asks the other one to terminate. -/
theorem request (sound : Sound others e) {state : PipeState} (running : e.pipe.gone = false)
    (here : e.pipe.state = state) (early : state = .active ∨ state = .delimiterReceived) :
    Sound others
      { e.send .pipeTerm with pipe := { e.pipe with state := .termReqSent1 } } := by
  have mine := sound.outbound.term
  have theirs := sound.inbound.term
  rcases early with rfl | rfl
  all_goals
    have phase := sound.phase_eq running here
    have next : Pipe.phase { e.pipe with state := .termReqSent1 } =
        ⟨.termReqSent1, true, false⟩ :=
      congrArg (fun x : Phase => { x with state := .termReqSent1 }) phase
    rw [phase] at mine theirs
    exact sound.change [.pipeTerm] phase next (mine.congr_self rfl rfl rfl rfl (by simp))
      (theirs.request rfl rfl rfl rfl) rfl rfl (by simp [Phase.reads]) (fun _ => rfl) (by simp)
      rfl rfl id (fun _ => rfl)

/-- The pipe answers the request of the other one, and is done with its outbound queue. -/
theorem answer (sound : Sound others e) (running : e.pipe.gone = false)
    (here : e.pipe.state = .waitingForDelimiter) :
    Sound others (e.acknowledge .termAckSent) := by
  have phase := sound.phase_eq running here
  have mine := sound.outbound.term
  have theirs := sound.inbound.term
  rw [phase] at mine theirs
  have next : Pipe.phase { e.pipe with state := .termAckSent, outPipe := false } =
      ⟨.termAckSent, false, false⟩ := by
    rw [Pipe.phase, running]
  exact sound.change [.pipeTermAck] phase next (mine.congr_self rfl rfl rfl rfl (by simp))
    (theirs.acknowledge rfl rfl rfl) rfl rfl (by simp [Phase.reads]) (by simp [Phase.sentTerm])
    (by simp) rfl rfl id (fun _ => rfl)

/-- What `terminate` has done where it comes to the delimiter. -/
theorem terminateState (sound : Sound others e) (paid : Paid others e)
    (running : e.pipe.gone = false) :
    ∃ r, e.terminateState = some r ∧ Sound others r.2 ∧ (r.1 = true → Paid others r.2) ∧
      (r.1 = false → r.2.pipe.state ≠ .active ∧ (r.2.pipe.outPipe = false → Paid others r.2) ∧
        (r.2.pipe.phase.sentTerm = true ∨ others.peer.phase.sentTerm = true)) := by
  rw [PipeEnd.terminateState]
  cases here : e.pipe.state with
  | termReqSent1 | termReqSent2 | termAckSent => exact ⟨_, rfl, sound, fun _ => paid, by simp⟩
  | active =>
    have asking := sound.request running here (.inl rfl)
    have outPipe : e.pipe.outPipe = true :=
      congrArg Phase.outPipe (sound.phase_eq running here)
    refine ⟨_, rfl, asking, by simp, fun _ => ⟨by simp, ?_, .inl rfl⟩⟩
    simp [PipeEnd.send, outPipe]
  | delimiterReceived =>
    have asking := sound.request running here (.inr rfl)
    have outPipe : e.pipe.outPipe = true :=
      congrArg Phase.outPipe (sound.phase_eq running here)
    refine ⟨_, rfl, asking, by simp, fun _ => ⟨by simp, ?_, .inl rfl⟩⟩
    simp [PipeEnd.send, outPipe]
  | waitingForDelimiter =>
    have phase := sound.phase_eq running here
    have asked : others.peer.phase.sentTerm = true :=
      sound.outbound.term.gotTerm (by rw [phase]; rfl)
    dsimp only
    split
    · exact ⟨_, rfl, sound, by simp, fun _ => ⟨by simp [here], fun _ => paid, .inr asked⟩⟩
    · obtain ⟨e₁, rolled, kept, -, same, -, -⟩ := sound.rollback
      rw [rolled]
      have answered := kept.answer (by rw [same]; exact running) (by rw [same]; exact here)
      refine ⟨_, rfl, answered, by simp, fun _ => ⟨by simp, fun _ => ?_, .inr asked⟩⟩
      simp [Paid, Owes, Phase.sentTerm, Pipe.phase]

theorem terminate (sound : Sound others e) (paid : Paid others e)
    (running : e.pipe.gone = false) (delay : Bool) :
    ∃ e', e.terminate delay = some e' ∧ Sound others e' ∧ Paid others e' := by
  obtain ⟨⟨returns, e₁⟩, ended, kept, paid', rest⟩ :=
    (sound.set_delay delay).terminateState paid running
  rw [PipeEnd.terminate, ended, Option.bind_some]
  cases returns with
  | true => exact ⟨e₁, rfl, kept, paid' rfl⟩
  | false =>
    obtain ⟨ending, owing, asked⟩ := rest rfl
    exact (kept.stop ending).writeDelimiter asked owing

theorem call (sound : Sound others e) (paid : Paid others e) (running : e.pipe.gone = false)
    (call : PipeCall α) : ∃ e', e.call call = some e' ∧ Sound others e' ∧ Paid others e' := by
  cases call with
  | write m =>
    rw [PipeEnd.call]
    cases other : m.isDelimiter with
    | true => exact ⟨e, rfl, sound, paid⟩
    | false => exact sound.write paid running m other
  | flush =>
    obtain ⟨e', flushed, kept, paid', -⟩ := sound.flush
    exact ⟨e', flushed, kept, paid' paid⟩
  | rollback =>
    obtain ⟨e', rolled, kept, paid', -⟩ := sound.rollback
    exact ⟨e', rolled, kept, paid' paid⟩
  | read =>
    obtain ⟨r, read, kept⟩ := sound.read paid running
    exact ⟨r.2, by rw [PipeEnd.call, read]; rfl, kept⟩
  | checkWrite =>
    obtain ⟨kept, -, paid'⟩ := sound.checkWrite
    exact ⟨_, rfl, kept, paid' paid⟩
  | checkRead =>
    obtain ⟨r, checked, kept⟩ := sound.checkRead paid running
    exact ⟨r.2, by rw [PipeEnd.call, checked]; rfl, kept⟩
  | terminate delay => exact sound.terminate paid running delay
  | setNodelay => exact ⟨_, rfl, sound.set_delay false, paid⟩

/-! ### Commands -/

section Commands

variable {others : Others α} {e : PipeEnd α} {c : PipeCommand} {toMe : List PipeCommand}

/-- A command that takes nothing down. -/
theorem receive {p : Pipe} (sound : Sound others e) (mail : others.toMe = c :: toMe)
    (other : c ≠ .pipeTerm ∧ c ≠ .pipeTermAck) (phase : p.phase = e.pipe.phase)
    (credit : Credit others.outhwm p others.peer toMe e.accepted others.received)
    (data : Data p toMe e.inpipe others.accepted e.received)
    (reader : (p.lwm, p.msgsRead) = (e.pipe.lwm, e.pipe.msgsRead)) :
    Sound { others with toMe := toMe } { e with pipe := p } := by
  have out := sound.outbound
  have inn := sound.inbound
  have mine := out.term
  rw [mail] at mine
  refine ⟨⟨?_, ?_, out.data, credit⟩, ⟨?_, ?_, data, ?_⟩, sound.there, sound.silent, ?_⟩
  · rw [phase]
    exact mine.pop other
  · rw [phase]
    exact out.asked
  · rw [phase]
    exact inn.term
  · rw [phase]
    exact inn.asked
  · exact inn.credit.congr rfl (fun inactive active => ⟨inactive, active⟩) reader rfl
  · rw [phase]
    exact sound.owed

theorem processActivateRead (sound : Sound others e)
    (mail : others.toMe = .activateRead :: toMe) :
    Sound { others with toMe := toMe } e.processActivateRead := by
  have credit := sound.outbound.credit
  have data := sound.inbound.data
  rw [mail] at credit
  rw [PipeEnd.processActivateRead]
  split
  · refine sound.receive mail (by simp) rfl (credit.congr rfl
      (fun inactive active => ⟨inactive, active⟩) rfl rfl) ?_ rfl
    exact ⟨data.fair, data.log, data.whole, data.ready, data.unfinished, by simp, by simp,
      data.parted⟩
  · next other =>
    refine sound.receive mail (by simp) rfl (credit.congr rfl
      (fun inactive active => ⟨inactive, active⟩) rfl rfl) ?_ rfl
    refine ⟨data.fair, data.log, data.whole, data.ready, data.unfinished, ?_, data.idle,
      data.parted⟩
    intro inactive reads
    refine absurd ?_ other
    simp only [Phase.reads, Pipe.phase] at reads
    split at reads
    · next active => simp [inactive, active]
    · next waiting => simp [inactive, waiting]
    · cases reads

theorem processActivateWrite {msgsRead : Nat} (sound : Sound others e)
    (mail : others.toMe = .activateWrite msgsRead :: toMe) :
    Sound { others with toMe := toMe } (e.processActivateWrite msgsRead) := by
  have credit := sound.outbound.credit
  have data := sound.inbound.data
  rw [mail] at credit data
  have still {p : Pipe} (inActive : p.inActive = e.pipe.inActive)
      (reads : p.phase.reads = e.pipe.phase.reads) :
      Data p toMe e.inpipe others.accepted e.received := by
    have data := data.congr_reader inActive (by rw [reads]; exact id)
    refine ⟨data.fair, data.log, data.whole, data.ready, data.unfinished, ?_, data.idle,
      data.parted⟩
    intro inactive reading
    simpa using data.wake inactive reading
  rw [PipeEnd.processActivateWrite]
  dsimp only
  split
  · exact sound.receive mail (by simp) rfl (credit.learn rfl (by simp)) (still rfl rfl) rfl
  · next other =>
    refine sound.receive mail (by simp) rfl (credit.learn rfl ?_) (still rfl rfl) rfl
    intro inactive active
    exact other (by simpa using And.intro inactive active)

/-- The request of the other pipe never comes where it is not expected. -/
theorem processPipeTerm (sound : Sound others e) (paid : Paid others e)
    (mail : others.toMe = .pipeTerm :: toMe) :
    ∃ e', e.processPipeTerm = some e' ∧ Sound { others with toMe := toMe } e' ∧
      Paid { others with toMe := toMe } e' := by
  have mine := sound.outbound.term
  have theirs := sound.inbound.term
  rw [mail] at mine
  obtain ⟨asked, there, unasked, next⟩ := mine.pop_request
  have running : e.pipe.gone = false := there
  have reported : reports toMe = reports others.toMe := by rw [mail]; rfl
  have waking : .activateRead ∈ others.toMe → .activateRead ∈ toMe := by simp [mail]
  rw [PipeEnd.processPipeTerm]
  cases here : e.pipe.state with
  | waitingForDelimiter | termAckSent | termReqSent2 =>
    -- A pipe in one of these states has had the request, and there is only one.
    simp [Phase.gotTerm, Pipe.phase, here] at unasked
  | active =>
    have phase := sound.phase_eq running here
    rw [phase] at theirs
    dsimp only
    split
    · have after : Pipe.phase { e.pipe with state := .waitingForDelimiter } =
          ⟨.waitingForDelimiter, true, false⟩ :=
        congrArg (fun x : Phase => { x with state := .waitingForDelimiter }) phase
      have kept := sound.change [] phase after (next _ rfl rfl rfl (by simp))
        (by rw [List.append_nil]; exact theirs.congr_peer rfl rfl) rfl rfl (fun _ => rfl)
        (by simp [Phase.sentTerm]) (by simp) rfl reported waking (by simp)
      refine ⟨_, rfl, by simpa using kept, ?_⟩
      simp [Paid, Owes, Phase.sentTerm, Pipe.phase]
    · have after : Pipe.phase { e.pipe with state := .termAckSent, outPipe := false } =
          ⟨.termAckSent, false, false⟩ := by
        rw [Pipe.phase, running]
      have kept := sound.change [.pipeTermAck] phase after (next _ rfl rfl rfl (by simp))
        (theirs.acknowledge rfl rfl rfl) rfl rfl (by simp [Phase.reads])
        (by simp [Phase.sentTerm]) (by simp) rfl reported waking (fun _ => rfl)
      refine ⟨_, rfl, kept, ?_⟩
      simp [Paid, Owes, Phase.sentTerm, Pipe.phase, PipeEnd.acknowledge]
  | delimiterReceived =>
    have phase := sound.phase_eq running here
    rw [phase] at theirs
    have after : Pipe.phase { e.pipe with state := .termAckSent, outPipe := false } =
        ⟨.termAckSent, false, false⟩ := by
      rw [Pipe.phase, running]
    have kept := sound.change [.pipeTermAck] phase after (next _ rfl rfl rfl (by simp))
      (theirs.acknowledge rfl rfl rfl) rfl rfl (by simp [Phase.reads])
      (by simp [Phase.sentTerm]) (by simp) rfl reported waking (fun _ => rfl)
    refine ⟨_, rfl, kept, ?_⟩
    simp [Paid, Owes, Phase.sentTerm, Pipe.phase, PipeEnd.acknowledge]
  | termReqSent1 =>
    have phase := sound.phase_eq running here
    rw [phase] at theirs
    have after : Pipe.phase { e.pipe with state := .termReqSent2, outPipe := false } =
        ⟨.termReqSent2, false, false⟩ := by
      rw [Pipe.phase, running]
    have kept := sound.change [.pipeTermAck] phase after (next _ rfl rfl rfl (by simp))
      (theirs.acknowledge rfl rfl rfl) rfl rfl (by simp [Phase.reads])
      (fun _ => rfl) (by simp) rfl reported waking (fun _ => rfl)
    refine ⟨_, rfl, kept, ?_⟩
    intro _ reading
    exact paid (by rw [phase]; rfl) reading

/-- The acknowledgement of the other pipe never comes where it is not expected. -/
theorem processPipeTermAck (sound : Sound others e) (paid : Paid others e)
    (mail : others.toMe = .pipeTermAck :: toMe) :
    ∃ e', e.processPipeTermAck = some e' ∧ Sound { others with toMe := toMe } e' ∧
      Paid { others with toMe := toMe } e' := by
  have mine := sound.outbound.term
  have theirs := sound.inbound.term
  rw [mail] at mine
  obtain ⟨-, acked, there, -⟩ := mine.pop_acknowledgement
  have running : e.pipe.gone = false := there
  have ending := theirs.acknowledged acked
  have reported : reports toMe = reports others.toMe := by rw [mail]; rfl
  have waking : .activateRead ∈ others.toMe → .activateRead ∈ toMe := by simp [mail]
  rw [PipeEnd.processPipeTermAck]
  cases here : e.pipe.state with
  | active | delimiterReceived | waitingForDelimiter =>
    -- A pipe in one of these states has neither asked nor answered, so nobody acknowledges.
    have phase := sound.phase_eq running here
    rw [phase] at ending
    simp [Phase.sentTerm, Phase.sentAck] at ending
  | termReqSent1 =>
    have phase := sound.phase_eq running here
    rw [phase] at mine theirs
    have after : Pipe.phase
        { e.pipe with state := .termReqSent1, outPipe := false, gone := true } =
          ⟨.termReqSent1, false, true⟩ := rfl
    have kept := sound.change [.pipeTermAck] phase after
      (mine.finish rfl rfl (.inl rfl) rfl) (theirs.acknowledge rfl rfl rfl) rfl rfl
      (by simp [Phase.reads]) (fun _ => rfl) (by simp) rfl reported waking (fun _ => rfl)
    refine ⟨_, rfl, kept, ?_⟩
    intro _ reading
    exact paid (by rw [phase]; rfl) reading
  | termAckSent =>
    have phase := sound.phase_eq running here
    rw [phase] at mine theirs
    have after : Pipe.phase { e.pipe with gone := true } = ⟨.termAckSent, false, true⟩ :=
      congrArg (fun x : Phase => { x with gone := true }) phase
    have kept := sound.change [] phase after (mine.finish rfl rfl (.inr (.inl rfl)) rfl)
      (by rw [List.append_nil]; exact theirs.congr_peer rfl rfl) rfl rfl
      (by simp [Phase.reads]) (by simp [Phase.sentTerm]) (by simp) rfl reported waking (by simp)
    refine ⟨_, rfl, by simpa using kept, ?_⟩
    intro asks
    simp [Phase.sentTerm, Pipe.phase, here] at asks
  | termReqSent2 =>
    have phase := sound.phase_eq running here
    rw [phase] at mine theirs
    have after : Pipe.phase { e.pipe with gone := true } = ⟨.termReqSent2, false, true⟩ :=
      congrArg (fun x : Phase => { x with gone := true }) phase
    have kept := sound.change [] phase after (mine.finish rfl rfl (.inr (.inr rfl)) rfl)
      (by rw [List.append_nil]; exact theirs.congr_peer rfl rfl) rfl rfl
      (by simp [Phase.reads]) (fun _ => rfl) (by simp) rfl reported waking (by simp)
    refine ⟨_, rfl, by simpa using kept, ?_⟩
    intro _ reading
    exact paid (by rw [phase]; rfl) reading

theorem process (sound : Sound others e) (paid : Paid others e)
    (mail : others.toMe = c :: toMe) :
    ∃ e', e.process c = some e' ∧ Sound { others with toMe := toMe } e' ∧
      Paid { others with toMe := toMe } e' := by
  cases c with
  | activateRead =>
    refine ⟨_, rfl, sound.processActivateRead mail, ?_⟩
    rw [PipeEnd.processActivateRead]
    split <;> exact paid
  | activateWrite =>
    refine ⟨_, rfl, sound.processActivateWrite mail, ?_⟩
    rw [PipeEnd.processActivateWrite]
    dsimp only
    split <;> exact paid
  | pipeTerm => exact sound.processPipeTerm paid mail
  | pipeTermAck => exact sound.processPipeTermAck paid mail

end Commands


end Sound

/-! ### Both pipes -/

namespace PipePair

def Sane (hwms : Bool → Nat) (s : PipePair α) : Prop :=
  ∀ b, Way (hwms b) (s.pipes b) (s.pipes !b) (s.mail b) (s.mail !b) (s.queues b) (s.accepted b)
      (s.received !b) ∧
    Owes (s.pipes b).phase (s.pipes !b).phase (s.queues b)

def others (s : PipePair α) (hwms : Bool → Nat) (b : Bool) (toMe : List PipeCommand) : Others α :=
  ⟨hwms b, hwms !b, s.pipes !b, toMe, s.mail !b, s.queues b, s.accepted !b, s.received !b⟩

variable {hwms : Bool → Nat} {s : PipePair α} {b : Bool}

theorem initial_sane (hwms : Bool → Nat) : (initial hwms : PipePair α).Sane hwms := by
  intro b
  have term : Term ⟨.active, true, false⟩ ⟨.active, true, false⟩ [] :=
    ⟨⟨[], rfl, by simp, rfl⟩, by simp, by simp [Phase.gotTerm], by simp, by simp, rfl, by simp⟩
  have data : Data (.initial (hwms b) (hwms !b)) [] .empty [] ([] : List (PipeMsg α)) := by
    refine ⟨fun _ => rfl, rfl, by simp [Whole, Channel.empty], by simp [Whole, Channel.empty],
      by simp [Channel.empty], by simp [Pipe.initial], by simp [Whole], ?_⟩
    intro before after split
    simp at split
  have credit : Credit (hwms b) (.initial (hwms !b) (hwms b)) (.initial (hwms b) (hwms !b)) [] []
      ([] : List (PipeMsg α)) := by
    refine ⟨rfl, rfl, rfl, ?_, ?_, ?_, ?_, rfl⟩
    all_goals simp [Pipe.initial, reports]
  have way : Way (hwms b) (.initial (hwms !b) (hwms b)) (.initial (hwms b) (hwms !b)) [] []
      .empty [] ([] : List (PipeMsg α)) :=
    ⟨term, by simp [Asked, Channel.contents, Channel.empty], data, credit⟩
  refine ⟨?_, by simp [Owes, Phase.sentTerm, initial, Pipe.initial, Pipe.phase]⟩
  cases b <;> exact way

theorem Sane.sound (sane : s.Sane hwms) (b : Bool) :
    Sound (s.others hwms b (s.mail b)) (s.pipeEnd b) ∧
    Paid (s.others hwms b (s.mail b)) (s.pipeEnd b) := by
  have queue : (s.pipeEnd b).out (s.others hwms b (s.mail b)) = s.queues b := by
    rw [PipeEnd.out, pipeEnd]
    split <;> rfl
  have mine := sane b
  have theirs := sane !b
  rw [Bool.not_not] at theirs
  refine ⟨⟨?_, ?_, ?_, fun _ => rfl, theirs.2⟩, ?_⟩
  · rw [queue, others, pipeEnd, List.append_nil]
    exact mine.1
  · rw [others, pipeEnd, List.append_nil]
    exact theirs.1
  · intro there
    refine ⟨s.queues b, ?_⟩
    rw [pipeEnd, if_neg]
    simpa [others] using there
  · rw [Paid, queue]
    exact mine.2

theorem put_sane {mail : List PipeCommand} {e : PipeEnd α} (sound : Sound (s.others hwms b mail) e)
    (paid : Paid (s.others hwms b mail) e) : ∃ t, s.put b mail e = some t ∧ t.Sane hwms := by
  have silent : ¬((s.pipes !b).gone = true ∧ e.sent ≠ []) := by
    rintro ⟨gone, some_command⟩
    exact some_command (sound.silent gone)
  rw [put, if_neg silent]
  refine ⟨_, rfl, ?_⟩
  have other : (!b) ≠ b := by simp
  intro c
  by_cases same : c = b
  · subst same
    have way := sound.outbound
    simp only [Function.update_self, Function.update_of_ne other, if_true, if_neg other]
    exact ⟨way, paid⟩
  · obtain rfl : c = !b := by cases b <;> cases c <;> simp_all
    have way := sound.inbound
    simp only [Function.update_self, Function.update_of_ne other, if_true, if_neg other,
      Bool.not_not]
    exact ⟨way, sound.owed⟩

/-- No step fails. -/
theorem step_sane (sane : s.Sane hwms) (event : Bool × PipeAct α) :
    ∃ t, s.step event = some t ∧ t.Sane hwms := by
  obtain ⟨b, act⟩ := event
  obtain ⟨sound, paid⟩ := sane.sound b
  rw [step]
  cases act with
  | command =>
    rw [PipePair.act]
    cases mail : s.mail b with
    | nil => exact ⟨s, rfl, sane⟩
    | cons c toMe =>
      have running : (s.pipes b).gone = false := by
        cases gone : (s.pipes b).gone with
        | false => rfl
        | true => simpa [mail] using (sane b).1.term.quiet gone
      obtain ⟨e', processed, kept, paid'⟩ := sound.process paid mail
      simp only [running, Bool.false_eq_true, if_false, processed, Option.bind_some]
      exact put_sane kept paid'
  | call call =>
    rw [PipePair.act]
    cases running : (s.pipes b).gone with
    | true => exact ⟨s, rfl, sane⟩
    | false =>
      obtain ⟨e', called, kept, paid'⟩ := sound.call paid running call
      simp only [Bool.false_eq_true, if_false, called, Option.bind_some]
      exact put_sane kept paid'

theorem run_sane (hwms : Bool → Nat) (events : List (Bool × PipeAct α)) :
    ∃ t, Transition.run step (initial hwms) events = some t ∧ t.Sane hwms :=
  Transition.run_total step (fun _ s => s.Sane hwms) (fun _ => True)
    (fun _ _ event _ sane => step_sane sane event) 0 _ events (fun _ _ => trivial)
    (initial_sane hwms)

/-! ### What two threads can rely on -/

/-- Nothing is on its way, and nobody has anything to read. -/
def Quiet (s : PipePair α) : Prop := ∀ b, s.mail b = [] ∧ PipeEnd.canRead (s.pipes b) = false

theorem asleep_of_quiet (sane : s.Sane hwms) (quiet : s.Quiet)
    (reads : (s.pipes !b).phase.reads = true) : (s.queues b).sent = [] := by
  have data := (sane b).1.data
  obtain ⟨nothing, unreadable⟩ := quiet !b
  have inactive : (s.pipes !b).inActive = false := by
    simp only [Phase.reads, Pipe.phase] at reads
    split at reads
    · next active => simpa [PipeEnd.canRead, active] using unreadable
    · next waiting => simpa [PipeEnd.canRead, waiting] using unreadable
    · cases reads
  rcases data.wake inactive reads with asleep | waking
  · exact data.fair asleep
  · simp [nothing] at waking

theorem settled (sane : s.Sane hwms) (quiet : s.Quiet) (b : Bool) :
    ((s.pipes !b).phase.sentAck = true → (s.pipes b).gone = true) ∧
      ((s.pipes !b).phase.sentTerm = true → (s.pipes b).phase.gotTerm = true) := by
  have term := (sane b).1.term
  rw [(quiet b).1] at term
  obtain ⟨front, split, -, count⟩ := term.mail
  obtain ⟨rfl, none⟩ := List.append_eq_nil_iff.mp split.symm
  constructor
  · intro acked
    by_contra running
    have running : (s.pipes b).phase.gone = false := Bool.eq_false_iff.mpr running
    simp [acked, running] at none
  · intro asked
    by_contra unasked
    simp [asked, unasked] at count

/-- A pipe cannot wait for its acknowledgement when everything has been processed. -/
theorem not_waiting (sane : s.Sane hwms) (quiet : s.Quiet)
    (unacked : (s.pipes !b).phase.sentAck = false) : (s.pipes b).phase.sentTerm = false := by
  by_contra asked
  have asked : (s.pipes b).phase.sentTerm = true := by simpa using asked
  have known := (settled sane quiet !b).2 (by simpa using asked)
  have waiting : (s.pipes !b).state = .waitingForDelimiter := by
    cases here : (s.pipes !b).state <;> simp_all [Phase.gotTerm, Phase.sentAck, Pipe.phase]
  have reads : (s.pipes !b).phase.reads = true := by
    rw [Phase.reads, Pipe.phase, waiting]
  have owed := (sane b).2 asked reads
  rw [asleep_of_quiet sane quiet reads] at owed
  cases owed

theorem Sane.quiet_ends (sane : s.Sane hwms) (quiet : s.Quiet) :
    (∀ b, (s.pipes b).gone = true) ∨
      ∀ b, (s.pipes b).gone = false ∧ (s.pipes b).state = .active ∧ (s.queues b).sent = [] := by
  have together (b : Bool) (gone : (s.pipes b).gone = true) : (s.pipes !b).gone = true := by
    refine (settled sane quiet !b).1 ?_
    rw [Bool.not_not]
    cases here : (s.pipes b).state <;> simp [Phase.sentAck, Pipe.phase, here, gone]
  by_cases gone : ∃ b, (s.pipes b).gone = true
  · left
    obtain ⟨b, gone⟩ := gone
    intro c
    by_cases same : c = b
    · exact same ▸ gone
    · obtain rfl : c = !b := by cases b <;> cases c <;> simp_all
      exact together b gone
  · right
    have running (b : Bool) : (s.pipes b).gone = false := by simpa using fun h => gone ⟨b, h⟩
    have unacked (b : Bool) : (s.pipes b).phase.sentAck = false := by
      by_contra acked
      have := (settled sane quiet !b).1 (by simpa using acked)
      simp [running] at this
    have unasked (b : Bool) : (s.pipes b).phase.sentTerm = false :=
      not_waiting sane quiet (unacked !b)
    have active (b : Bool) : (s.pipes b).state = .active := by
      have term := (sane b).1.term
      have alone := unasked !b
      cases here : (s.pipes b).state with
      | active => rfl
      | delimiterReceived => exact absurd (term.seen here) (by simp [alone])
      | waitingForDelimiter =>
        exact absurd (term.gotTerm (by rw [Pipe.phase, here]; rfl)) (by simp [alone])
      | termAckSent | termReqSent2 =>
        have open_end := unacked b
        simp [Phase.sentAck, Pipe.phase, here] at open_end
      | termReqSent1 =>
        have quiet_end := unasked b
        simp [Phase.sentTerm, Pipe.phase, here] at quiet_end
    refine fun b => ⟨running b, active b, asleep_of_quiet sane quiet ?_⟩
    rw [Phase.reads, Pipe.phase, active]

end PipePair

/-- Whichever calls of `PipeCall` the owners of the two pipes make and however the two threads
alternate, no assertion fails and nothing is used or sent after it was deallocated. When both
threads have processed everything, either both pipes are deallocated, or both work and everything
that was flushed has been read. -/
theorem pipes_end_together (hwms : Bool → Nat) (events : List (Bool × PipeAct α)) :
    ∃ s, Transition.run PipePair.step (PipePair.initial hwms) events = some s ∧
      (s.Quiet → (∀ b, (s.pipes b).gone = true) ∨
        ∀ b, (s.pipes b).gone = false ∧ (s.pipes b).state = .active ∧
          (s.queues b).sent = []) := by
  obtain ⟨s, ran, sane⟩ := PipePair.run_sane hwms events
  exact ⟨s, ran, sane.quiet_ends⟩

/-- A pipe never holds more messages than the high watermark allows, which is fixed when the pair
is made. A pipe that is full has messages that the other one has not read, or will be told that they
were read, as long as nobody writes credentials and the watermark is below `INT_MAX` (there
`compute_lwm` overflows); and a pipe that has stopped reading will be told of what was flushed. -/
theorem pipes_never_stall (hwms : Bool → Nat) (events : List (Bool × PipeAct α)) :
    ∃ s, Transition.run PipePair.step (PipePair.initial hwms) events = some s ∧
      ∀ b, (0 < hwms b → (s.accepted b).countP PipeMsg.counts ≤
          (s.received !b).countP PipeMsg.counts + hwms b) ∧
        (hwms b < intMax → (∀ m ∈ s.accepted b, m.isCredential = false) →
          (s.pipes b).state = .active →
          (s.pipes b).outActive = false →
            (s.received !b).countP PipeMsg.counts < (s.accepted b).countP PipeMsg.counts ∨
              ∃ msgsRead, .activateWrite msgsRead ∈ s.mail b) ∧
        ((s.pipes !b).phase.reads = true → (s.pipes !b).inActive = false →
          (s.queues b).sent ≠ [] → .activateRead ∈ s.mail !b) := by
  obtain ⟨s, ran, sane⟩ := PipePair.run_sane hwms events
  refine ⟨s, ran, fun b => ?_⟩
  have way := (sane b).1
  exact ⟨way.credit.bounded, way.not_full, way.not_stuck⟩

/-- Messages come in order and whole, as long as no pipe hiccups: after a part that is to be
continued, the pipe still reads and finds something that is not the delimiter. -/
theorem pipes_deliver_in_order (hwms : Bool → Nat) (events : List (Bool × PipeAct α)) :
    ∃ s, Transition.run PipePair.step (PipePair.initial hwms) events = some s ∧
      ∀ b, s.received b <+: s.accepted !b ∧
        ∀ m, (s.received b).getLast? = some m → m.more = true →
          (s.pipes b).inActive = true ∧
            ∃ n, (s.queues !b).sent.head? = some n ∧ n.isDelimiter = false := by
  obtain ⟨s, ran, sane⟩ := PipePair.run_sane hwms events
  refine ⟨s, ran, fun b => ?_⟩
  have data := (sane !b).1.data
  rw [Bool.not_not] at data
  exact ⟨⟨_, data.log.symm⟩, fun m last more => data.continues last more⟩

/-! ### Nothing is lost when one pipe leaves the end to the other -/

/-- The delimiter is the last that `x` writes. -/
def Final (x : Phase) (accepted : List (PipeMsg α)) : Prop :=
  (x.sentTerm = false → .delimiter ∉ accepted) ∧
    (x.sentTerm = true → ∃ before, accepted = before ++ [.delimiter] ∧ .delimiter ∉ before)

/-- A pipe that waits for the delimiter. -/
structure Patient (p : Pipe) (received : List (PipeMsg α)) : Prop where
  delay : p.delay = true
  unasked : p.phase.sentTerm = false
  ended : p.phase.reads = false → .delimiter ∈ received

/-- A pipe that reads does so up to the delimiter. -/
structure Reading (e e' : PipeEnd α) : Prop where
  accepted : e'.accepted = e.accepted
  received : ∀ m ∈ e.received, m ∈ e'.received
  delay : e'.pipe.delay = e.pipe.delay
  sentTerm : e'.pipe.phase.sentTerm = e.pipe.phase.sentTerm
  reads : e'.pipe.phase.reads = e.pipe.phase.reads ∨ .delimiter ∈ e'.received

namespace Reading

variable {e e' : PipeEnd α}

theorem of_pipe (accepted : e'.accepted = e.accepted) (received : e'.received = e.received)
    (delay : e'.pipe.delay = e.pipe.delay) (phase : e'.pipe.phase = e.pipe.phase) :
    Reading e e' :=
  ⟨accepted, fun m member => received ▸ member, delay, by rw [phase], .inl (by rw [phase])⟩

theorem final (reading : Reading e e') (final : Final e.pipe.phase e.accepted) :
    Final e'.pipe.phase e'.accepted := by
  rw [Final, reading.accepted, reading.sentTerm]
  exact final

theorem patient (reading : Reading e e') (patient : Patient e.pipe e.received) :
    Patient e'.pipe e'.received := by
  refine ⟨reading.delay ▸ patient.delay, reading.sentTerm ▸ patient.unasked, fun stopped => ?_⟩
  rcases reading.reads with same | ended
  · exact reading.received _ (patient.ended (same ▸ stopped))
  · exact ended

theorem flush (flushed : e.flush = some e') : e'.pipe = e.pipe ∧ Reading e e' := by
  rw [PipeEnd.flush] at flushed
  split at flushed
  · obtain rfl := Option.some.inj flushed
    exact ⟨rfl, of_pipe rfl rfl rfl rfl⟩
  · rw [PipeEnd.withOutpipe, Option.ite_none_right_eq_some] at flushed
    obtain ⟨-, connected⟩ := flushed
    obtain ⟨ch, -, result⟩ := Option.bind_eq_some_iff.mp connected
    obtain rfl := Option.some.inj result
    split <;> exact ⟨rfl, of_pipe rfl rfl rfl rfl⟩

theorem rollback (rolled : e.rollback = some e') : Reading e e' := by
  rw [PipeEnd.rollback] at rolled
  split at rolled
  · obtain rfl := Option.some.inj rolled
    exact of_pipe rfl rfl rfl rfl
  · rw [PipeEnd.withOutpipe, Option.ite_none_right_eq_some] at rolled
    obtain ⟨-, connected⟩ := rolled
    obtain ⟨ch, -, result⟩ := Option.bind_eq_some_iff.mp connected
    rw [Option.ite_none_right_eq_some] at result
    obtain rfl := Option.some.inj result.2
    exact of_pipe rfl rfl rfl rfl

theorem processDelimiter {pipe : PipeEnd α} (ended : e.processDelimiter = some e')
    (accepted : e.accepted = pipe.accepted) (received : ∀ m ∈ pipe.received, m ∈ e.received)
    (last : .delimiter ∈ e.received) (same : e.pipe = pipe.pipe) : Reading pipe e' := by
  rw [PipeEnd.processDelimiter] at ended
  rw [same] at ended
  split at ended
  · next active =>
    obtain rfl := Option.some.inj ended
    exact ⟨accepted, received, rfl, by simp [Phase.sentTerm, Pipe.phase, active], .inr last⟩
  · next waiting =>
    obtain rfl := Option.some.inj ended
    exact ⟨accepted, received, rfl, by simp [Phase.sentTerm, Pipe.phase, waiting, PipeEnd.send],
      .inr last⟩
  · cases ended

theorem checkRead {r : Bool × PipeEnd α} (checked : e.checkRead = some r) : Reading e r.2 := by
  rw [PipeEnd.checkRead] at checked
  split at checked
  · obtain rfl := Option.some.inj checked
    exact of_pipe rfl rfl rfl rfl
  · split at checked
    · obtain rfl := Option.some.inj checked
      exact of_pipe rfl rfl rfl rfl
    · next m ms queue =>
      split at checked
      · next delimiter =>
        obtain ⟨e', ended, rfl⟩ := Option.map_eq_some_iff.mp checked
        refine processDelimiter ended rfl (fun n member => List.mem_append_left _ member) ?_ rfl
        cases m with
        | msg => cases delimiter
        | delimiter => simp
      · obtain rfl := Option.some.inj checked
        exact of_pipe rfl rfl rfl rfl

theorem read {r : Option (PipeMsg α) × PipeEnd α} (read : e.read = some r) : Reading e r.2 := by
  rw [PipeEnd.read] at read
  split at read
  · obtain rfl := Option.some.inj read
    exact of_pipe rfl rfl rfl rfl
  · rcases result : PipeEnd.take e.inpipe.sent with ⟨taken, found, rest⟩
    rw [result] at read
    have kept : ∀ m ∈ e.received, m ∈ e.received ++ taken :=
      fun m member => List.mem_append_left _ member
    dsimp only at read
    split at read
    · obtain rfl := Option.some.inj read
      exact ⟨rfl, kept, rfl, rfl, .inl rfl⟩
    · next m =>
      split at read
      · next delimiter =>
        obtain ⟨e', ended, rfl⟩ := Option.map_eq_some_iff.mp read
        refine processDelimiter ended rfl kept ?_ rfl
        obtain ⟨-, passed, rfl, -⟩ := take_spec _ _ _ _ result
        cases m with
        | msg => cases delimiter
        | delimiter => simp
      · split at read <;> obtain rfl := Option.some.inj read <;>
          exact ⟨rfl, kept, rfl, rfl, .inl rfl⟩

theorem processActivateRead : Reading e e.processActivateRead := by
  rw [PipeEnd.processActivateRead]
  split <;> exact of_pipe rfl rfl rfl rfl

theorem processActivateWrite (msgsRead : Nat) : Reading e (e.processActivateWrite msgsRead) := by
  rw [PipeEnd.processActivateWrite]
  dsimp only
  split <;> exact of_pipe rfl rfl rfl rfl

theorem checkWrite (e : PipeEnd α) : Reading e e.checkWrite.2 := by
  rw [PipeEnd.checkWrite]
  split
  · exact of_pipe rfl rfl rfl rfl
  · split <;> exact of_pipe rfl rfl rfl rfl

end Reading

section Ends

variable {others : Others α} {e e' : PipeEnd α}

theorem write_ends {m : PipeMsg α} (sound : Sound others e) (other : m.isDelimiter = false)
    (written : e.write m = some e') :
    (Final e.pipe.phase e.accepted → Final e'.pipe.phase e'.accepted) ∧
      (Patient e.pipe e.received → Patient e'.pipe e'.received) := by
  obtain ⟨-, writable, -⟩ := sound.checkWrite
  have reading := Reading.checkWrite e
  rw [PipeEnd.write] at written
  rcases checked : e.checkWrite with ⟨answer, e₁⟩
  rw [checked] at written writable reading
  cases answer with
  | false =>
    obtain rfl := Option.some.inj written
    exact ⟨reading.final, reading.patient⟩
  | true =>
    obtain ⟨same, -, active, -⟩ := writable rfl
    obtain rfl : e₁ = e := same
    have state : e₁.pipe.state = .active := active
    simp only [Bool.not_true, Bool.false_eq_true, if_false, PipeEnd.withOutpipe,
      Option.ite_none_right_eq_some] at written
    obtain ⟨ch, connected, result⟩ := Option.bind_eq_some_iff.mp written.2
    obtain rfl := Option.some.inj result
    have data := sound.outbound.data
    rw [Sound.out_eq connected] at data
    -- Whether the message is counted changes nothing that termination looks at.
    generalize after : (if m.counts = true then
      { e₁.pipe with msgsWritten := e₁.pipe.msgsWritten + 1 } else e₁.pipe) = p
    have phase : p.phase = e₁.pipe.phase := by
      subst after
      split <;> rfl
    have delay : p.delay = e₁.pipe.delay := by
      subst after
      split <;> rfl
    refine ⟨fun final => ?_, fun patient => ?_⟩
    · have unasked : e₁.pipe.phase.sentTerm = false := by
        simp [Phase.sentTerm, Pipe.phase, state]
      rw [Final, phase, unasked]
      refine ⟨fun _ => ?_, by simp⟩
      have before := final.1 unasked
      dsimp only
      split
      · exact before
      · rw [List.mem_append, List.mem_append, List.mem_singleton]
        rintro (old | part | rfl)
        · exact before old
        · exact data.not_delimiter part
        · cases other
    · exact ⟨delay ▸ patient.delay, phase ▸ patient.unasked, by rw [phase]; exact patient.ended⟩

theorem writeDelimiter_ends (sound : Sound others e) (outPipe : e.pipe.outPipe = true)
    (written : e.writeDelimiter = some e') :
    e'.pipe = e.pipe ∧ e'.accepted = e.accepted ++ [.delimiter] := by
  obtain ⟨e₁, rolled, -, -, same, -, queue⟩ := sound.rollback
  obtain ⟨ch, connected, empty⟩ := queue outPipe
  have accepted := (Reading.rollback rolled).accepted
  rw [PipeEnd.writeDelimiter, if_neg (by simp [outPipe]), rolled, Option.bind_some,
    PipeEnd.withOutpipe, if_pos (by rw [same]; exact outPipe), connected] at written
  obtain ⟨pipe, reading⟩ := Reading.flush written
  refine ⟨pipe.trans same, ?_⟩
  rw [reading.accepted]
  simp [empty, accepted]

/-- The delimiter is written once, where the other pipe does not terminate. -/
theorem terminate_final {delay : Bool} (sound : Sound others e) (running : e.pipe.gone = false)
    (alone : others.peer.phase.sentTerm = false) (terminated : e.terminate delay = some e')
    (final : Final e.pipe.phase e.accepted) : Final e'.pipe.phase e'.accepted := by
  have term := sound.outbound.term
  rw [PipeEnd.terminate, PipeEnd.terminateState] at terminated
  dsimp only at terminated
  cases here : e.pipe.state with
  | termReqSent1 | termReqSent2 | termAckSent =>
    rw [here] at terminated
    obtain rfl := Option.some.inj terminated
    simpa [Final, Phase.sentTerm, Pipe.phase, here] using final
  | delimiterReceived => exact absurd (term.seen here) (by simp [alone])
  | waitingForDelimiter =>
    exact absurd (term.gotTerm (by rw [Pipe.phase, here]; rfl)) (by simp [alone])
  | active =>
    rw [here] at terminated
    have outPipe : e.pipe.outPipe = true :=
      congrArg Phase.outPipe (sound.phase_eq running here)
    have asking := ((sound.set_delay delay).request running here (.inl rfl)).stop (by simp)
    obtain ⟨pipe, accepted⟩ := writeDelimiter_ends asking outPipe terminated
    have before : .delimiter ∉ e.accepted :=
      final.1 (by simp [Phase.sentTerm, Pipe.phase, here])
    rw [pipe, accepted]
    exact ⟨by simp [Phase.sentTerm, Pipe.phase], fun _ => ⟨e.accepted, rfl, before⟩⟩

theorem call_ends (sound : Sound others e) (running : e.pipe.gone = false) (call : PipeCall α)
    (called : e.call call = some e') :
    (others.peer.phase.sentTerm = false → Final e.pipe.phase e.accepted →
        Final e'.pipe.phase e'.accepted) ∧
      ((∀ delay, call ≠ .terminate delay) → call ≠ .setNodelay → Patient e.pipe e.received →
        Patient e'.pipe e'.received) := by
  have reading (reading : Reading e e') :
      (others.peer.phase.sentTerm = false → Final e.pipe.phase e.accepted →
          Final e'.pipe.phase e'.accepted) ∧
        ((∀ delay, call ≠ .terminate delay) → call ≠ .setNodelay → Patient e.pipe e.received →
          Patient e'.pipe e'.received) :=
    ⟨fun _ => reading.final, fun _ _ => reading.patient⟩
  cases call with
  | write m =>
    rw [PipeEnd.call] at called
    split at called
    · obtain rfl := Option.some.inj called
      exact ⟨fun _ final => final, fun _ _ patient => patient⟩
    · next other =>
      obtain ⟨final, patient⟩ := write_ends sound (by simpa using other) called
      exact ⟨fun _ => final, fun _ _ => patient⟩
  | flush => exact reading (Reading.flush called).2
  | rollback => exact reading (Reading.rollback called)
  | read =>
    obtain ⟨r, read, rfl⟩ := Option.map_eq_some_iff.mp called
    exact reading (Reading.read read)
  | checkWrite =>
    obtain rfl := Option.some.inj called
    exact reading (Reading.checkWrite e)
  | checkRead =>
    obtain ⟨r, checked, rfl⟩ := Option.map_eq_some_iff.mp called
    exact reading (Reading.checkRead checked)
  | terminate delay =>
    exact ⟨fun alone => terminate_final sound running alone called,
      fun other => absurd rfl (other delay)⟩
  | setNodelay =>
    obtain rfl := Option.some.inj called
    exact ⟨fun _ final => final, fun _ other => absurd rfl other⟩

theorem process_ends {c : PipeCommand} {toMe : List PipeCommand} (sound : Sound others e)
    (mail : others.toMe = c :: toMe) (processed : e.process c = some e') :
    (others.peer.phase.sentTerm = false → Final e.pipe.phase e.accepted →
        Final e'.pipe.phase e'.accepted) ∧
      (Patient e.pipe e.received → Patient e'.pipe e'.received) := by
  have term := sound.outbound.term
  rw [mail] at term
  cases c with
  | activateRead =>
    obtain rfl := Option.some.inj processed
    exact ⟨fun _ => Reading.processActivateRead.final, Reading.processActivateRead.patient⟩
  | activateWrite n =>
    obtain rfl := Option.some.inj processed
    exact ⟨fun _ => (Reading.processActivateWrite n).final,
      (Reading.processActivateWrite n).patient⟩
  | pipeTerm =>
    refine ⟨fun alone => absurd term.pop_request.1 (by simp [alone]), fun patient => ?_⟩
    rw [PipeEnd.process, PipeEnd.processPipeTerm] at processed
    have ended := patient.ended
    have unasked := patient.unasked
    cases here : e.pipe.state with
    | waitingForDelimiter | termAckSent | termReqSent2 => simp [here] at processed
    | termReqSent1 => simp [Phase.sentTerm, Pipe.phase, here] at unasked
    | active =>
      simp only [here, patient.delay, if_true] at processed
      obtain rfl := Option.some.inj processed
      exact ⟨rfl, by simp [Phase.sentTerm, Pipe.phase], by simp [Phase.reads, Pipe.phase]⟩
    | delimiterReceived =>
      simp only [here] at processed
      obtain rfl := Option.some.inj processed
      exact ⟨patient.delay, by simp [Phase.sentTerm, Pipe.phase, PipeEnd.acknowledge],
        fun _ => ended (by simp [Phase.reads, Pipe.phase, here])⟩
  | pipeTermAck =>
    rw [PipeEnd.process, PipeEnd.processPipeTermAck] at processed
    cases here : e.pipe.state with
    | active | delimiterReceived | waitingForDelimiter => simp [here] at processed
    | termReqSent1 | termAckSent | termReqSent2 =>
      simp only [here] at processed
      obtain rfl := Option.some.inj processed
      refine ⟨fun _ final => ?_, fun patient => ⟨patient.delay, ?_, ?_⟩⟩
      · simpa [Final, Phase.sentTerm, Pipe.phase, here, PipeEnd.acknowledge, PipeEnd.send]
          using final
      · rw [← patient.unasked]
        simp [Phase.sentTerm, Pipe.phase, here, PipeEnd.acknowledge]
      · simpa [Phase.reads, Pipe.phase, here, PipeEnd.acknowledge, PipeEnd.send] using patient.ended

end Ends

/-- The pipe `b` leaves the end to the other one. -/
structure Lingering (hwms : Bool → Nat) (b : Bool) (s : PipePair α) : Prop where
  sane : s.Sane hwms
  patient : Patient (s.pipes b) (s.received b)
  final : Final (s.pipes !b).phase (s.accepted !b)

theorem lingering_put {hwms : Bool → Nat} {s t : PipePair α} {b c : Bool}
    {mail : List PipeCommand} {e : PipeEnd α} (lingering : Lingering hwms b s)
    (put : s.put c mail e = some t) (sane : t.Sane hwms)
    (patient : c = b → Patient (s.pipes b) (s.received b) → Patient e.pipe e.received)
    (final : c = !b → Final (s.pipes !b).phase (s.accepted !b) →
      Final e.pipe.phase e.accepted) : Lingering hwms b t := by
  rw [PipePair.put, Option.ite_none_left_eq_some] at put
  obtain ⟨-, result⟩ := put
  obtain rfl := Option.some.inj result
  have other : (!b) ≠ b := by simp
  by_cases same : c = b
  · subst same
    refine ⟨sane, ?_, ?_⟩
    · simpa only [Function.update_self] using patient rfl lingering.patient
    · simpa only [Function.update_of_ne other] using lingering.final
  · obtain rfl : c = !b := by cases b <;> cases c <;> simp_all
    refine ⟨sane, ?_, ?_⟩
    · simpa only [Function.update_of_ne other.symm] using lingering.patient
    · simpa only [Function.update_self] using final rfl lingering.final

theorem step_lingering {hwms : Bool → Nat} {s : PipePair α} {b : Bool}
    (lingering : Lingering hwms b s) (event : Bool × PipeAct α)
    (waits : ∀ delay, event ≠ (b, .call (.terminate delay)))
    (delays : event ≠ (b, .call .setNodelay)) :
    ∃ t, s.step event = some t ∧ Lingering hwms b t := by
  obtain ⟨t, stepped, sane⟩ := PipePair.step_sane lingering.sane event
  refine ⟨t, stepped, ?_⟩
  obtain ⟨c, act⟩ := event
  obtain ⟨sound, -⟩ := lingering.sane.sound c
  have alone : c = !b → (s.pipes b).phase.sentTerm = false := fun _ => lingering.patient.unasked
  rw [PipePair.step, PipePair.act.eq_def] at stepped
  cases act with
  | command =>
    dsimp only at stepped
    split at stepped
    · obtain rfl := Option.some.inj stepped
      exact lingering
    · next command toMe mail =>
      rw [Option.ite_none_left_eq_some] at stepped
      obtain ⟨e, processed, put⟩ := Option.bind_eq_some_iff.mp stepped.2
      obtain ⟨final, patient⟩ := process_ends sound mail processed
      refine lingering_put lingering put sane ?_ ?_
      · rintro rfl
        exact patient
      · rintro rfl
        exact final (by simpa [PipePair.others] using lingering.patient.unasked)
  | call call =>
    dsimp only at stepped
    split at stepped
    · obtain rfl := Option.some.inj stepped
      exact lingering
    · next running =>
      obtain ⟨e, called, put⟩ := Option.bind_eq_some_iff.mp stepped
      obtain ⟨final, patient⟩ := call_ends sound (Bool.eq_false_iff.mpr running) call called
      refine lingering_put lingering put sane ?_ ?_
      · rintro rfl
        refine patient (fun delay same => waits delay ?_) fun same => delays ?_
        all_goals rw [same]
      · rintro rfl
        exact final (by simpa [PipePair.others] using lingering.patient.unasked)

/-- A pipe whose owner neither terminates it nor stops it from waiting for the delimiter, has read
everything that was written before the other end terminated, when it reads no more. The calls are
those of `PipeCall`: a `hiccup` would drop what was flushed. -/
theorem pipes_linger (hwms : Bool → Nat) (events : List (Bool × PipeAct α)) (b : Bool)
    (waits : ∀ delay, (b, .call (.terminate delay)) ∉ events)
    (delays : (b, .call .setNodelay) ∉ events) :
    ∃ s, Transition.run PipePair.step (PipePair.initial hwms) events = some s ∧
      ((s.pipes b).phase.reads = false → s.received b = s.accepted !b) := by
  have initial : Lingering hwms b (PipePair.initial hwms : PipePair α) :=
    ⟨PipePair.initial_sane hwms, ⟨rfl, rfl, by simp [PipePair.initial, Pipe.initial, Phase.reads,
      Pipe.phase]⟩, by simp [Final, PipePair.initial, Pipe.initial, Phase.sentTerm, Pipe.phase]⟩
  obtain ⟨s, ran, lingering⟩ := Transition.run_total PipePair.step
    (fun _ s => Lingering hwms b s)
    (fun event => (∀ delay, event ≠ (b, .call (.terminate delay))) ∧
      event ≠ (b, .call .setNodelay))
    (fun _ _ event guard lingering => step_lingering lingering event guard.1 guard.2) 0 _ events
    (fun event member => ⟨fun delay same => waits delay (same ▸ member),
      fun same => delays (same ▸ member)⟩) initial
  refine ⟨s, ran, fun stopped => ?_⟩
  have data := (lingering.sane !b).1.data
  rw [Bool.not_not] at data
  have last := lingering.patient.ended stopped
  have asked : (s.pipes !b).phase.sentTerm = true := by
    by_contra unasked
    refine lingering.final.1 (by simpa using unasked) ?_
    rw [data.log]
    exact List.mem_append_left _ last
  obtain ⟨before, split, first⟩ := lingering.final.2 asked
  have log := data.log
  rcases List.eq_nil_or_concat ((s.queues !b).sent ++ (s.queues !b).ready) with all | ⟨left, m, all⟩
  · rw [all, List.append_nil] at log
    exact log.symm
  · rw [all, split, List.concat_eq_append, ← List.append_assoc] at log
    have same := List.append_inj_left' log rfl
    exact absurd (same ▸ List.mem_append_left left last) first

/-- One message is written before the pipe terminates; the other one reads it, and the delimiter. -/
theorem pipes_linger_once :
    ∃ s, Transition.run PipePair.step (PipePair.initial fun _ => 1)
        [(false, .call (.write (.msg 5 false false false))), (false, .call (.terminate true)),
          (true, .command), (true, .command), (true, .call .read), (true, .call .read),
          (false, .command), (false, .command), (true, .command)] = some s ∧
      ((s.pipes true).phase.reads = false → s.received true = s.accepted !true) :=
  pipes_linger (fun _ => 1) _ true (by simp) (by simp)

end Queues

end OfxZeroMQ
