import OfxZeroMQ.Properties.PipeCalls

/-!
# Messages of many pipes are not mixed up

A socket takes whole messages of one pipe after the other, and gives whole messages to one of its
pipes each.
-/
namespace OfxZeroMQ

open Foundation

variable {π α β : Type}

theorem rel_left {r : α → β → Prop} {x : α} {b : Option β} (rel : Option.Rel r (some x) b) :
    ∃ y, b = some y ∧ r x y := by
  cases rel with
  | some here => exact ⟨_, rfl, here⟩

theorem rel_right {r : α → β → Prop} {a : Option α} {y : β} (rel : Option.Rel r a (some y)) :
    ∃ x, a = some x ∧ r x y := by
  cases rel with
  | some here => exact ⟨_, rfl, here⟩

/-! ### One pair of pipes among others -/

namespace PipePair

/-- What `put` makes of a pair. -/
structure Put (s : PipePair α) (b : Bool) (mail : List PipeCommand) (e : PipeEnd α)
    (t : PipePair α) : Prop where
  pipe : t.pipes b = e.pipe
  queue : t.queues b = e.outpipe.getD (s.queues b)
  inqueue : t.queues (!b) = e.inpipe
  accepted : t.accepted b = e.accepted
  received : t.received b = e.received
  peer : t.pipes (!b) = s.pipes (!b)
  others : t.accepted (!b) = s.accepted (!b)
  unread : t.received (!b) = s.received (!b)
  mail : t.mail b = mail

theorem put_spec {s t : PipePair α} {b : Bool} {mail : List PipeCommand} {e : PipeEnd α}
    (put : s.put b mail e = some t) : Put s b mail e t := by
  rw [PipePair.put, Option.ite_none_left_eq_some] at put
  obtain rfl := Option.some.inj put.2
  have other : (!b) ≠ b := by simp
  constructor <;> simp [other]

/-- A call that changes nothing of a pipe changes nothing of the pair. -/
theorem put_same (s : PipePair α) (b : Bool) :
    s.put b (s.mail b) (s.pipeEnd b) = some s := by
  have queue : (s.pipeEnd b).outpipe.getD (s.queues b) = s.queues b := by
    rw [pipeEnd]
    split <;> rfl
  rw [PipePair.put, if_neg (by simp [pipeEnd]), queue]
  cases s
  simp only [pipeEnd, Option.some.injEq, PipePair.mk.injEq, Function.update_eq_self,
    List.append_nil, true_and, and_true]
  constructor <;> funext c <;> cases b <;> cases c <;> rfl

/-- Everything that the other end has written and not taken back. -/
def incoming (s : PipePair α) : List (PipeMsg α) :=
  s.accepted false ++ (s.queues false).unfinished

/-- The socket has read `ms`. -/
structure Reads (s t : PipePair α) (ms : List (PipeMsg α)) : Prop where
  accepted : t.accepted true = s.accepted true
  queue : t.queues true = s.queues true
  incoming : t.incoming = s.incoming
  outActive : (t.pipes true).outActive = (s.pipes true).outActive
  room : (t.pipes true).checkHwm = (s.pipes true).checkHwm
  delay : (t.pipes true).delay = (s.pipes true).delay
  gone : (t.pipes true).gone = (s.pipes true).gone
  state : (t.pipes true).state = .active → (s.pipes true).state = .active
  received : (t.received true).filter PipeMsg.forUser =
    (s.received true).filter PipeMsg.forUser ++ ms

theorem Reads.refl (s : PipePair α) : s.Reads s [] :=
  ⟨rfl, rfl, rfl, rfl, rfl, rfl, rfl, id, by simp⟩

theorem Reads.trans {s t u : PipePair α} {ms ns : List (PipeMsg α)} (first : s.Reads t ms)
    (second : t.Reads u ns) : s.Reads u (ms ++ ns) := by
  refine ⟨second.accepted.trans first.accepted, second.queue.trans first.queue,
    second.incoming.trans first.incoming, second.outActive.trans first.outActive,
    second.room.trans first.room, second.delay.trans first.delay, second.gone.trans first.gone,
    fun active => first.state (second.state active), ?_⟩
  rw [second.received, first.received, List.append_assoc]

/-- The socket has written to the pipe, or tried to. -/
structure Writes (s t : PipePair α) : Prop where
  received : t.received true = s.received true
  inqueue : t.queues false = s.queues false
  others : t.accepted false = s.accepted false
  inActive : (t.pipes true).inActive = (s.pipes true).inActive
  state : (t.pipes true).state = (s.pipes true).state
  delay : (t.pipes true).delay = (s.pipes true).delay
  gone : (t.pipes true).gone = (s.pipes true).gone

theorem Writes.refl (s : PipePair α) : s.Writes s := ⟨rfl, rfl, rfl, rfl, rfl, rfl, rfl⟩

theorem Writes.trans {s t u : PipePair α} (first : s.Writes t) (second : t.Writes u) :
    s.Writes u :=
  ⟨second.received.trans first.received, second.inqueue.trans first.inqueue,
    second.others.trans first.others, second.inActive.trans first.inActive,
    second.state.trans first.state, second.delay.trans first.delay, second.gone.trans first.gone⟩

theorem Writes.incoming {s t : PipePair α} (writes : s.Writes t) : t.incoming = s.incoming := by
  rw [PipePair.incoming, PipePair.incoming, writes.inqueue, writes.others]

theorem Put.incoming {s t : PipePair α} {mail : List PipeCommand} {e : PipeEnd α}
    (put : Put s true mail e t) (unfinished : e.inpipe.unfinished = (s.queues false).unfinished) :
    t.incoming = s.incoming := by
  have others : t.accepted false = s.accepted false := put.others
  have inqueue : t.queues false = e.inpipe := put.inqueue
  rw [PipePair.incoming, PipePair.incoming, others, inqueue, unfinished]

theorem Put.writes {s t : PipePair α} {mail : List PipeCommand} {e : PipeEnd α}
    (put : Put s true mail e t) (writes : (s.pipeEnd true).Writes e) : s.Writes t := by
  refine ⟨put.received.trans writes.received, put.inqueue.trans writes.inpipe, put.others, ?_, ?_,
    ?_, ?_⟩
  · rw [put.pipe, writes.inActive]
    rfl
  · rw [put.pipe, writes.state]
    rfl
  · rw [put.pipe, writes.delay]
    rfl
  · rw [put.pipe, writes.gone]
    rfl

theorem Put.reads {s t : PipePair α} {mail : List PipeCommand} {e : PipeEnd α}
    {ms : List (PipeMsg α)} (put : Put s true mail e t) (reads : (s.pipeEnd true).Reads e ms) :
    s.Reads t ms := by
  have queue : t.queues true = s.queues true := by
    rw [put.queue, reads.outpipe, pipeEnd]
    split <;> rfl
  refine ⟨put.accepted.trans reads.accepted, queue, put.incoming reads.unfinished, ?_, ?_, ?_, ?_,
    ?_, ?_⟩
  · rw [put.pipe, reads.outActive]
    rfl
  · rw [put.pipe, reads.room]
    rfl
  · rw [put.pipe, reads.delay]
    rfl
  · rw [put.pipe, reads.gone]
    rfl
  · rw [put.pipe]
    exact reads.state
  · rw [put.received, reads.received]
    rfl

end PipePair

namespace Pipes

variable {hwms : π → Bool → Nat} {pipes : Pipes π α}

/-- Every pair of pipes is in a state that it can come to. -/
def Sane (hwms : π → Bool → Nat) (pipes : Pipes π α) : Prop :=
  ∀ p s, pipes p = some s → s.Sane (hwms p)

def Attached (pipes : Pipes π α) (p : π) : Prop :=
  ∃ s, pipes p = some s ∧ (s.pipes true).gone = false

/-- The messages of an application that were written to a pipe as a whole. -/
def accepted (pipes : Pipes π α) (p : π) : List (PipeMsg α) :=
  ((pipes p).map fun s => (s.accepted true).filter PipeMsg.content).getD []

/-- The messages for an application that were read of a pipe. -/
def received (pipes : Pipes π α) (p : π) : List (PipeMsg α) :=
  ((pipes p).map fun s => (s.received true).filter PipeMsg.forUser).getD []

/-- The socket has written to its pipes, or tried to. -/
def Writes (before after : Pipes π α) : Prop :=
  ∀ q, Option.Rel PipePair.Writes (before q) (after q)

theorem Writes.refl (pipes : Pipes π α) : pipes.Writes pipes := by
  intro q
  cases pipes q with
  | none => exact .none
  | some s => exact .some (PipePair.Writes.refl s)

theorem Writes.trans {first second third : Pipes π α} (before : first.Writes second)
    (after : second.Writes third) : first.Writes third := by
  intro q
  have early := before q
  have late := after q
  revert early late
  cases first q <;> cases second q <;> cases third q <;> simp only [Option.rel_some_some,
    Option.not_rel_some_none, Option.not_rel_none_some, Option.rel_none_none, false_implies,
    implies_true]
  exact fun early late => early.trans late

theorem Writes.before {after : Pipes π α} (writes : pipes.Writes after) {p : π}
    {t : PipePair α} (found : after p = some t) : ∃ s, pipes p = some s ∧ s.Writes t :=
  rel_right (found ▸ writes p)

theorem Writes.after {after : Pipes π α} (writes : pipes.Writes after) {p : π}
    {s : PipePair α} (found : pipes p = some s) : ∃ t, after p = some t ∧ s.Writes t :=
  rel_left (found ▸ writes p)

theorem Writes.attached {after : Pipes π α} (writes : pipes.Writes after) (p : π) :
    after.Attached p ↔ pipes.Attached p := by
  constructor
  · rintro ⟨t, found, running⟩
    obtain ⟨s, first, same⟩ := writes.before found
    exact ⟨s, first, same.gone ▸ running⟩
  · rintro ⟨s, found, running⟩
    obtain ⟨t, second, same⟩ := writes.after found
    exact ⟨t, second, same.gone.trans running⟩

theorem Writes.received_eq {after : Pipes π α} (writes : pipes.Writes after) (p : π) :
    after.received p = pipes.received p := by
  have pair := writes p
  rw [received, received]
  revert pair
  cases pipes p <;> cases after p <;> simp
  exact fun pair => by rw [pair.received]

variable [DecidableEq π]

theorem Sane.update (sane : pipes.Sane hwms) {p : π} {t : PipePair α}
    (kept : t.Sane (hwms p)) : Sane hwms (Function.update pipes p (some t)) := by
  intro q s found
  by_cases same : q = p
  · subst same
    obtain rfl : t = s := by simpa using found
    exact kept
  · rw [Function.update_of_ne same] at found
    exact sane q s found

theorem attached_update {p : π} {s t : PipePair α} (found : pipes p = some s)
    (gone : (t.pipes true).gone = (s.pipes true).gone) (q : π) :
    Attached (Function.update pipes p (some t)) q ↔ pipes.Attached q := by
  by_cases same : q = p
  · subst same
    simp [Attached, found, gone]
  · simp [Attached, Function.update_of_ne same]

theorem use_spec {p : π} {s : PipePair α} (sane : pipes.Sane hwms) (found : pipes p = some s)
    (running : (s.pipes true).gone = false) {f : PipeEnd α → Option (β × PipeEnd α)}
    {answer : β} {e : PipeEnd α} (called : f (s.pipeEnd true) = some (answer, e))
    (sound : Sound (s.others (hwms p) true (s.mail true)) e)
    (paid : Paid (s.others (hwms p) true (s.mail true)) e) :
    ∃ t, pipes.use p f = some (answer, Function.update pipes p (some t)) ∧
      Sane hwms (Function.update pipes p (some t)) ∧
      PipePair.Put s true (s.mail true) e t := by
  obtain ⟨t, put, kept⟩ := PipePair.put_sane sound paid
  refine ⟨t, ?_, sane.update kept, PipePair.put_spec put⟩
  simp [use, found, running, called, put]

theorem use_same {p : π} {s : PipePair α} (found : pipes p = some s)
    (running : (s.pipes true).gone = false) {f : PipeEnd α → Option (β × PipeEnd α)}
    {answer : β} (called : f (s.pipeEnd true) = some (answer, s.pipeEnd true)) :
    pipes.use p f = some (answer, pipes) := by
  have same : Function.update pipes p (some s) = pipes := by rw [← found, Function.update_eq_self]
  simp [use, found, running, called, PipePair.put_same, same]

theorem run_spec {p : π} {s : PipePair α} (sane : pipes.Sane hwms) (found : pipes p = some s)
    (running : (s.pipes true).gone = false) {f : PipeEnd α → Option (PipeEnd α)}
    {e : PipeEnd α} (called : f (s.pipeEnd true) = some e)
    (sound : Sound (s.others (hwms p) true (s.mail true)) e)
    (paid : Paid (s.others (hwms p) true (s.mail true)) e) :
    ∃ t, pipes.run p f = some (Function.update pipes p (some t)) ∧
      Sane hwms (Function.update pipes p (some t)) ∧
      PipePair.Put s true (s.mail true) e t := by
  have answered : (f (s.pipeEnd true)).map ((), ·) = some ((), e) := by
    rw [called]
    rfl
  obtain ⟨t, used, sane', put⟩ := use_spec (f := fun e => (f e).map ((), ·)) sane found running
    answered sound paid
  exact ⟨t, by rw [run, used]; rfl, sane', put⟩

/-- The socket has read `got` of its pipes. -/
def Reads (before after : Pipes π α) (got : List (π × PipeMsg α)) : Prop :=
  ∀ q, Option.Rel (PipePair.Reads · · ((got.filter fun m => m.1 = q).map Prod.snd))
    (before q) (after q)

theorem Reads.refl (pipes : Pipes π α) : pipes.Reads pipes [] := by
  intro q
  cases pipes q with
  | none => exact .none
  | some s => exact .some (PipePair.Reads.refl s)

theorem Reads.trans {first second third : Pipes π α} {got more : List (π × PipeMsg α)}
    (before : first.Reads second got) (after : second.Reads third more) :
    first.Reads third (got ++ more) := by
  intro q
  have early := before q
  have late := after q
  rw [List.filter_append, List.map_append]
  revert early late
  cases first q <;> cases second q <;> cases third q <;> simp only [Option.rel_some_some,
    Option.not_rel_some_none, Option.not_rel_none_some, Option.rel_none_none, false_implies,
    implies_true]
  exact fun early late => early.trans late

theorem Reads.update {p : π} {s t : PipePair α} {ms : List (PipeMsg α)}
    (found : pipes p = some s) (reads : s.Reads t ms) :
    pipes.Reads (Function.update pipes p (some t)) (ms.map (p, ·)) := by
  intro q
  by_cases same : q = p
  · subst same
    rw [found, Function.update_self]
    refine .some ?_
    simpa [List.filter_map, Function.comp_def] using reads
  · rw [Function.update_of_ne same]
    have other : p ≠ q := Ne.symm same
    have unread := Reads.refl pipes q
    simpa [List.filter_map, Function.comp_def, other] using unread

theorem Reads.before {after : Pipes π α} {got : List (π × PipeMsg α)}
    (reads : pipes.Reads after got) {p : π} {t : PipePair α} (found : after p = some t) :
    ∃ s, pipes p = some s ∧ s.Reads t ((got.filter fun m => m.1 = p).map Prod.snd) := by
  have pair := reads p
  rw [found] at pair
  obtain ⟨s, first, same⟩ := rel_right pair
  exact ⟨s, first, same⟩

theorem Reads.after {after : Pipes π α} {got : List (π × PipeMsg α)}
    (reads : pipes.Reads after got) {p : π} {s : PipePair α} (found : pipes p = some s) :
    ∃ t, after p = some t ∧ s.Reads t ((got.filter fun m => m.1 = p).map Prod.snd) := by
  have pair := reads p
  rw [found] at pair
  obtain ⟨t, second, same⟩ := rel_left pair
  exact ⟨t, second, same⟩

theorem Reads.attached {after : Pipes π α} {got : List (π × PipeMsg α)}
    (reads : pipes.Reads after got) (p : π) : after.Attached p ↔ pipes.Attached p := by
  constructor
  · rintro ⟨t, found, running⟩
    obtain ⟨s, first, same⟩ := reads.before found
    exact ⟨s, first, same.gone ▸ running⟩
  · rintro ⟨s, found, running⟩
    obtain ⟨t, second, same⟩ := reads.after found
    exact ⟨t, second, same.gone.trans running⟩

theorem Writes.update {p : π} {s t : PipePair α} (found : pipes p = some s)
    (writes : s.Writes t) : pipes.Writes (Function.update pipes p (some t)) := by
  intro q
  by_cases same : q = p
  · subst same
    rw [found, Function.update_self]
    exact .some writes
  · rw [Function.update_of_ne same]
    exact Writes.refl pipes q

end Pipes

/-! ### Fair queueing -/

/-- A pipe that goes on with a message has the next part of it. -/
theorem PipePair.read_more {hwms : Bool → Nat} {s : PipePair α} {m : PipeMsg α}
    (sane : s.Sane hwms) (linked : Linked s.incoming)
    (readable : PipeEnd.canRead (s.pipes true) = true)
    (last : (s.received true).getLast? = some m) (more : m.more = true)
    {found : Option (PipeMsg α)} {e : PipeEnd α}
    (read : (s.pipeEnd true).read = some (found, e)) : found ≠ none := by
  have data : Data (s.pipes true) (s.mail true) (s.queues false) (s.accepted false)
      (s.received true) := (sane false).1.data
  obtain ⟨-, n, head, single⟩ := data.continues last more
  obtain ⟨front, received⟩ := List.getLast?_eq_some_iff.mp last
  obtain ⟨rest, queue⟩ := List.head?_eq_some_iff.mp head
  have plain : n.isCredential = false := by
    have log : s.incoming = front ++ m :: n :: (rest ++ (s.queues false).ready ++
        (s.queues false).unfinished) := by
      rw [incoming, data.log, received, queue]
      simp
    exact List.isChain_iff_forall_rel_of_append_cons_cons.mp linked log more
  rintro rfl
  have taken : PipeEnd.take (s.queues false).sent = ([n], some n, rest) := by
    rw [queue, PipeEnd.take, plain]
    rfl
  have inpipe : (s.pipeEnd true).inpipe = s.queues false := rfl
  have pipe : (s.pipeEnd true).pipe = s.pipes true := rfl
  rw [PipeEnd.read, inpipe, pipe, readable, taken] at read
  simp only [Bool.not_true, Bool.false_eq_true, if_false, single] at read
  split at read <;> cases read

namespace Fq

variable {hwms : π → Bool → Nat} {f : Fq π} {pipes : Pipes π α}

/-- What fair queueing knows of a pipe. -/
structure Knows (f : Fq π) (p : π) (s : PipePair α) : Prop where
  /-- The active pipes are those that have not been found empty. -/
  active : (s.pipes true).gone = false → (s.pipes true).opened = true →
    (f.pipes.IsActive p ↔ (s.pipes true).inActive = true)
  delay : (s.pipes true).state = .active → (s.pipes true).delay = true
  linked : Linked s.incoming

/-- The pipe that goes on with a message. -/
structure Goes (f : Fq π) (pipes : Pipes π α) (p : π) (s : PipePair α) (m : PipeMsg α) :
    Prop where
  turn : f.pipes.next = some p
  active : f.pipes.IsActive p
  found : pipes p = some s
  running : (s.pipes true).gone = false
  opened : (s.pipes true).opened = true
  last : (s.received true).getLast? = some m
  more : m.more = true

structure Fits (f : Fq π) (pipes : Pipes π α) : Prop where
  members : ∀ p, p ∈ f.pipes.items ↔ pipes.Attached p
  knows : ∀ p s, pipes p = some s → f.Knows p s
  goes : f.more = true → ∃ p s m, f.Goes pipes p s m

theorem Fits.writes {after : Pipes π α} (fits : f.Fits pipes) (writes : pipes.Writes after) :
    f.Fits after := by
  have opened {s t : PipePair α} (writes : s.Writes t) :
      (t.pipes true).opened = (s.pipes true).opened := by
    rw [Pipe.opened, Pipe.opened, writes.state]
  refine ⟨fun p => (fits.members p).trans (writes.attached p).symm, fun p t found => ?_,
    fun more => ?_⟩
  · obtain ⟨s, before, same⟩ := writes.before found
    have knows := fits.knows p s before
    refine ⟨fun running open_end => ?_, fun state => ?_, ?_⟩
    · rw [same.inActive]
      exact knows.active (same.gone ▸ running) (opened same ▸ open_end)
    · rw [same.delay]
      exact knows.delay (same.state ▸ state)
    · rw [same.incoming]
      exact knows.linked
  · obtain ⟨p, s, m, goes⟩ := fits.goes more
    obtain ⟨t, found, same⟩ := writes.after goes.found
    exact ⟨p, t, m, goes.turn, goes.active, found, same.gone.trans goes.running,
      (opened same).trans goes.opened, by rw [same.received]; exact goes.last, goes.more⟩

variable [DecidableEq π]

/-- One pipe is asked whether it has something. -/
theorem Fits.ask {p : π} {s t : PipePair α} {ms : List (PipeMsg α)} (fits : f.Fits pipes)
    (found : pipes p = some s) (reads : s.Reads t ms) (q : π) :
    q ∈ f.pipes.items ↔ Pipes.Attached (Function.update pipes p (some t)) q :=
  (fits.members q).trans (Pipes.attached_update found reads.gone q).symm

/-- A pipe that was found empty is not active any more. -/
theorem Fits.empty {p : π} {s t : PipePair α} (fits : f.Fits pipes) (single : f.more = false)
    (found : pipes p = some s) (turn : f.pipes.next = some p) (active : f.pipes.IsActive p)
    (reads : s.Reads t []) (nothing : PipeEnd.canRead (t.pipes true) = false) :
    Fits { f with pipes := f.pipes.deactivate } (Function.update pipes p (some t)) := by
  have some_active := active.some_active
  refine ⟨fun q => ?_, fun q u found' => ?_, fun more => by simp [single] at more⟩
  · rw [← fits.ask found reads q]
    exact Rotation.mem_deactivate some_active q
  · by_cases same : q = p
    · subst same
      obtain rfl : t = u := by simpa using found'
      have knows := fits.knows q s found
      refine ⟨fun _ opened => ?_, fun state => ?_, ?_⟩
      · rw [canRead_eq, opened, Bool.and_true] at nothing
        simp [Rotation.active_deactivate some_active, turn, nothing]
      · rw [reads.delay]
        exact knows.delay (reads.state state)
      · rw [reads.incoming]
        exact knows.linked
    · rw [Function.update_of_ne same] at found'
      have knows := fits.knows q u found'
      refine ⟨fun running opened => ?_, knows.delay, knows.linked⟩
      have other : f.pipes.next ≠ some q := fun here =>
        same (Option.some.inj (here.symm.trans turn))
      simp [Rotation.active_deactivate some_active, other, knows.active running opened]

/-- A pipe that had something keeps its place. -/
theorem Fits.found {p : π} {s t : PipePair α} {m : PipeMsg α} (fits : f.Fits pipes)
    (found : pipes p = some s) (turn : f.pipes.next = some p) (active : f.pipes.IsActive p)
    (running : (s.pipes true).gone = false) (reads : s.Reads t [m])
    (readable : PipeEnd.canRead (t.pipes true) = true)
    (last : (t.received true).getLast? = some m) (g : Fq π) (more : g.more = m.more)
    (pipes_eq : g.pipes = if m.more then f.pipes else f.pipes.advance) :
    g.Fits (Function.update pipes p (some t)) := by
  rw [canRead_eq, Bool.and_eq_true] at readable
  have same_active (q : π) : g.pipes.IsActive q ↔ f.pipes.IsActive q := by
    rw [pipes_eq]
    split
    · rfl
    · exact f.pipes.active_advance q
  refine ⟨fun q => ?_, fun q u found' => ?_, fun goes => ?_⟩
  · rw [← fits.ask found reads q, pipes_eq]
    split
    · rfl
    · rw [Rotation.items_advance]
  · by_cases same : q = p
    · subst same
      obtain rfl : t = u := by simpa using found'
      have knows := fits.knows q s found
      refine ⟨fun _ _ => ?_, fun state => ?_, ?_⟩
      · simp [same_active, active, readable.1]
      · rw [reads.delay]
        exact knows.delay (reads.state state)
      · rw [reads.incoming]
        exact knows.linked
    · rw [Function.update_of_ne same] at found'
      have knows := fits.knows q u found'
      exact ⟨fun running opened => (same_active q).trans (knows.active running opened),
        knows.delay, knows.linked⟩
  · rw [more] at goes
    refine ⟨p, t, m, ?_, (same_active p).mpr active, Function.update_self .., ?_, readable.2, last,
      goes⟩
    · rw [pipes_eq, if_pos goes]
      exact turn
    · rw [reads.gone]
      exact running

/-- What `recvpipe` does. -/
structure Received (f : Fq π) (pipes : Pipes π α) (found : Option (π × PipeMsg α)) (g : Fq π)
    (after : Pipes π α) : Prop where
  fits : g.Fits after
  reads : pipes.Reads after found.toList
  /-- Nothing is found only where no pipe is active any more. -/
  nothing : found = none → g.pipes.active = 0 ∧ f.more = false
  more : ∀ p m, found = some (p, m) → g.more = m.more ∧ (m.more = true → g.pipes.next = some p)
  goes_on : ∀ p m, found = some (p, m) → f.more = true → f.pipes.next = some p
  attached : ∀ p m, found = some (p, m) → pipes.Attached p

theorem recvLoop_spec (active : Nat) (count : f.pipes.active = active) (sane : pipes.Sane hwms)
    (fits : f.Fits pipes) :
    ∃ found g after, f.recvLoop active pipes = some (found, g, after) ∧ after.Sane hwms ∧
      f.Received pipes found g after := by
  induction active generalizing f pipes with
  | zero =>
    refine ⟨none, f, pipes, rfl, sane, fits, Pipes.Reads.refl pipes, fun _ => ⟨count, ?_⟩,
      by simp, by simp, by simp⟩
    by_contra more
    obtain ⟨p, s, m, goes⟩ := fits.goes (by simpa using more)
    exact absurd goes.active.some_active (by omega)
  | succ active ih =>
    have some_active : 0 < f.pipes.active := by omega
    obtain ⟨p, turn, is_active, -⟩ := Rotation.next_active some_active
    obtain ⟨s, found, running⟩ := (fits.members p).mp is_active.1
    obtain ⟨sound, paid⟩ := (sane p s found).sound true
    obtain ⟨⟨got, e⟩, read, kept, paid'⟩ := sound.read paid running
    obtain ⟨t, used, sane', put⟩ := Pipes.use_spec sane found running read kept paid'
    obtain ⟨effect, answer⟩ := PipeEnd.read_effect read
    have reads := put.reads effect
    rw [recvLoop, turn, Option.bind_some, used, Option.bind_some]
    cases got with
    | some m =>
      obtain ⟨-, readable, -, last⟩ := answer
      rw [← put.pipe] at readable
      rw [← put.received] at last
      have read_one := Pipes.Reads.update found reads
      cases more : m.more with
      | true =>
        refine ⟨some (p, m), { f with more := m.more }, _, by simp [more], sane', ?_, read_one,
          by simp, ?_, ?_, ?_⟩
        · exact fits.found found turn is_active running reads readable last _ rfl
            (by simp [more])
        · rintro q n ⟨⟩
          exact ⟨rfl, fun _ => turn⟩
        · rintro q n ⟨⟩ -
          exact turn
        · rintro q n ⟨⟩
          exact ⟨s, found, running⟩
      | false =>
        refine ⟨some (p, m), { f with more := m.more, lastIn := some p, pipes := f.pipes.advance },
          _, by simp [more], sane', ?_, read_one, by simp, ?_, ?_, ?_⟩
        · exact fits.found found turn is_active running reads readable last _ rfl
            (by simp [more])
        · rintro q n ⟨⟩
          exact ⟨rfl, by simp [more]⟩
        · rintro q n ⟨⟩ -
          exact turn
        · rintro q n ⟨⟩
          exact ⟨s, found, running⟩
    | none =>
      -- The next part of a message is there, so that `_more` is false where nothing was fetched.
      have single : f.more = false := by
        by_contra going
        obtain ⟨q, u, m, goes⟩ := fits.goes (by simpa using going)
        obtain rfl : p = q := Option.some.inj (turn.symm.trans goes.turn)
        obtain rfl : s = u := Option.some.inj (found.symm.trans goes.found)
        have knows := fits.knows p s found
        have readable : PipeEnd.canRead (s.pipes true) = true := by
          rw [canRead_eq, goes.opened, (knows.active running goes.opened).mp is_active]
          rfl
        exact PipePair.read_more (sane p s found) knows.linked readable goes.last goes.more read
          rfl
      rw [← put.pipe] at answer
      have later := fits.empty single found turn is_active reads answer
      have fewer := Rotation.count_deactivate count
      obtain ⟨got, g, after, looped, sane'', received⟩ := ih fewer sane' later
      refine ⟨got, g, after, by simpa [single] using looped, sane'', received.fits, ?_,
        received.nothing, received.more, ?_, fun q m here => ?_⟩
      · exact (Pipes.Reads.update found reads).trans received.reads
      · intro q m here going
        simp [single] at going
      · exact (Pipes.attached_update found reads.gone q).mp (received.attached q m here)

theorem hasInLoop_spec (active : Nat) (count : f.pipes.active = active)
    (single : f.more = false) (sane : pipes.Sane hwms) (fits : f.Fits pipes) :
    ∃ found g after, f.hasInLoop active pipes = some (found, g, after) ∧ after.Sane hwms ∧
      g.Fits after ∧ pipes.Reads after [] ∧ (found = false → g.pipes.active = 0) := by
  induction active generalizing f pipes with
  | zero => exact ⟨false, f, pipes, rfl, sane, fits, Pipes.Reads.refl pipes, fun _ => count⟩
  | succ active ih =>
    have some_active : 0 < f.pipes.active := by omega
    obtain ⟨p, turn, is_active, -⟩ := Rotation.next_active some_active
    obtain ⟨s, found, running⟩ := (fits.members p).mp is_active.1
    obtain ⟨sound, paid⟩ := (sane p s found).sound true
    obtain ⟨⟨answer, e⟩, checked, kept, paid'⟩ := sound.checkRead paid running
    obtain ⟨effect, rest⟩ := PipeEnd.checkRead_effect checked
    cases answer with
    | true =>
      obtain rfl : e = s.pipeEnd true := rest
      rw [hasInLoop, turn, Option.bind_some, Pipes.use_same found running checked]
      exact ⟨true, f, pipes, rfl, sane, fits, Pipes.Reads.refl pipes, by simp⟩
    | false =>
      obtain ⟨t, used, sane', put⟩ := Pipes.use_spec sane found running checked kept paid'
      have reads := put.reads effect
      rw [hasInLoop, turn, Option.bind_some, used, Option.bind_some]
      rw [if_neg (by simp), ← put.pipe] at rest
      have later := fits.empty single found turn is_active reads rest
      have fewer := Rotation.count_deactivate count
      obtain ⟨answer, g, after, looped, sane'', fits', reads', nothing⟩ :=
        ih (f := { f with pipes := f.pipes.deactivate }) fewer single sane' later
      exact ⟨answer, g, after, by simpa using looped, sane'', fits',
        (Pipes.Reads.update found reads).trans reads', nothing⟩

/-- A change of one pipe that does not matter to fair queueing. -/
theorem Fits.change {p : π} {s t : PipePair α} (fits : f.Fits pipes) (found : pipes p = some s)
    (gone : (t.pipes true).gone = (s.pipes true).gone)
    (inActive : (t.pipes true).inActive = (s.pipes true).inActive)
    (opened : (t.pipes true).opened = true → (s.pipes true).opened = true)
    (delay : (t.pipes true).state = .active →
      (s.pipes true).state = .active ∧ (t.pipes true).delay = (s.pipes true).delay)
    (linked : Linked s.incoming → Linked t.incoming)
    (received : t.received true = s.received true)
    (goes_on : f.more = true → f.pipes.next = some p → (s.pipes true).opened = true →
      (t.pipes true).opened = true) : f.Fits (Function.update pipes p (some t)) := by
  refine ⟨fun q => ?_, fun q u found' => ?_, fun more => ?_⟩
  · rw [fits.members, Pipes.attached_update found gone]
  · by_cases same : q = p
    · subst same
      obtain rfl : t = u := by simpa using found'
      have knows := fits.knows q s found
      refine ⟨fun running open_end => ?_, fun state => ?_, linked knows.linked⟩
      · rw [inActive]
        exact knows.active (gone ▸ running) (opened open_end)
      · obtain ⟨active, same⟩ := delay state
        rw [same]
        exact knows.delay active
    · rw [Function.update_of_ne same] at found'
      exact fits.knows q u found'
  · obtain ⟨q, u, m, goes⟩ := fits.goes more
    by_cases same : q = p
    · subst same
      obtain rfl : s = u := Option.some.inj (found.symm.trans goes.found)
      exact ⟨q, t, m, goes.turn, goes.active, Function.update_self .., gone.trans goes.running,
        goes_on more goes.turn goes.opened, by rw [received]; exact goes.last, goes.more⟩
    · exact ⟨q, u, m, goes.turn, goes.active, by rw [Function.update_of_ne same, goes.found],
        goes.running, goes.opened, goes.last, goes.more⟩

end Fq

/-! ### Load balancing -/

namespace Lb

variable [DecidableEq π] {hwms : π → Bool → Nat} {l : Lb π} {pipes : Pipes π α}
variable {parts : List (PipeMsg α)}

/-- The pipe that the application's message goes to. -/
def Writing (l : Lb π) (p : π) : Prop :=
  l.more = true ∧ l.dropping = false ∧ l.pipes.next = some p

instance (l : Lb π) (p : π) : Decidable (l.Writing p) := by
  unfold Writing
  infer_instance

/-- What load balancing knows of a pipe. -/
structure Knows (l : Lb π) (parts : List (PipeMsg α)) (p : π) (s : PipePair α) : Prop where
  /-- The active pipes are those that have not been found full. -/
  active : (s.pipes true).gone = false → (s.pipes true).state = .active →
    (l.pipes.IsActive p ↔ (s.pipes true).outActive = true)
  ready : (s.queues true).ready = []
  unfinished : (s.pipes true).state = .active →
    (s.queues true).unfinished = if l.Writing p then parts else []
  room : (s.pipes true).state = .active → l.Writing p → (s.pipes true).checkHwm = true

structure Fits (l : Lb π) (pipes : Pipes π α) (parts : List (PipeMsg α)) : Prop where
  members : ∀ p, p ∈ l.pipes.items ↔ pipes.Attached p
  knows : ∀ p s, pipes p = some s → l.Knows parts p s
  idle : l.more = false → l.dropping = false → parts = []
  goes : l.more = true → l.dropping = false → ∃ p, l.pipes.next = some p ∧ l.pipes.IsActive p
  parts : ∀ n ∈ parts, n.forUser = true ∧ n.more = true

theorem Knows.reads {p : π} {s t : PipePair α} {ms : List (PipeMsg α)}
    (knows : l.Knows parts p s) (reads : s.Reads t ms) : l.Knows parts p t := by
  refine ⟨fun running active => ?_, ?_, fun active => ?_, fun active writing => ?_⟩
  · rw [reads.outActive]
    exact knows.active (reads.gone ▸ running) (reads.state active)
  · rw [reads.queue]
    exact knows.ready
  · rw [reads.queue]
    exact knows.unfinished (reads.state active)
  · rw [reads.room]
    exact knows.room (reads.state active) writing

theorem Fits.reads {after : Pipes π α} {got : List (π × PipeMsg α)}
    (fits : l.Fits pipes parts) (reads : pipes.Reads after got) : l.Fits after parts := by
  refine ⟨fun p => (fits.members p).trans (reads.attached p).symm, fun p t found => ?_, fits.idle,
    fits.goes, fits.parts⟩
  obtain ⟨s, before, same⟩ := reads.before found
  exact (fits.knows p s before).reads same

/-! ### Sending -/

/-- The part of a message that is left with the application's socket after a call. -/
def left (parts : List (PipeMsg α)) (m : PipeMsg α) : SendResult π → List (PipeMsg α)
  | .again => parts
  | .sent _ | .lost => if m.more then parts ++ [m] else []

/-- What a call adds to the messages of a pipe. -/
def added (parts : List (PipeMsg α)) (m : PipeMsg α) (q : π) : SendResult π → List (PipeMsg α)
  | .sent (some p) => if p = q ∧ m.more = false then parts ++ [m] else []
  | .sent none | .again | .lost => []

/-- What `sendpipe` does. -/
structure Sent (l : Lb π) (pipes : Pipes π α) (parts : List (PipeMsg α)) (m : PipeMsg α)
    (result : SendResult π) (g : Lb π) (after : Pipes π α) : Prop where
  fits : g.Fits after (left parts m result)
  accepted : ∀ q, after.accepted q = pipes.accepted q ++ added parts m q result
  writes : pipes.Writes after
  /-- A message of which a part was taken is not refused. -/
  refused : result = .again → g.pipes.active = 0 ∧ l.more = false ∧ l.dropping = false
  /-- The rest of a message is dropped only when its pipe is taken down. -/
  lost : result = .lost → l.more = true ∧ ∃ p s, l.pipes.next = some p ∧
    pipes p = some s ∧ (s.pipes true).state ≠ .active
  dropped : result = .sent none → l.dropping = true
  dropping : g.dropping = true → l.dropping = true ∨ result = .lost

theorem Knows.other {g : Lb π} {p q : π} {u : PipePair α} {parts' : List (PipeMsg α)}
    (knows : l.Knows parts q u) (turn : l.pipes.next = some p) (other : q ≠ p)
    (active : g.pipes.IsActive q ↔ l.pipes.IsActive q) (quiet : ¬g.Writing q) :
    g.Knows parts' q u := by
  have before : ¬l.Writing q := fun writing =>
    other (Option.some.inj (writing.2.2.symm.trans turn))
  refine ⟨fun running state => active.trans (knows.active running state), knows.ready,
    fun state => ?_, fun _ writing => absurd writing quiet⟩
  have unfinished := knows.unfinished state
  rw [if_neg before] at unfinished
  rw [unfinished, if_neg quiet]

/-- A call that was about one pipe. -/
theorem Fits.update {g : Lb π} {p : π} {s t : PipePair α} {parts' : List (PipeMsg α)}
    (fits : l.Fits pipes parts) (found : pipes p = some s)
    (gone : (t.pipes true).gone = (s.pipes true).gone) (turn : l.pipes.next = some p)
    (items : ∀ q, q ∈ g.pipes.items ↔ q ∈ l.pipes.items)
    (active : ∀ q, q ≠ p → (g.pipes.IsActive q ↔ l.pipes.IsActive q))
    (quiet : ∀ q, q ≠ p → ¬g.Writing q) (here : g.Knows parts' p t)
    (idle : g.more = false → g.dropping = false → parts' = [])
    (goes : g.more = true → g.dropping = false →
      ∃ p, g.pipes.next = some p ∧ g.pipes.IsActive p)
    (shown : ∀ n ∈ parts', n.forUser = true ∧ n.more = true) :
    g.Fits (Function.update pipes p (some t)) parts' := by
  refine ⟨fun q => ?_, fun q u found' => ?_, idle, goes, shown⟩
  · rw [items, fits.members, Pipes.attached_update found gone]
  · by_cases same : q = p
    · subst same
      obtain rfl : t = u := by simpa using found'
      exact here
    · rw [Function.update_of_ne same] at found'
      exact (fits.knows q u found').other turn same (active q same) (quiet q same)

theorem Fits.unfinished {p : π} {s : PipePair α} (fits : l.Fits pipes parts)
    (found : pipes p = some s) (turn : l.pipes.next = some p) (open_end : l.dropping = false)
    (state : (s.pipes true).state = .active) : (s.queues true).unfinished = parts := by
  rw [(fits.knows p s found).unfinished state]
  split
  · rfl
  · next idle =>
    refine (fits.idle ?_ open_end).symm
    by_contra more
    exact idle ⟨by simpa using more, open_end, turn⟩

/-! One lemma for each way in which a pipe can answer. -/

section Turn

variable {p : π} {s t : PipePair α} {m : PipeMsg α}

theorem Fits.part (fits : l.Fits pipes parts) (sending : l.dropping = false)
    (found : pipes p = some s) (turn : l.pipes.next = some p) (active : l.pipes.IsActive p)
    (writes : s.Writes t) (pipe : t.pipes true = s.pipes true) (more : m.more = true)
    (shown : m.forUser = true) (state : (s.pipes true).state = .active)
    (room : (s.pipes true).checkHwm = true)
    (queue : t.queues true = (s.queues true).write m true) :
    Fits { l with more := true } (Function.update pipes p (some t)) (parts ++ [m]) := by
  have knows := fits.knows p s found
  have writing : Writing { l with more := true } p := ⟨rfl, sending, turn⟩
  refine fits.update found writes.gone turn (fun _ => Iff.rfl) (fun _ _ => Iff.rfl) ?_ ?_
    (by simp) (fun _ _ => ⟨p, turn, active⟩) ?_
  · intro q other here
    exact other (Option.some.inj (here.2.2.symm.trans turn))
  · refine ⟨fun running state => ?_, ?_, fun _ => ?_, fun _ _ => ?_⟩
    · rw [pipe] at running state ⊢
      exact knows.active running state
    · rw [queue]
      exact knows.ready
    · rw [if_pos writing, queue, Channel.write, if_pos rfl,
        fits.unfinished found turn sending state]
    · rw [pipe]
      exact room
  · intro n member
    rcases List.mem_append.mp member with old | new
    · exact fits.parts n old
    · obtain rfl : n = m := by simpa using new
      exact ⟨shown, more⟩

theorem Fits.last (fits : l.Fits pipes parts) (found : pipes p = some s)
    (turn : l.pipes.next = some p)
    (writes : s.Writes t) (state : (s.pipes true).state = .active)
    (outActive : (t.pipes true).outActive = (s.pipes true).outActive)
    (ready : (t.queues true).ready = []) (unfinished : (t.queues true).unfinished = []) :
    Fits { l with more := false, pipes := l.pipes.advance }
      (Function.update pipes p (some t)) [] := by
  have knows := fits.knows p s found
  refine fits.update found writes.gone turn (fun q => by rw [Rotation.items_advance])
    (fun q _ => l.pipes.active_advance q) ?_ ?_ (fun _ _ => rfl) (by simp) (by simp)
  · rintro q - ⟨more, -⟩
    cases more
  · refine ⟨fun running _ => ?_, ready, fun _ => ?_, ?_⟩
    · rw [outActive]
      exact (l.pipes.active_advance p).trans (knows.active (writes.gone ▸ running) state)
    · rw [unfinished]
      simp
    · rintro - ⟨more, -⟩
      cases more

/-- The pipe is taken down, so that the rest of the message is dropped. -/
theorem Fits.torn (fits : l.Fits pipes parts)
    (found : pipes p = some s) (turn : l.pipes.next = some p) (writes : s.Writes t)
    (state : (s.pipes true).state ≠ .active) (ready : (t.queues true).ready = [])
    (shown : m.forUser = true) :
    Fits { l with dropping := m.more, more := false } (Function.update pipes p (some t))
      (if m.more then parts ++ [m] else []) := by
  have ended : (t.pipes true).state ≠ .active := by
    rw [writes.state]
    exact state
  refine fits.update found writes.gone turn (fun _ => Iff.rfl) (fun _ _ => Iff.rfl) ?_
    ⟨fun _ active => absurd active ended, ready, fun active => absurd active ended,
      fun active => absurd active ended⟩ ?_ (by simp) ?_
  · rintro q - ⟨more, -⟩
    cases more
  · rintro - (single : m.more = false)
    rw [if_neg (by simp [single])]
  · intro n member
    split at member
    · next more =>
      rcases List.mem_append.mp member with old | new
      · exact fits.parts n old
      · obtain rfl : n = m := by simpa using new
        exact ⟨shown, more⟩
    · cases member

theorem Fits.full (fits : l.Fits pipes parts) (single : l.more = false)
    (found : pipes p = some s) (turn : l.pipes.next = some p) (active : l.pipes.IsActive p)
    (writes : s.Writes t) (queue : t.queues true = s.queues true)
    (blocked : (t.pipes true).state = .active → (t.pipes true).outActive = false) :
    Fits { l with pipes := l.pipes.deactivate } (Function.update pipes p (some t)) parts := by
  have some_active := active.some_active
  have knows := fits.knows p s found
  have quiet (q : π) : ¬l.Writing q := fun writing =>
    absurd writing.1 (by simp [single])
  refine fits.update found writes.gone turn ?_ ?_ ?_ ?_ fits.idle ?_ fits.parts
  · exact fun q => Rotation.mem_deactivate some_active q
  · intro q other
    have behind : l.pipes.next ≠ some q := fun here =>
      other (Option.some.inj (here.symm.trans turn))
    simp [Rotation.active_deactivate some_active, behind]
  · rintro q - ⟨more, -⟩
    simp [single] at more
  · refine ⟨fun _ state => ?_, ?_, fun state => ?_, ?_⟩
    · simp [Rotation.active_deactivate some_active, turn, blocked state]
    · rw [queue]
      exact knows.ready
    · rw [queue, knows.unfinished (writes.state ▸ state), if_neg (quiet p), if_neg]
      rintro ⟨more, -⟩
      simp [single] at more
    · rintro - ⟨more, -⟩
      simp [single] at more
  · intro more
    simp [single] at more

end Turn

end Lb

/-! ### What one call makes of a pair -/

namespace Pipes

variable [DecidableEq π] {hwms : π → Bool → Nat} {pipes : Pipes π α} {p : π} {s : PipePair α}

/-- A message, or a part of one, was written to a pair. -/
structure Written (s t : PipePair α) (m : PipeMsg α) : Prop where
  active : (s.pipes true).state = .active
  room : (s.pipes true).checkHwm = true
  part : m.more = true → t.pipes true = s.pipes true
  outActive : (t.pipes true).outActive = (s.pipes true).outActive
  outPipe : (t.pipes true).outPipe = true
  queue : t.queues true = (s.queues true).write m m.more
  accepted : t.accepted true = if m.more then s.accepted true
    else s.accepted true ++ ((s.queues true).unfinished ++ [m])

/-- A pair was not written. -/
structure Refused (s t : PipePair α) : Prop where
  queue : t.queues true = s.queues true
  accepted : t.accepted true = s.accepted true
  blocked : (t.pipes true).state = .active → (t.pipes true).outActive = false
  full : (s.pipes true).state = .active → (s.pipes true).outActive = true →
    (s.pipes true).checkHwm = false

theorem pipeEnd_outpipe {ch : Channel (PipeMsg α)} (before : (s.pipeEnd true).outpipe = some ch) :
    ch = s.queues true := by
  rw [PipePair.pipeEnd] at before
  split at before
  · cases before
  · exact (Option.some.inj before).symm

theorem Refused.of_put {t : PipePair α} {e : PipeEnd α}
    (put : PipePair.Put s true (s.mail true) e t) (refuses : (s.pipeEnd true).Refuses e) :
    Refused s t := by
  obtain ⟨accepted, outpipe, blocked, full⟩ := refuses
  refine ⟨?_, put.accepted.trans accepted, by rw [put.pipe]; exact blocked, full⟩
  rw [put.queue, outpipe, PipePair.pipeEnd]
  split <;> rfl

theorem tryWrite_spec (sane : pipes.Sane hwms) (found : pipes p = some s)
    (running : (s.pipes true).gone = false) {m : PipeMsg α} (other : m.isDelimiter = false) :
    ∃ written t, pipes.use p (PipeEnd.tryWrite m) =
        some (written, Function.update pipes p (some t)) ∧
      Sane hwms (Function.update pipes p (some t)) ∧ s.Writes t ∧
      if written then Written s t m else Refused s t := by
  obtain ⟨sound, paid⟩ := (sane p s found).sound true
  obtain ⟨e, wrote, kept, paid'⟩ := sound.write paid running m other
  have tried : (s.pipeEnd true).tryWrite m = some ((s.pipeEnd true).checkWrite.1, e) := by
    rw [PipeEnd.tryWrite, wrote]
    rfl
  obtain ⟨t, used, sane', put⟩ := use_spec sane found running tried kept paid'
  obtain ⟨writes, effect⟩ := PipeEnd.tryWrite_effect tried
  refine ⟨_, t, used, sane', put.writes writes, ?_⟩
  split at effect
  · next written =>
    obtain ⟨ch, effect⟩ := effect
    obtain rfl := pipeEnd_outpipe effect.before
    rw [if_pos written]
    refine ⟨effect.active, effect.room, fun more => ?_, ?_, ?_, ?_, ?_⟩
    · rw [put.pipe, effect.part more]
      rfl
    · rw [put.pipe, effect.outActive]
      rfl
    · rw [put.pipe, effect.same_pipe]
      exact effect.outPipe
    · rw [put.queue, effect.after]
      rfl
    · rw [put.accepted, effect.accepted]
      rfl
  · next refused =>
    rw [if_neg refused]
    exact Refused.of_put put effect

theorem flush_spec (sane : pipes.Sane hwms) (found : pipes p = some s)
    (running : (s.pipes true).gone = false) (state : (s.pipes true).state = .active)
    (outPipe : (s.pipes true).outPipe = true) :
    ∃ t, pipes.run p PipeEnd.flush = some (Function.update pipes p (some t)) ∧
      Sane hwms (Function.update pipes p (some t)) ∧ s.Writes t ∧
      t.pipes true = s.pipes true ∧ t.accepted true = s.accepted true ∧
      (t.queues true).unfinished = (s.queues true).unfinished ∧ (t.queues true).ready = [] := by
  obtain ⟨sound, paid⟩ := (sane p s found).sound true
  obtain ⟨e, flushed, kept, paid', -⟩ := sound.flush
  obtain ⟨t, ran, sane', put⟩ := run_spec sane found running flushed kept (paid' paid)
  obtain ⟨writes, pipe, accepted, queue⟩ := PipeEnd.flush_effect flushed
  have busy : (s.pipeEnd true).pipe.outPipe = true ∧
      (s.pipeEnd true).pipe.state ≠ .termAckSent := ⟨outPipe, by simp [PipePair.pipeEnd, state]⟩
  rw [if_pos busy] at queue
  obtain ⟨ch, before, after⟩ := queue
  obtain rfl := pipeEnd_outpipe before
  refine ⟨t, ran, sane', put.writes writes, put.pipe.trans pipe, put.accepted.trans accepted, ?_⟩
  rw [put.queue, after]
  obtain ⟨unfinished, ready, -⟩ := PipeEnd.flush_parts (s.queues true)
  exact ⟨unfinished, ready⟩

theorem rollback_spec (sane : pipes.Sane hwms) (found : pipes p = some s)
    (running : (s.pipes true).gone = false) :
    ∃ t, pipes.run p PipeEnd.rollback = some (Function.update pipes p (some t)) ∧
      Sane hwms (Function.update pipes p (some t)) ∧ s.Writes t ∧
      t.accepted true = s.accepted true ∧ (t.queues true).ready = (s.queues true).ready := by
  obtain ⟨sound, paid⟩ := (sane p s found).sound true
  obtain ⟨e, rolled, kept, paid', -⟩ := sound.rollback
  obtain ⟨t, ran, sane', put⟩ := run_spec sane found running rolled kept (paid' paid)
  obtain ⟨writes, -, accepted, queue⟩ := PipeEnd.rollback_effect rolled
  refine ⟨t, ran, sane', put.writes writes, put.accepted.trans accepted, ?_⟩
  rw [put.queue]
  split at queue
  · obtain ⟨ch, before, after⟩ := queue
    obtain rfl := pipeEnd_outpipe before
    rw [after]
    rfl
  · rw [queue, PipePair.pipeEnd]
    split <;> rfl

theorem checkWrite_spec (sane : pipes.Sane hwms) (found : pipes p = some s)
    (running : (s.pipes true).gone = false) :
    ∃ writable t, pipes.use p (fun e => some e.checkWrite) =
        some (writable, Function.update pipes p (some t)) ∧
      Sane hwms (Function.update pipes p (some t)) ∧ s.Writes t ∧
      if writable then Function.update pipes p (some t) = pipes else Refused s t := by
  obtain ⟨sound, paid⟩ := (sane p s found).sound true
  obtain ⟨kept, -, paid'⟩ := sound.checkWrite
  obtain ⟨writes, effect⟩ := (s.pipeEnd true).checkWrite_effect
  rcases checked : (s.pipeEnd true).checkWrite with ⟨writable, e⟩
  rw [checked] at kept paid' writes effect
  obtain ⟨t, used, sane', put⟩ := use_spec (f := fun e => some e.checkWrite) sane found running
    (congrArg some checked) kept (paid' paid)
  refine ⟨writable, t, used, sane', put.writes writes, ?_⟩
  cases writable with
  | true =>
    obtain ⟨rfl, -⟩ : e = s.pipeEnd true ∧ _ := effect
    have unused := use_same (f := fun e => some e.checkWrite) found running
      (congrArg some checked)
    rw [used] at unused
    simpa using unused
  | false => exact Refused.of_put put effect

theorem accepted_update (t : PipePair α) (q : π) :
    accepted (Function.update pipes p (some t)) q =
      if q = p then (t.accepted true).filter PipeMsg.content else pipes.accepted q := by
  by_cases same : q = p
  · subst same
    simp [accepted]
  · simp [accepted, same]

end Pipes

namespace Lb

variable [DecidableEq π] {hwms : π → Bool → Nat} {l : Lb π} {pipes : Pipes π α}
variable {parts : List (PipeMsg α)} {p : π} {s t : PipePair α} {m : PipeMsg α}

theorem content_of_forUser {m : PipeMsg α} (shown : m.forUser = true) : m.content = true := by
  simp [PipeMsg.content, ((PipeMsg.forUser_iff m).mp shown).2]

theorem content_parts (fits : l.Fits pipes parts) : parts.filter PipeMsg.content = parts :=
  List.filter_eq_self.mpr fun n member => content_of_forUser (fits.parts n member).1

theorem turn_written (fits : l.Fits pipes parts) (sending : l.dropping = false)
    (sane : Pipes.Sane hwms (Function.update pipes p (some t)))
    (found : pipes p = some s) (running : (s.pipes true).gone = false)
    (turn : l.pipes.next = some p) (active : l.pipes.IsActive p) (shown : m.forUser = true)
    (writes : s.Writes t) (written : Pipes.Written s t m) :
    ∃ (g : Lb π) (after : Pipes π α),
      (if m.more then some (SendResult.sent (some p), { l with more := m.more },
          Function.update pipes p (some t))
        else (Pipes.run (Function.update pipes p (some t)) p PipeEnd.flush).map fun pipes =>
          (.sent (some p), { l with more := m.more, pipes := l.pipes.advance }, pipes)) =
        some (.sent (some p), g, after) ∧ after.Sane hwms ∧
      l.Sent pipes parts m (.sent (some p)) g after := by
  have unfinished := fits.unfinished found turn sending written.active
  cases more : m.more with
  | true =>
    have queue := written.queue
    have accepted := written.accepted
    rw [more] at queue accepted
    refine ⟨_, _, if_pos rfl, sane, ?_, fun q => ?_, .update found writes, by simp, by simp,
      by simp, .inl⟩
    · rw [left, more]
      exact fits.part sending found turn active writes (written.part more) more shown
        written.active written.room queue
    · rw [added, more, Pipes.accepted_update]
      by_cases same : q = p
      · subst same
        simp [Pipes.accepted, found, accepted]
      · simp [same]
  | false =>
    have queue := written.queue
    have accepted := written.accepted
    rw [more] at queue accepted
    -- The last part is flushed, and it is the turn of the next pipe.
    obtain ⟨u, ran, sane', writes', pipe, accepted', unfinished', ready⟩ :=
      Pipes.flush_spec (p := p) sane (Function.update_self ..) (writes.gone.trans running)
        (writes.state.trans written.active) written.outPipe
    rw [Function.update_idem] at ran sane'
    have both := writes.trans writes'
    rw [if_neg (by simp), ran]
    refine ⟨_, _, rfl, sane', ?_, fun q => ?_, .update found both, by simp, by simp,
      by simp, .inl⟩
    · rw [left, more]
      refine fits.last found turn both written.active ?_ ready ?_
      · rw [pipe, written.outActive]
      · rw [unfinished', queue]
        rfl
    · rw [added, more, Pipes.accepted_update]
      by_cases same : q = p
      · subst same
        simp [Pipes.accepted, found, accepted', accepted, unfinished, content_parts fits,
          content_of_forUser shown]
      · simp [same, Ne.symm same]

theorem turn_lost (fits : l.Fits pipes parts) (sending : l.dropping = false)
    (more : l.more = true)
    (sane : Pipes.Sane hwms (Function.update pipes p (some t)))
    (found : pipes p = some s) (running : (s.pipes true).gone = false)
    (turn : l.pipes.next = some p) (active : l.pipes.IsActive p) (shown : m.forUser = true)
    (writes : s.Writes t) (refused : Pipes.Refused s t) :
    ∃ g after, (Pipes.run (Function.update pipes p (some t)) p PipeEnd.rollback).map (fun pipes =>
          (SendResult.lost (π := π), { l with dropping := m.more, more := false }, pipes)) =
        some (.lost, g, after) ∧ after.Sane hwms ∧ l.Sent pipes parts m .lost g after := by
  have knows := fits.knows p s found
  -- The watermarks do not count parts, so the pipe was not full.
  have ended : (s.pipes true).state ≠ .active := by
    intro state
    have full := refused.full state ((knows.active running state).mp active)
    simp [knows.room state ⟨more, sending, turn⟩] at full
  obtain ⟨u, ran, sane', writes', accepted, ready⟩ :=
    Pipes.rollback_spec (p := p) sane (Function.update_self ..) (writes.gone.trans running)
  rw [Function.update_idem] at ran sane'
  have both := writes.trans writes'
  rw [ran]
  refine ⟨_, _, rfl, sane', ?_, fun q => ?_, .update found both, by simp,
    fun _ => ⟨more, p, s, turn, found, ended⟩, by simp, fun _ => .inr rfl⟩
  · refine fits.torn found turn both ended ?_ shown
    rw [ready, refused.queue]
    exact knows.ready
  · rw [added, List.append_nil, Pipes.accepted_update]
    split
    · next same =>
      subst same
      simp [Pipes.accepted, found, accepted, refused.accepted]
    · rfl

theorem sendLoop_spec (shown : m.forUser = true) (active : Nat) (count : l.pipes.active = active)
    (sane : pipes.Sane hwms) (fits : l.Fits pipes parts) (sending : l.dropping = false) :
    ∃ result g after, sendLoop m active l pipes = some (result, g, after) ∧ after.Sane hwms ∧
      l.Sent pipes parts m result g after := by
  induction active generalizing l pipes with
  | zero =>
    have single : l.more = false := by
      by_contra more
      obtain ⟨p, -, active⟩ := fits.goes (by simpa using more) sending
      exact absurd active.some_active (by omega)
    exact ⟨.again, l, pipes, rfl, sane, fits, by simp [added], .refl pipes,
      fun _ => ⟨count, single, sending⟩, by simp, by simp, .inl⟩
  | succ active ih =>
    have some_active : 0 < l.pipes.active := by omega
    obtain ⟨p, turn, is_active, -⟩ := Rotation.next_active some_active
    obtain ⟨s, found, running⟩ := (fits.members p).mp is_active.1
    have other := ((PipeMsg.forUser_iff m).mp shown).2
    obtain ⟨written, t, used, sane', writes, effect⟩ :=
      Pipes.tryWrite_spec sane found running other
    rw [sendLoop, turn, Option.bind_some, used, Option.bind_some]
    cases written with
    | true =>
      obtain ⟨g, after, sent, rest⟩ := turn_written fits sending sane' found running turn is_active
        shown writes effect
      exact ⟨.sent (some p), g, after, sent, rest⟩
    | false =>
      cases more : l.more with
      | true =>
        -- A pipe that took a part refuses the next one only when it is taken down.
        obtain ⟨g, after, lost, rest⟩ := turn_lost fits sending more sane' found running turn
          is_active shown writes effect
        exact ⟨.lost, g, after, by simpa [more] using lost, rest⟩
      | false =>
        have fewer := Rotation.count_deactivate count
        have refused : Pipes.Refused s t := effect
        obtain ⟨result, g, after, looped, sane'', sent⟩ :=
          ih (l := { l with pipes := l.pipes.deactivate }) fewer sane'
            (fits.full more found turn is_active writes refused.queue refused.blocked) sending
        refine ⟨result, g, after, by simpa [more] using looped, sane'', sent.fits, fun q => ?_,
          .trans (.update found writes) sent.writes, sent.refused,
          fun lost => absurd (sent.lost lost).1 (by simp [more]), sent.dropped, sent.dropping⟩
        · rw [sent.accepted, Pipes.accepted_update]
          split
          · next same =>
            subst same
            simp [Pipes.accepted, found, refused.accepted]
          · rfl

/-- The rest of a message is dropped. -/
theorem Fits.drop (fits : l.Fits pipes parts) (dropping : l.dropping = true)
    (shown : m.forUser = true) :
    Fits { l with more := m.more, dropping := m.more } pipes
      (if m.more then parts ++ [m] else []) := by
  have before (q : π) : ¬l.Writing q := fun writing =>
    absurd writing.2.1 (by simp [dropping])
  have after (q : π) : ¬Writing { l with more := m.more, dropping := m.more } q := by
    rintro ⟨more, open_end, -⟩
    exact absurd (more.symm.trans open_end) (by simp)
  refine ⟨fits.members, fun q u found => ?_, ?_, ?_, ?_⟩
  · have knows := fits.knows q u found
    refine ⟨knows.active, knows.ready, fun state => ?_, fun _ writing => absurd writing (after q)⟩
    rw [knows.unfinished state, if_neg (before q), if_neg (after q)]
  · rintro (single : m.more = false) -
    rw [if_neg (by simp [single])]
  · intro more open_end
    exact absurd (more.symm.trans open_end) (by simp)
  · intro n member
    split at member
    · next more =>
      rcases List.mem_append.mp member with old | new
      · exact fits.parts n old
      · obtain rfl : n = m := by simpa using new
        exact ⟨shown, more⟩
    · cases member

theorem sendpipe_spec (shown : m.forUser = true) (sane : pipes.Sane hwms)
    (fits : l.Fits pipes parts) :
    ∃ result g after, l.sendpipe pipes m = some (result, g, after) ∧ after.Sane hwms ∧
      l.Sent pipes parts m result g after := by
  rw [sendpipe]
  cases dropping : l.dropping with
  | true =>
    exact ⟨.sent none, _, pipes, rfl, sane, fits.drop dropping shown, by simp [added],
      .refl pipes, by simp, by simp, fun _ => dropping, fun _ => .inl dropping⟩
  | false => exact sendLoop_spec shown _ rfl sane fits dropping

/-- What `has_out` does. -/
structure Asked (l : Lb π) (pipes : Pipes π α) (parts : List (PipeMsg α)) (answer : Bool)
    (g : Lb π) (after : Pipes π α) : Prop where
  fits : g.Fits after parts
  accepted : ∀ q, after.accepted q = pipes.accepted q
  writes : pipes.Writes after
  dropping : g.dropping = l.dropping
  full : answer = false → g.pipes.active = 0

theorem hasOutLoop_spec (active : Nat) (count : l.pipes.active = active) (single : l.more = false)
    (sane : pipes.Sane hwms) (fits : l.Fits pipes parts) :
    ∃ answer g after, hasOutLoop active l pipes = some (answer, g, after) ∧ after.Sane hwms ∧
      l.Asked pipes parts answer g after := by
  induction active generalizing l pipes with
  | zero => exact ⟨false, l, pipes, rfl, sane, fits, fun _ => rfl, .refl pipes, rfl, fun _ => count⟩
  | succ active ih =>
    have some_active : 0 < l.pipes.active := by omega
    obtain ⟨p, turn, is_active, -⟩ := Rotation.next_active some_active
    obtain ⟨s, found, running⟩ := (fits.members p).mp is_active.1
    obtain ⟨writable, t, used, sane', writes, effect⟩ :=
      Pipes.checkWrite_spec sane found running
    rw [hasOutLoop, turn, Option.bind_some, used, Option.bind_some]
    cases writable with
    | true =>
      rw [if_pos rfl] at effect
      exact ⟨true, l, _, if_pos rfl, sane', by rw [effect]; exact fits, fun q => by rw [effect],
        .update found writes, rfl, by simp⟩
    | false =>
      have fewer := Rotation.count_deactivate count
      have refused : Pipes.Refused s t := effect
      obtain ⟨answer, g, after, looped, sane'', asked⟩ :=
        ih (l := { l with pipes := l.pipes.deactivate }) fewer single sane'
          (fits.full single found turn is_active writes refused.queue refused.blocked)
      refine ⟨answer, g, after, by simpa using looped, sane'', asked.fits, fun q => ?_,
        .trans (.update found writes) asked.writes, asked.dropping, asked.full⟩
      rw [asked.accepted, Pipes.accepted_update]
      split
      · next same =>
        subst same
        simp [Pipes.accepted, found, refused.accepted]
      · rfl

theorem hasOut_spec (sane : pipes.Sane hwms) (fits : l.Fits pipes parts) :
    ∃ answer g after, l.hasOut pipes = some (answer, g, after) ∧ after.Sane hwms ∧
      l.Asked pipes parts answer g after := by
  rw [hasOut]
  cases more : l.more with
  | true => exact ⟨true, l, pipes, rfl, sane, fits, fun _ => rfl, .refl pipes, rfl, by simp⟩
  | false => exact hasOutLoop_spec _ rfl more sane fits

end Lb

end OfxZeroMQ
