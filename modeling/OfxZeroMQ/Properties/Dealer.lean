import OfxZeroMQ.Foundation.Transition
import OfxZeroMQ.Properties.Membership

/-!
# A socket that receives of many pipes and sends to them

What every run of a dealer keeps, as long as no message is torn when a pipe is taken down. The
watermarks of its pipes are fixed, and no pipe hiccups (see `PipeCall`).
-/
namespace OfxZeroMQ

open Foundation

variable {π α : Type}

/-! ### What a command and the other end change of a pair -/

theorem PipeEnd.process_room {others : Others α} {e e' : PipeEnd α} {c : PipeCommand}
    {toMe : List PipeCommand} (sound : Sound others e) (mail : others.toMe = c :: toMe)
    (done : e.process c = some e') (room : e.pipe.checkHwm = true) :
    e'.pipe.checkHwm = true := by
  have same (counters : (e'.pipe.hwm, e'.pipe.msgsWritten, e'.pipe.peersMsgsRead) =
      (e.pipe.hwm, e.pipe.msgsWritten, e.pipe.peersMsgsRead)) :
      e'.pipe.checkHwm = true := by
    simp only [Prod.mk.injEq] at counters
    obtain ⟨hwm, written, peers⟩ := counters
    rwa [Pipe.checkHwm, hwm, written, peers]
  cases c with
  | activateRead =>
    obtain rfl := Option.some.inj done
    refine same ?_
    rw [processActivateRead]
    split <;> rfl
  | activateWrite msgsRead =>
    have sorted := sound.outbound.credit.sorted
    rw [mail] at sorted
    -- The reports of the other end only grow, so that room does not go away.
    have newer : e.pipe.peersMsgsRead ≤ msgsRead := by
      simp only [reports, List.filterMap_cons, List.cons_append, List.pairwise_cons] at sorted
      exact sorted.1 msgsRead (by simp)
    obtain rfl := Option.some.inj done
    have later : (e.processActivateWrite msgsRead).pipe.checkHwm =
        ({ e.pipe with peersMsgsRead := msgsRead } : Pipe).checkHwm := by
      rw [processActivateWrite]
      dsimp only
      split <;> rfl
    rw [later]
    simp only [Pipe.checkHwm, Bool.not_eq_true', decide_eq_false_iff_not] at room ⊢
    omega
  | pipeTerm =>
    rw [process, processPipeTerm] at done
    split at done
    · split at done <;> obtain rfl := Option.some.inj done <;> exact same rfl
    · obtain rfl := Option.some.inj done
      exact same rfl
    · obtain rfl := Option.some.inj done
      exact same rfl
    · cases done
  | pipeTermAck =>
    rw [process, processPipeTermAck] at done
    split at done
    · obtain rfl := Option.some.inj done
      exact same rfl
    · obtain rfl := Option.some.inj done
      exact same rfl
    · obtain rfl := Option.some.inj done
      exact same rfl
    · cases done

namespace PipePair

variable {hwms : Bool → Nat} {s t : PipePair α}

theorem pipeEnd_queue (s : PipePair α) (b : Bool) :
    (s.pipeEnd b).outpipe.getD (s.queues b) = s.queues b := by
  rw [pipeEnd]
  split <;> rfl

/-- What the socket's pipe makes of a command, and what the socket is told. -/
structure Served (s t : PipePair α) (told : Option PipeEvent) : Prop where
  running : (s.pipes true).gone = false
  accepted : t.accepted true = s.accepted true
  received : t.received true = s.received true
  queue : t.queues true = s.queues true
  incoming : t.incoming = s.incoming
  serves : (s.pipeEnd true).Serves (t.pipeEnd true)
  told : (s.pipeEnd true).Told (t.pipeEnd true) told
  room : (s.pipes true).checkHwm = true → (t.pipes true).checkHwm = true

theorem command_spec {command : PipeCommand} {mail : List PipeCommand} (sane : s.Sane hwms)
    (first : s.mail true = command :: mail) :
    ∃ t, s.act true .command = some t ∧ t.Sane hwms ∧
      s.Served t ((s.pipeEnd true).notifies command) := by
  obtain ⟨t, stepped, sane'⟩ := step_sane sane (true, .command)
  refine ⟨t, stepped, sane', ?_⟩
  rw [step, act.eq_def] at stepped
  simp only [first, Option.ite_none_left_eq_some] at stepped
  obtain ⟨running, served⟩ := stepped
  obtain ⟨e, done, put⟩ := Option.bind_eq_some_iff.mp served
  obtain ⟨serves, told⟩ := PipeEnd.process_effect done
  have spec := put_spec put
  have pipe : (t.pipeEnd true).pipe = e.pipe := spec.pipe
  have queue : t.queues true = s.queues true := by
    rw [spec.queue, serves.outpipe, pipeEnd_queue]
  have inqueue : t.queues false = s.queues false := spec.inqueue.trans serves.inpipe
  have peer : t.pipes false = s.pipes false := spec.peer
  have same : (s.pipeEnd true).Serves (t.pipeEnd true) := by
    refine ⟨spec.received.trans serves.received, spec.accepted.trans serves.accepted, inqueue, ?_,
      ?_, ?_, ?_, ?_⟩
    · simp only [pipeEnd, Bool.not_true, peer, queue]
    · rw [pipe]
      exact serves.delay
    · rw [pipe]
      exact serves.state
    · rw [pipe]
      exact serves.opened
    · rw [pipe]
      exact serves.patient
  refine ⟨by simpa using running, same.accepted, same.received, queue, ?_, same, ?_, ?_⟩
  · have accepted : t.accepted false = s.accepted false := spec.others
    rw [incoming, incoming, inqueue, accepted]
  · rw [PipeEnd.Told.eq_def] at told ⊢
    rw [pipe]
    exact told
  · have room := PipeEnd.process_room (sane.sound true).1 first done
    rw [← pipe] at room
    exact room

/-- What the thread at the other end changes. -/
structure Remote (s t : PipePair α) : Prop where
  pipe : t.pipes true = s.pipes true
  accepted : t.accepted true = s.accepted true
  received : t.received true = s.received true
  unfinished : (t.queues true).unfinished = (s.queues true).unfinished
  ready : (t.queues true).ready = (s.queues true).ready
  linked : Linked s.incoming → Linked t.incoming
  grows : (s.queues false).sent <+: (t.queues false).sent

theorem Remote.of_put (hwms : Bool → Nat) {mail : List PipeCommand} {e : PipeEnd α}
    (put : Put s false mail e t)
    (far : PipeEnd.Far (s.others hwms false (s.mail false)) (s.pipeEnd false) e) :
    s.Remote t := by
  have inqueue : t.queues true = e.inpipe := put.inqueue
  have deallocated : (s.others hwms false (s.mail false)).queue = s.queues false := rfl
  have queue := pipeEnd_queue s false
  refine ⟨put.peer, put.others, put.unread, ?_, ?_, fun linked => ?_, ?_⟩
  · rw [inqueue, far.unfinished]
    rfl
  · rw [inqueue, far.ready]
    rfl
  · have before : (s.pipeEnd false).wrote (s.others hwms false (s.mail false)) = s.incoming := by
      rw [PipeEnd.wrote, PipeEnd.out, incoming]
      rw [deallocated, queue]
      rfl
    have after : e.wrote (s.others hwms false (s.mail false)) = t.incoming := by
      rw [PipeEnd.wrote, PipeEnd.out, incoming, put.queue, put.accepted]
      rfl
    rw [← after]
    exact far.linked (before.symm ▸ linked)
  · have grows := far.grows
    rw [PipeEnd.out, PipeEnd.out, deallocated, queue] at grows
    rw [put.queue]
    exact grows

/-- Credentials are written at the start of a message. -/
def Plain (s : PipePair α) : PipeAct α → Prop
  | .call (.write m) => m.isCredential = true → (s.queues false).unfinished = []
  | _ => True

theorem remote_spec (sane : s.Sane hwms) (action : PipeAct α) (plain : s.Plain action) :
    ∃ t, s.act false action = some t ∧ t.Sane hwms ∧ s.Remote t := by
  obtain ⟨t, stepped, sane'⟩ := step_sane sane (false, action)
  refine ⟨t, stepped, sane', ?_⟩
  obtain ⟨sound, -⟩ := sane.sound false
  rw [step, act.eq_def] at stepped
  cases action with
  | command =>
    dsimp only at stepped
    split at stepped
    · obtain rfl := Option.some.inj stepped
      exact ⟨rfl, rfl, rfl, rfl, rfl, id, List.prefix_refl _⟩
    · rw [Option.ite_none_left_eq_some] at stepped
      obtain ⟨e, done, put⟩ := Option.bind_eq_some_iff.mp stepped.2
      exact Remote.of_put hwms (put_spec put) (PipeEnd.process_far done)
  | call call =>
    dsimp only at stepped
    split at stepped
    · obtain rfl := Option.some.inj stepped
      exact ⟨rfl, rfl, rfl, rfl, rfl, id, List.prefix_refl _⟩
    · obtain ⟨e, called, put⟩ := Option.bind_eq_some_iff.mp stepped
      refine Remote.of_put hwms (put_spec put)
        (PipeEnd.call_far called sound (fun outPipe here => ?_) fun m write credential => ?_)
      · have open_end := (sound.connected outPipe).1
        simp [Phase.sentAck, Pipe.phase, here] at open_end
      · subst write
        have unfinished := plain credential
        rw [PipeEnd.out]
        exact (congrArg Channel.unfinished (pipeEnd_queue s false)).trans unfinished

end PipePair

/-! ### A socket that waits -/

/-- A pipe that has something to read wakes up, or is to be woken up. -/
def Pipes.Attentive (pipes : Pipes π α) : Prop :=
  ∀ p s, pipes p = some s → (s.pipes true).gone = false → (s.pipes true).opened = true →
    (s.queues false).sent ≠ [] → .activateRead ∈ s.mail true

theorem Fq.Fits.attentive {hwms : π → Bool → Nat} {f : Fq π} {pipes : Pipes π α}
    (fits : f.Fits pipes) (sane : pipes.Sane hwms) (none_active : f.pipes.active = 0) :
    pipes.Attentive := by
  intro p s found running opened left
  have asleep : (s.pipes true).inActive = false := by
    have active := (fits.knows p s found).active running opened
    cases awake : (s.pipes true).inActive with
    | false => rfl
    | true => exact absurd (active.mpr awake).some_active (by omega)
  have reads : (s.pipes true).phase.reads = true := by
    rw [Pipe.opened, Bool.or_eq_true, beq_iff_eq, beq_iff_eq] at opened
    rcases opened with here | here <;> rw [Phase.reads, Pipe.phase, here]
  exact (sane p s found false).1.not_stuck reads asleep left

/-- A pipe that takes no messages has some that the other end has not read, or is to be told that
they were read. -/
def Pipes.Busy (pipes : Pipes π α) : Prop :=
  ∀ p s, pipes p = some s → (s.pipes true).gone = false → (s.pipes true).state = .active →
    (s.received false).countP PipeMsg.counts < (s.accepted true).countP PipeMsg.counts ∨
      ∃ msgsRead, .activateWrite msgsRead ∈ s.mail true

/-! ### What every step of a dealer keeps -/

/-- A complete message, of one part or several ones. -/
def Complete (ms : List (PipeMsg α)) : Prop :=
  ∃ parts m, ms = parts ++ [m] ∧ (∀ n ∈ parts, n.forUser = true ∧ n.more = true) ∧
    m.forUser = true ∧ m.more = false

namespace Pipes

/-- No pipe of the socket is taken down. -/
def Work (pipes : Pipes π α) : Prop := ∀ p s, pipes p = some s → (s.pipes true).state = .active

theorem Work.of_writes {before after : Pipes π α} (work : after.Work)
    (writes : before.Writes after) : before.Work := by
  intro p s found
  obtain ⟨t, later, same⟩ := writes.after found
  exact same.state.symm.trans (work p t later)

variable [DecidableEq π]

variable {before after : Pipes π α} {got : List (π × PipeMsg α)}

theorem Reads.received_eq (reads : before.Reads after got)
    (attached : ∀ m ∈ got, before.Attached m.1) (p : π) :
    after.received p = before.received p ++ (got.filter fun m => m.1 = p).map Prod.snd := by
  cases first : before p with
  | none =>
    have unread : (got.filter fun m => m.1 = p) = [] := by
      rw [List.filter_eq_nil_iff]
      intro m member same
      obtain rfl : m.1 = p := by simpa using same
      exact not_attached first (attached m member)
    have second : after p = none := by
      by_contra found
      obtain ⟨t, found⟩ := Option.ne_none_iff_exists'.mp found
      obtain ⟨s, known, -⟩ := reads.before found
      cases first.symm.trans known
    simp [received, first, second, unread]
  | some s =>
    obtain ⟨t, second, same⟩ := reads.after first
    simpa [received, first, second] using same.received

theorem Reads.accepted_eq (reads : before.Reads after got) (p : π) :
    after.accepted p = before.accepted p := by
  have pair := reads p
  rw [accepted, accepted]
  revert pair
  cases before p <;> cases after p <;> intro pair
  · rfl
  · cases pair
  · cases pair
  · have same := (Option.rel_some_some.mp pair).accepted
    simp [same]

theorem Work.of_update {pipes : Pipes π α} {p : π} {u v : PipePair α}
    (work : Work (Function.update pipes p (some v))) (found : pipes p = some u)
    (state : (v.pipes true).state = .active → (u.pipes true).state = .active) : pipes.Work := by
  intro q t here
  by_cases same : q = p
  · subst same
    obtain rfl : u = t := Option.some.inj (found.symm.trans here)
    exact state (work q v (Function.update_self ..))
  · exact work q t (by rw [Function.update_of_ne same, here])

theorem Work.of_reads {before after : Pipes π α} {got : List (π × PipeMsg α)} (work : after.Work)
    (reads : before.Reads after got) : before.Work := by
  intro p s found
  obtain ⟨t, later, same⟩ := reads.after found
  exact same.state (work p t later)

end Pipes

variable [DecidableEq π]

namespace Dealer

variable {hwms : π → Bool → Nat} {s : Dealer π α} {p : π}

structure Fits (hwms : π → Bool → Nat) (s : Dealer π α) : Prop where
  sane : s.pipes.Sane hwms
  fq : s.fq.Fits s.pipes
  lb : s.lb.Fits s.pipes s.parts
  received : ∀ p, (s.received.filter fun m => m.1 = p).map Prod.snd = s.pipes.received p
  /-- The parts of a message follow each other. -/
  together : s.received.IsChain fun m n => m.2.more = true → n.1 = m.1
  goes_on : ∀ p m, s.received.getLast? = some (p, m) → m.more = true →
    s.fq.more = true ∧ s.fq.pipes.next = some p
  accepted : ∀ p, s.pipes.accepted p =
    (s.messages.filter fun m => m.1 = some p).flatMap Prod.snd
  complete : ∀ m ∈ s.messages, Complete m.2
  /-- A message is dropped only when a pipe is taken down. -/
  kept : s.pipes.Work → s.lb.dropping = false ∧ ∀ m ∈ s.messages, m.1 ≠ none

theorem initial_fits (hwms : π → Bool → Nat) : (initial : Dealer π α).Fits hwms := by
  have alone (p : π) : ¬Pipes.Attached (fun _ => none : Pipes π α) p := Pipes.not_attached rfl
  refine ⟨fun p s found => ?_, ⟨fun p => ?_, fun p s found => ?_, fun more => ?_⟩,
    ⟨fun p => ?_, fun p s found => ?_, fun _ _ => rfl, fun more => ?_, by simp [initial]⟩,
    fun p => rfl, List.isChain_nil, by simp [initial], fun p => rfl, by simp [initial],
    fun _ => ⟨rfl, by simp [initial]⟩⟩
  · cases found
  · exact iff_of_false List.not_mem_nil (alone p)
  · cases found
  · cases more
  · exact iff_of_false List.not_mem_nil (alone p)
  · cases found
  · cases more

/-- A change of one pipe, and what fair queueing and load balancing make of it. -/
theorem Fits.change {f : Fq π} {l : Lb π} {u v : PipePair α} (fits : s.Fits hwms)
    (found : s.pipes p = some u) (sane : v.Sane (hwms p))
    (fq : f.Fits (Function.update s.pipes p (some v))) (keeps : s.fq.Keeps f)
    (lb : l.Fits (Function.update s.pipes p (some v)) s.parts)
    (accepted : (v.accepted true).filter PipeMsg.content =
      (u.accepted true).filter PipeMsg.content)
    (received : v.received true = u.received true)
    (state : (v.pipes true).state = .active → (u.pipes true).state = .active)
    (dropping : (v.pipes true).state = .active → l.dropping = s.lb.dropping) :
    Fits hwms { s with pipes := Function.update s.pipes p (some v), fq := f, lb := l } := by
  refine ⟨fits.sane.update sane, fq, lb, fun q => ?_, fits.together, fun q m last more => ?_,
    fun q => ?_, fits.complete, fun work => ?_⟩
  · have same : Pipes.received (Function.update s.pipes p (some v)) q = s.pipes.received q := by
      by_cases here : q = p
      · subst here
        simp [Pipes.received, found, received]
      · simp [Pipes.received, here]
    exact (fits.received q).trans same.symm
  · obtain ⟨more, turn⟩ := fits.goes_on q m last more
    exact ⟨keeps.more.trans more, (keeps.turn more).trans turn⟩
  · have same : Pipes.accepted (Function.update s.pipes p (some v)) q = s.pipes.accepted q := by
      by_cases here : q = p
      · subst here
        simp [Pipes.accepted, found, accepted]
      · simp [Pipes.accepted, here]
    exact same.trans (fits.accepted q)
  · obtain ⟨sending, all⟩ := fits.kept (work.of_update found state)
    exact ⟨(dropping (work p v (Function.update_self ..))).trans sending, all⟩

theorem Fits.attach (fits : s.Fits hwms) (p : π) :
    ∃ t, s.attach (hwms p) p = some t ∧ t.Fits hwms := by
  rw [Dealer.attach]
  cases new : s.pipes p with
  | some u => exact ⟨s, rfl, fits⟩
  | none =>
    obtain ⟨f, attached, fq, keeps⟩ := fits.fq.attach new (hwms p)
    obtain ⟨l, balanced, lb, dropping⟩ := fits.lb.attach new (hwms p)
    rw [attached, Option.bind_some, balanced]
    refine ⟨_, rfl, fits.sane.update (PipePair.initial_sane (hwms p)), fq, lb, fun q => ?_,
      fits.together, fun q m last more => ?_, fun q => ?_, fits.complete, fun work => ?_⟩
    · rw [fits.received]
      by_cases here : q = p
      · subst here
        simp [Pipes.received, new, PipePair.initial]
      · simp [Pipes.received, here]
    · obtain ⟨more, turn⟩ := fits.goes_on q m last more
      exact ⟨keeps.more.trans more, (keeps.turn more).trans turn⟩
    · rw [← fits.accepted]
      by_cases here : q = p
      · subst here
        simp [Pipes.accepted, new, PipePair.initial]
      · simp [Pipes.accepted, here]
    · have before : s.pipes.Work := by
        intro q u found
        have other : q ≠ p := by
          rintro rfl
          cases new.symm.trans found
        exact work q u ((Function.update_of_ne other _ _).trans found)
      obtain ⟨sending, all⟩ := fits.kept before
      exact ⟨dropping.trans sending, all⟩

theorem Fits.recv (fits : s.Fits hwms) : ∃ t, s.recv = some t ∧ t.Fits hwms := by
  obtain ⟨found, f, after, looped, sane, received⟩ :=
    Fq.recvLoop_spec _ rfl fits.sane fits.fq
  have reads := received.reads
  rw [Dealer.recv, Fq.recvpipe, looped]
  refine ⟨_, rfl, sane, received.fits, fits.lb.reads reads, fun q => ?_, ?_,
    fun q m last more => ?_, fun q => ?_, fits.complete,
    fun work => fits.kept (work.of_reads reads)⟩
  · rw [List.filter_append, List.map_append, fits.received, reads.received_eq]
    rintro ⟨q, m⟩ here
    exact received.attached q m (by simpa using here)
  · -- What follows a part that is to be continued comes of the pipe whose turn it is.
    refine fits.together.append (by cases found <;> simp) ?_
    rintro ⟨q, m⟩ last ⟨r, n⟩ new more
    obtain ⟨going, turn⟩ := fits.goes_on q m last more
    obtain rfl : found = some (r, n) := by cases found <;> simp_all
    exact Option.some.inj ((received.goes_on r n rfl going).symm.trans turn)
  · cases found with
    | none =>
      have before : s.received.getLast? = some (q, m) := by simpa using last
      have going := (fits.goes_on q m before more).1
      simp [(received.nothing rfl).2] at going
    | some new =>
      obtain ⟨r, n⟩ := new
      obtain ⟨rfl, rfl⟩ : r = q ∧ n = m := by simpa using last
      obtain ⟨same, turn⟩ := received.more r n rfl
      exact ⟨same.trans more, turn more⟩
  · rw [reads.accepted_eq, fits.accepted]

theorem Fits.hasIn (fits : s.Fits hwms) : ∃ t, s.hasIn = some t ∧ t.Fits hwms := by
  rw [Dealer.hasIn, Fq.hasIn]
  cases more : s.fq.more with
  | true => exact ⟨s, rfl, fits⟩
  | false =>
    obtain ⟨answer, f, after, looped, sane, fq, reads, -⟩ :=
      Fq.hasInLoop_spec _ rfl more fits.sane fits.fq
    rw [if_neg (by simp), looped]
    refine ⟨_, rfl, sane, fq, fits.lb.reads reads, fun q => ?_, fits.together,
      fun q m last going => ?_, fun q => ?_, fits.complete,
      fun work => fits.kept (work.of_reads reads)⟩
    · rw [fits.received, reads.received_eq (by simp)]
      simp
    · have before := (fits.goes_on q m last going).1
      simp [more] at before
    · rw [reads.accepted_eq, fits.accepted]

theorem Fits.hasOut (fits : s.Fits hwms) : ∃ t, s.hasOut = some t ∧ t.Fits hwms := by
  obtain ⟨answer, l, after, asks, sane, asked⟩ := Lb.hasOut_spec fits.sane fits.lb
  rw [Dealer.hasOut, asks]
  exact ⟨_, rfl, sane, fits.fq.writes asked.writes, asked.fits,
    fun q => (fits.received q).trans (asked.writes.received_eq q).symm, fits.together, fits.goes_on,
    fun q => (asked.accepted q).trans (fits.accepted q), fits.complete, fun work => by
      rw [asked.dropping]
      exact fits.kept (work.of_writes asked.writes)⟩

theorem filter_concat (messages : List (Option π × List (PipeMsg α))) (pipe : Option π)
    (parts : List (PipeMsg α)) (q : π) :
    ((messages ++ [(pipe, parts)]).filter fun m => m.1 = some q).flatMap Prod.snd =
      (messages.filter fun m => m.1 = some q).flatMap Prod.snd ++
        if pipe = some q then parts else [] := by
  by_cases here : pipe = some q <;> simp [here]

/-- What was taken from the application is what was added to the pipes. -/
theorem take_accepted (s : Dealer π α) (m : PipeMsg α) (pipe : Option π) (q : π)
    (result : SendResult π) (same : Lb.added s.parts m q result =
      if m.more = false ∧ pipe = some q then s.parts ++ [m] else []) :
    ((s.take m pipe).messages.filter fun m => m.1 = some q).flatMap Prod.snd =
      (s.messages.filter fun m => m.1 = some q).flatMap Prod.snd ++
        Lb.added s.parts m q result := by
  rw [same, take]
  cases more : m.more with
  | true => simp
  | false =>
    have concat := filter_concat s.messages pipe (s.parts ++ [m]) q
    simpa using concat

theorem Fits.send (fits : s.Fits hwms) {m : PipeMsg α} (shown : m.forUser = true) :
    ∃ t, s.send m = some t ∧ t.Fits hwms := by
  obtain ⟨result, l, after, sent, sane, spec⟩ := Lb.sendpipe_spec shown fits.sane fits.lb
  rw [Dealer.send, sent]
  refine ⟨_, rfl, ?_⟩
  have fq := fits.fq.writes spec.writes
  have lb := spec.fits
  have received (q : π) := (fits.received q).trans (spec.writes.received_eq q).symm
  -- Nothing is dropped while all pipes work, as only a pipe that is taken down loses its message.
  have kept (work : after.Work) : l.dropping = false ∧ result ≠ .lost ∧ result ≠ .sent none ∧
      ∀ m ∈ s.messages, m.1 ≠ none := by
    have before := work.of_writes spec.writes
    obtain ⟨sending, all⟩ := fits.kept before
    have found : result ≠ .lost := by
      intro lost
      obtain ⟨-, p, u, -, here, ended⟩ := spec.lost lost
      exact ended (before p u here)
    refine ⟨?_, found, fun drop => by simp [spec.dropped drop] at sending, all⟩
    by_contra dropping
    rcases spec.dropping (by simpa using dropping) with old | lost
    · simp [old] at sending
    · exact found lost
  -- A part that is sent and one that is lost are both taken from the application.
  have taken (pipe : Option π)
      (left : Lb.left s.parts m result = if m.more then s.parts ++ [m] else [])
      (added : ∀ q, Lb.added s.parts m q result =
        if m.more = false ∧ pipe = some q then s.parts ++ [m] else [])
      (known : after.Work → pipe ≠ none) :
      Fits hwms (take { s with pipes := after, lb := l } m pipe) := by
    have accepted (q : π) := spec.accepted q
    have counted (q : π) :=
      take_accepted { s with pipes := after, lb := l } m pipe q result (added q)
    rw [left] at lb
    rw [take] at counted ⊢
    cases more : m.more with
    | true =>
      simp only [more, if_true] at lb counted ⊢
      refine ⟨sane, fq, lb, received, fits.together, fits.goes_on, fun q => ?_, fits.complete,
        fun work => ⟨(kept work).1, (kept work).2.2.2⟩⟩
      rw [accepted, fits.accepted]
      exact (counted q).symm
    | false =>
      simp only [more, Bool.false_eq_true, if_false] at lb counted ⊢
      refine ⟨sane, fq, lb, received, fits.together, fits.goes_on, fun q => ?_, fun n member => ?_,
        fun work => ⟨(kept work).1, fun n member => ?_⟩⟩
      · rw [accepted, fits.accepted]
        exact (counted q).symm
      · rcases List.mem_append.mp member with old | new
        · exact fits.complete n old
        · obtain rfl : n = (pipe, s.parts ++ [m]) := by simpa using new
          exact ⟨s.parts, m, rfl, fits.lb.parts, shown, more⟩
      · rcases List.mem_append.mp member with old | new
        · exact (kept work).2.2.2 n old
        · obtain rfl : n = (pipe, s.parts ++ [m]) := by simpa using new
          exact known work
  cases result with
  | sent pipe =>
    refine taken pipe rfl (fun q => ?_) fun work none_taken =>
      (kept work).2.2.1 (by rw [none_taken])
    cases pipe with
    | none => simp [Lb.added]
    | some p => simp only [Lb.added, Option.some.injEq, and_comm]
  | again =>
    refine ⟨sane, fq, lb, received, fits.together, fits.goes_on, fun q => ?_, fits.complete,
      fun work => ⟨(kept work).1, (kept work).2.2.2⟩⟩
    rw [spec.accepted, Lb.added, List.append_nil]
    exact fits.accepted q
  | lost =>
    exact taken none rfl (fun q => by simp [Lb.added]) fun work => absurd rfl (kept work).2.1

theorem Fits.terminate (fits : s.Fits hwms) (p : π) (delay : Bool)
    (calm : s.fq.more = true → s.fq.pipes.next ≠ some p) :
    ∃ t, s.terminate p delay = some t ∧ t.Fits hwms := by
  rw [Dealer.terminate]
  cases found : s.pipes p with
  | none => exact ⟨s, rfl, fits⟩
  | some u =>
    cases running : (u.pipes true).gone with
    | true => exact ⟨s, by simp [running], fits⟩
    | false =>
      obtain ⟨sound, paid⟩ := (fits.sane p u found).sound true
      obtain ⟨e, ended, kept, paid'⟩ := sound.terminate paid running delay
      obtain ⟨v, ran, sane, put⟩ := Pipes.run_spec (f := (·.terminate delay)) fits.sane found
        running ended kept paid'
      have ends := PipeEnd.terminate_effect ended fun outPipe here => by
        have open_end := (sound.connected outPipe).1
        simp [Phase.sentAck, Pipe.phase, here] at open_end
      have state : (v.pipes true).state ≠ .active := by
        rw [put.pipe]
        exact ends.state
      have gone : (v.pipes true).gone = (u.pipes true).gone := by
        rw [put.pipe, ends.gone]
        rfl
      have received : v.received true = u.received true := put.received.trans ends.received
      simp only [running, Bool.false_eq_true, if_false, ran]
      refine ⟨_, rfl, fits.change found (sane p v (Function.update_self ..)) ?_ (.refl s.fq) ?_
        (by rw [put.accepted]; exact ends.accepted) received
        (fun active => absurd active state) fun active => absurd active state⟩
      · refine fits.fq.change found gone (by rw [put.pipe]; exact ends.inActive)
          (by rw [put.pipe]; exact ends.opened) (fun active => absurd active state) ?_ received
          (fun more turn => absurd turn (calm more))
        rw [put.incoming (by rw [ends.inpipe]; rfl)]
        exact id
      · refine fits.lb.change found ⟨gone, fun active => absurd active state, fun ready => ?_,
          fun active => absurd active state, fun active => absurd active state⟩
          fun active => absurd active state
        rw [put.queue]
        refine ends.ready _ ?_
        rw [PipePair.pipeEnd_queue]
        exact ready

theorem Fits.remote (fits : s.Fits hwms) (p : π) (action : PipeAct α)
    (plain : ∀ u, s.pipes p = some u → u.Plain action) :
    ∃ t, s.remote p action = some t ∧ t.Fits hwms := by
  rw [Dealer.remote]
  cases found : s.pipes p with
  | none => exact ⟨s, rfl, fits⟩
  | some u =>
    obtain ⟨v, acted, sane, far⟩ :=
      PipePair.remote_spec (fits.sane p u found) action (plain u found)
    simp only [acted]
    refine ⟨_, rfl, fits.change found sane ?_ (.refl s.fq) ?_ (by rw [far.accepted]) far.received
      (by rw [far.pipe]; exact id) fun _ => rfl⟩
    · refine fits.fq.change found (by rw [far.pipe]) (by rw [far.pipe]) (by rw [far.pipe]; exact id)
        (fun state => ?_) far.linked far.received (fun _ _ => by rw [far.pipe]; exact id)
      rw [far.pipe] at state ⊢
      exact ⟨state, rfl⟩
    · refine fits.lb.change found ⟨by rw [far.pipe], by rw [far.pipe]; exact id,
        by rw [far.ready]; exact id, fun _ => far.unfinished, fun _ => by rw [far.pipe]; exact id⟩
        fun _ => by rw [far.pipe]

/-- The next command takes the pipe down. -/
def Removes (s : Dealer π α) (p : π) : Prop :=
  ∃ u, s.pipes p = some u ∧ (u.mail true).head? = some .pipeTermAck

omit [DecidableEq π] in
theorem notifies_removes {u : PipePair α} {p : π} {command : PipeCommand}
    {mail : List PipeCommand} (found : s.pipes p = some u) (first : u.mail true = command :: mail)
    (event : (u.pipeEnd true).notifies command = some .pipeTerminated) : s.Removes p := by
  refine ⟨u, found, ?_⟩
  rw [first]
  cases command with
  | pipeTermAck => rfl
  | pipeTerm => cases event
  | activateRead | activateWrite =>
    rw [PipeEnd.notifies] at event
    split at event <;> cases event

theorem Fits.command (fits : s.Fits hwms) (p : π)
    (receiving : s.Removes p → s.fq.more = true → s.fq.pipes.Steady p)
    (sending : s.Removes p → s.lb.more = true → s.lb.dropping = false →
      s.lb.pipes.next ≠ some p → s.lb.pipes.Steady p) :
    ∃ t, s.command p = some t ∧ t.Fits hwms := by
  rw [Dealer.command]
  cases found : s.pipes p with
  | none => exact ⟨s, rfl, fits⟩
  | some u =>
    cases mail : u.mail true with
    | nil => exact ⟨s, by simp [mail], fits⟩
    | cons command rest =>
      obtain ⟨v, acted, sane, served⟩ :=
        PipePair.command_spec (fits.sane p u found) mail
      simp only [mail, acted, Option.bind_some]
      have told := served.told
      have delay := (fits.fq.knows p u found).delay
      have linked : Linked u.incoming → Linked v.incoming := by
        rw [served.incoming]
        exact id
      have same (gone : (v.pipes true).gone = (u.pipes true).gone) : Lb.Same u v :=
        ⟨gone, served.serves.state, by rw [served.queue]; exact id, fun _ => by rw [served.queue],
          fun _ => served.room⟩
      have accepted : (v.accepted true).filter PipeMsg.content =
          (u.accepted true).filter PipeMsg.content := by rw [served.accepted]
      -- The pipe has changed already when the socket is told.
      cases event : (u.pipeEnd true).notifies command with
      | none =>
        rw [event] at told
        obtain ⟨inActive, outActive, gone⟩ := told
        refine ⟨_, rfl, fits.change found sane ?_ (.refl s.fq) ?_ accepted served.received
          served.serves.state fun _ => rfl⟩
        · exact fits.fq.change found gone inActive served.serves.opened
            (fun state => ⟨served.serves.state state, served.serves.delay⟩) linked served.received
            (fun _ _ opened => served.serves.patient opened delay)
        · exact fits.lb.change found (same gone) fun _ => outActive
      | some happened =>
        rw [event] at told
        cases happened with
        | readActivated =>
          obtain ⟨asleep, opened, pipe⟩ := told
          have pipe : v.pipes true = { u.pipes true with inActive := true } := pipe
          obtain ⟨f, activated, fq, keeps⟩ :=
            fits.fq.activated found served.running opened asleep pipe served.incoming
          have lb := fits.lb.change found (same (by rw [pipe])) fun _ => by rw [pipe]
          simp only [notified, activated]
          exact ⟨_, rfl, fits.change found sane fq keeps lb accepted served.received
            served.serves.state fun _ => rfl⟩
        | writeActivated =>
          obtain ⟨blocked, state, awake, inActive, gone⟩ := told
          obtain ⟨l, activated, lb, dropping⟩ :=
            fits.lb.activated found served.running state blocked (same gone) awake
          have fq := fits.fq.change found gone inActive served.serves.opened
            (fun state => ⟨served.serves.state state, served.serves.delay⟩) linked served.received
            (fun _ _ opened => served.serves.patient opened delay)
          simp only [notified, activated]
          exact ⟨_, rfl, fits.change found sane fq (.refl s.fq) lb accepted served.received
            served.serves.state fun _ => dropping⟩
        | pipeTerminated =>
          obtain ⟨closed, gone⟩ := told
          have removes := notifies_removes found mail event
          have ended : (v.pipes true).state ≠ .active := by
            intro state
            have opened : (u.pipes true).opened = true := by
              have before : (u.pipes true).state = .active := served.serves.state state
              simp [Pipe.opened, before]
            cases closed.symm.trans opened
          obtain ⟨f, removed, fq, keeps⟩ := fits.fq.pipeTerminated found served.running closed gone
            ended served.incoming (receiving removes)
          obtain ⟨l, dropped, lb⟩ := fits.lb.pipeTerminated found served.running gone ended
            (by rw [served.queue]; exact id) (sending removes)
          simp only [notified, removed, Option.bind_some, dropped]
          exact ⟨_, rfl, fits.change found sane fq keeps lb accepted served.received
            served.serves.state fun state => absurd state ended⟩

/-- No message is torn by a pipe that is taken down. -/
def Calm (s : Dealer π α) : DealerEvent π α → Prop
  | .terminate p _ => s.fq.more = true → s.fq.pipes.next ≠ some p
  | .command p => s.Removes p →
    (s.fq.more = true → s.fq.pipes.Steady p) ∧
      (s.lb.more = true → s.lb.dropping = false → s.lb.pipes.next ≠ some p → s.lb.pipes.Steady p)
  | .remote p action => ∀ u, s.pipes p = some u → u.Plain action
  | _ => True

theorem step_fits (s : Dealer π α) (event : DealerEvent π α) (fits : s.Fits hwms)
    (calm : s.Calm event) : ∃ t, s.step hwms event = some t ∧ t.Fits hwms := by
  cases event with
  | attach p => exact fits.attach p
  | recv => exact fits.recv
  | hasIn => exact fits.hasIn
  | send body more => exact fits.send rfl
  | hasOut => exact fits.hasOut
  | terminate p delay => exact fits.terminate p delay calm
  | command p =>
    exact fits.command p (fun removes => (calm removes).1) fun removes => (calm removes).2
  | remote p action => exact fits.remote p action calm

theorem run_fits (hwms : π → Bool → Nat) (events : List (DealerEvent π α))
    (calm : Transition.Meets (step hwms) Calm initial events) :
    ∃ s, Transition.run (step hwms) initial events = some s ∧ s.Fits hwms :=
  Transition.run_guarded (step hwms) (Fits hwms) Calm step_fits _ events (initial_fits hwms) calm

end Dealer

/-! ### What the application can rely on -/

/-- The parts of a message are received one after the other, and of one pipe. What was received of a
pipe is the first of what the other end has written, in its order. No pipe hiccups: a session that
connects again would have its pipe terminated in the middle of a message. -/
theorem dealer_receives_whole (hwms : π → Bool → Nat) (events : List (DealerEvent π α))
    (calm : Transition.Meets (Dealer.step hwms) Dealer.Calm .initial events) :
    ∃ s, Transition.run (Dealer.step hwms) .initial events = some s ∧
      s.received.IsChain (fun m n => m.2.more = true → n.1 = m.1) ∧
      ∀ p u, s.pipes p = some u →
        (s.received.filter fun m => m.1 = p).map Prod.snd <+:
          (u.accepted false).filter PipeMsg.forUser := by
  obtain ⟨s, ran, fits⟩ := Dealer.run_fits hwms events calm
  refine ⟨s, ran, fits.together, fun p u found => ?_⟩
  have log := (fits.sane p u found false).1.data.log
  have here : s.pipes.received p = (u.received true).filter PipeMsg.forUser := by
    rw [Pipes.received, found]
    rfl
  rw [fits.received, here, log, List.filter_append]
  exact List.prefix_append ..

/-- Two pipes are attached; a message of two parts comes through the second one. -/
theorem dealer_receives_whole_once :
    ∃ s, Transition.run (Dealer.step fun _ _ => 1) .initial
        [.attach 0, .attach 1, .remote 1 (.call (.write (.msg 5 true false false))),
          .remote 1 (.call (.write (.msg 6 false false false))), .remote 1 (.call .flush), .recv,
          .recv] = some s ∧
      s.received.IsChain (fun m n => m.2.more = true → n.1 = m.1) ∧
      ∀ p u, s.pipes p = some u →
        (s.received.filter fun m => m.1 = p).map Prod.snd <+:
          (u.accepted false).filter PipeMsg.forUser :=
  dealer_receives_whole (fun _ _ => 1) _
    ⟨trivial, fun _ _ => ⟨trivial, fun _ _ => ⟨fun _ _ credential => (by cases credential),
      fun _ _ => ⟨fun _ _ credential => (by cases credential), fun _ _ => ⟨fun _ _ => trivial,
        fun _ _ => ⟨trivial, fun _ _ => ⟨trivial, fun _ _ => trivial⟩⟩⟩⟩⟩⟩⟩

/-- While a message of the last active pipe is received, another pipe is taken down. The next part
comes of the first pipe. -/
theorem dealer_mixes_messages :
    ¬∀ events : List (DealerEvent Nat Nat), ∃ s,
      Transition.run (Dealer.step fun _ _ => 0) .initial events = some s ∧
      s.received.IsChain (fun m n => m.2.more = true → n.1 = m.1) := by
  intro all
  -- The pipe 2 is the last active one, and takes the place of the pipe 1; `_current` becomes 0.
  obtain ⟨s, ran, chain⟩ := all [.attach 0, .attach 1, .attach 2,
    .remote 0 (.call (.write (.msg 1 false false false))),
    .remote 0 (.call (.write (.msg 2 false false false))), .remote 0 (.call .flush),
    .remote 1 (.call (.write (.msg 3 false false false))), .remote 1 (.call .flush),
    .remote 2 (.call (.write (.msg 4 true false false))),
    .remote 2 (.call (.write (.msg 5 false false false))), .remote 2 (.call .flush),
    .recv, .recv, .recv, .terminate 1 false, .remote 1 .command, .remote 1 .command,
    .remote 1 (.call .read), .command 1, .command 1, .recv]
  have received : s.received = [(0, .msg 1 false false false), (1, .msg 3 false false false),
      (2, .msg 4 true false false), (0, .msg 2 false false false)] :=
    congrArg (Option.elim · [] Dealer.received) ran.symm
  rw [received] at chain
  simp [PipeMsg.more] at chain

/-- When a socket finds nothing to receive, or is told that there is nothing, every pipe of which
something could be received will be reported to it. -/
theorem dealer_never_oversleeps (hwms : π → Bool → Nat) (events : List (DealerEvent π α))
    (calm : Transition.Meets (Dealer.step hwms) Dealer.Calm .initial events) :
    ∃ s, Transition.run (Dealer.step hwms) .initial events = some s ∧
      (∀ f after, s.fq.recvpipe s.pipes = some (none, f, after) → after.Attentive) ∧
      ∀ f after, s.fq.hasIn s.pipes = some (false, f, after) → after.Attentive := by
  obtain ⟨s, ran, fits⟩ := Dealer.run_fits hwms events calm
  refine ⟨s, ran, fun f after nothing => ?_, fun f after nothing => ?_⟩
  · obtain ⟨found, g, next, looped, sane, received⟩ :=
      Fq.recvLoop_spec _ rfl fits.sane fits.fq
    rw [Fq.recvpipe, looped] at nothing
    obtain ⟨rfl, rfl, rfl⟩ : found = none ∧ g = f ∧ next = after := by simpa using nothing
    exact received.fits.attentive sane (received.nothing rfl).1
  · rw [Fq.hasIn] at nothing
    cases more : s.fq.more with
    | true => simp [more] at nothing
    | false =>
      obtain ⟨answer, g, next, looped, sane, known, -, none_active⟩ :=
        Fq.hasInLoop_spec _ rfl more fits.sane fits.fq
      rw [if_neg (by simp [more]), looped] at nothing
      obtain ⟨rfl, rfl, rfl⟩ : answer = false ∧ g = f ∧ next = after := by simpa using nothing
      exact known.attentive sane (none_active rfl)

/-- The socket finds nothing before the other end has flushed its message. -/
theorem dealer_never_oversleeps_once :
    ∃ s, Transition.run (Dealer.step fun _ _ => 1) .initial
        [.attach 0, .recv, .remote 0 (.call (.write (.msg 5 false false false))),
          .remote 0 (.call .flush)] = some s ∧
      (∀ f after, s.fq.recvpipe s.pipes = some (none, f, after) → after.Attentive) ∧
      ∀ f after, s.fq.hasIn s.pipes = some (false, f, after) → after.Attentive :=
  dealer_never_oversleeps (fun _ _ => 1) _
    ⟨trivial, fun _ _ => ⟨trivial, fun _ _ => ⟨fun _ _ credential => (by cases credential),
      fun _ _ => ⟨fun _ _ => trivial, fun _ _ => trivial⟩⟩⟩⟩

/-- What an application sends is not mixed up. Every complete message is in one pipe as a whole, or
in none; the pipes hold nothing else (they were empty when they were attached), in the order in
which it was sent, and nothing that is complete is kept back. A message of which a part was taken is
not refused, and while no pipe is taken down and no watermark is changed no message is dropped. -/
theorem dealer_sends_whole (hwms : π → Bool → Nat) (events : List (DealerEvent π α))
    (calm : Transition.Meets (Dealer.step hwms) Dealer.Calm .initial events) :
    ∃ s, Transition.run (Dealer.step hwms) .initial events = some s ∧
      (∀ m ∈ s.messages, Complete m.2) ∧
      (∀ p u, s.pipes p = some u →
        (u.accepted true).filter PipeMsg.content =
            (s.messages.filter fun m => m.1 = some p).flatMap Prod.snd ∧
          (u.queues true).ready = [] ∧ u.received false <+: u.accepted true) ∧
      (s.parts ≠ [] → ∀ m l after, m.forUser = true →
        s.lb.sendpipe s.pipes m ≠ some (.again, l, after)) ∧
      (s.pipes.Work → ∀ m ∈ s.messages, m.1 ≠ none) := by
  obtain ⟨s, ran, fits⟩ := Dealer.run_fits hwms events calm
  refine ⟨s, ran, fits.complete, fun p u found => ⟨?_, (fits.lb.knows p u found).ready, ?_⟩,
    fun part m l after shown refused => ?_, fun work => (fits.kept work).2⟩
  · rw [← fits.accepted, Pipes.accepted, found]
    rfl
  · have log := (fits.sane p u found true).1.data.log
    exact ⟨_, log.symm⟩
  · obtain ⟨result, g, next, sent, -, spec⟩ := Lb.sendpipe_spec shown fits.sane fits.lb
    rw [sent] at refused
    obtain ⟨rfl, -⟩ : result = .again ∧ _ := by simpa using refused
    obtain ⟨-, single, sending⟩ := spec.refused rfl
    exact part (fits.lb.idle single sending)

/-- A message of two parts goes to the one pipe, and one of one part to the other. -/
theorem dealer_sends_whole_twice :
    ∃ s, Transition.run (Dealer.step fun _ _ => 1) .initial
        [.attach 0, .attach 1, .send 5 true, .send 6 false, .send 7 false] = some s ∧
      (∀ m ∈ s.messages, Complete m.2) ∧
      (∀ p u, s.pipes p = some u →
        (u.accepted true).filter PipeMsg.content =
            (s.messages.filter fun m => m.1 = some p).flatMap Prod.snd ∧
          (u.queues true).ready = [] ∧ u.received false <+: u.accepted true) ∧
      (s.parts ≠ [] → ∀ m l after, m.forUser = true →
        s.lb.sendpipe s.pipes m ≠ some (.again, l, after)) ∧
      (s.pipes.Work → ∀ m ∈ s.messages, m.1 ≠ none) :=
  dealer_sends_whole (fun _ _ => 1) _
    ⟨trivial, fun _ _ => ⟨trivial, fun _ _ => ⟨trivial, fun _ _ => ⟨trivial,
      fun _ _ => ⟨trivial, fun _ _ => trivial⟩⟩⟩⟩⟩

theorem Dealer.Fits.busy {hwms : π → Bool → Nat} {s : Dealer π α} (fits : s.Fits hwms)
    (small : ∀ p, hwms p true < intMax) (none_active : s.lb.pipes.active = 0) : s.pipes.Busy := by
  intro p u found running state
  have blocked : (u.pipes true).outActive = false := by
    have active := (fits.lb.knows p u found).active running state
    cases free : (u.pipes true).outActive with
    | false => rfl
    | true => exact absurd (active.mpr free).some_active (by omega)
  -- What is not the delimiter was sent by the application, so it is not a credential.
  refine (fits.sane p u found true).1.not_full (small p) (fun m member => ?_) state blocked
  cases delimiter : m.isDelimiter with
  | true =>
    cases m with
    | msg => cases delimiter
    | delimiter => rfl
  | false =>
    have kept : m ∈ s.pipes.accepted p := by
      rw [Pipes.accepted, found]
      exact List.mem_filter.mpr ⟨member, by simp [PipeMsg.content, delimiter]⟩
    rw [fits.accepted, List.mem_flatMap] at kept
    obtain ⟨message, sent, part⟩ := kept
    obtain ⟨parts, last, split, shown, shown', -⟩ :=
      fits.complete message (List.mem_of_mem_filter sent)
    have seen : m.forUser = true := by
      rw [split] at part
      rcases List.mem_append.mp part with early | late
      · exact (shown m early).1
      · obtain rfl : m = last := by simpa using late
        exact shown'
    exact ((PipeMsg.forUser_iff m).mp seen).1

/-- When a socket refuses a message, or says that it would, it is refused by every pipe for a
reason that goes away: the other end has messages to read, or has read them and says so. This needs
watermarks that nobody changes and that are below `INT_MAX`. -/
theorem dealer_never_stalls (hwms : π → Bool → Nat) (small : ∀ p, hwms p true < intMax)
    (events : List (DealerEvent π α))
    (calm : Transition.Meets (Dealer.step hwms) Dealer.Calm .initial events) :
    ∃ s, Transition.run (Dealer.step hwms) .initial events = some s ∧
      (∀ m l after, m.forUser = true → s.lb.sendpipe s.pipes m = some (.again, l, after) →
        after.Busy) ∧
      ∀ l after, s.lb.hasOut s.pipes = some (false, l, after) → after.Busy := by
  obtain ⟨s, ran, fits⟩ := Dealer.run_fits hwms events calm
  refine ⟨s, ran, fun m l after shown refused => ?_, fun l after refused => ?_⟩
  · obtain ⟨t, sent, later⟩ := fits.send shown
    obtain ⟨result, g, next, sent', -, spec⟩ := Lb.sendpipe_spec shown fits.sane fits.lb
    rw [sent'] at refused
    obtain ⟨rfl, rfl, rfl⟩ : result = .again ∧ g = l ∧ next = after := by simpa using refused
    rw [Dealer.send, sent'] at sent
    obtain rfl := Option.some.inj sent
    exact later.busy small (spec.refused rfl).1
  · obtain ⟨t, asks, later⟩ := fits.hasOut
    obtain ⟨answer, g, next, asks', -, spec⟩ := Lb.hasOut_spec fits.sane fits.lb
    rw [asks'] at refused
    obtain ⟨rfl, rfl, rfl⟩ : answer = false ∧ g = l ∧ next = after := by simpa using refused
    rw [Dealer.hasOut, asks'] at asks
    obtain rfl := Option.some.inj asks
    exact later.busy small (spec.full rfl)

/-- The one pipe holds one message, and there is a second one. -/
theorem dealer_never_stalls_once :
    ∃ s, Transition.run (Dealer.step fun _ _ => 1) .initial
        [.attach 0, .send 5 false, .send 6 false, .hasOut] = some s ∧
      (∀ m l after, m.forUser = true → s.lb.sendpipe s.pipes m = some (.again, l, after) →
        after.Busy) ∧
      ∀ l after, s.lb.hasOut s.pipes = some (false, l, after) → after.Busy :=
  dealer_never_stalls (fun _ _ => 1) (fun _ => by decide) _
    ⟨trivial, fun _ _ => ⟨trivial, fun _ _ => ⟨trivial, fun _ _ => ⟨trivial, fun _ _ => trivial⟩⟩⟩⟩

end OfxZeroMQ
