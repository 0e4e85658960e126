import OfxZeroMQ.Properties.Dealer

/-!
# Nobody waits for ever

A pipe of which a message can be read has its turn when every other active pipe has had it once.
-/
namespace OfxZeroMQ

open Foundation

variable {π α β : Type}

namespace PipeEnd

/-- A message can be read of the queue. -/
def Holds (ms : List (PipeMsg α)) : Prop :=
  ∃ passed m rest, take ms = (passed, some m, rest) ∧ m.isDelimiter = false

theorem take_append {ms passed rest : List (PipeMsg α)} {m : PipeMsg α}
    (taken : take ms = (passed, some m, rest)) (ns : List (PipeMsg α)) :
    take (ms ++ ns) = (passed, some m, rest ++ ns) := by
  induction ms generalizing passed with
  | nil => cases taken
  | cons n ms ih =>
    rw [take] at taken
    rw [List.cons_append, take]
    cases credential : n.isCredential with
    | true =>
      rcases later : take ms with ⟨front, found, back⟩
      rw [credential, later] at taken
      obtain ⟨rfl, rfl, rfl⟩ : n :: front = passed ∧ found = some m ∧ back = rest := by
        simpa using taken
      rw [ih later]
      rfl
    | false =>
      rw [credential] at taken
      obtain ⟨rfl, rfl, rfl⟩ : [n] = passed ∧ n = m ∧ ms = rest := by simpa using taken
      rfl

theorem Holds.grow {ms ns : List (PipeMsg α)} (holds : Holds ms) (grows : ms <+: ns) :
    Holds ns := by
  obtain ⟨passed, m, rest, taken, single⟩ := holds
  obtain ⟨more, rfl⟩ := grows
  exact ⟨passed, m, rest ++ more, take_append taken more, single⟩

theorem read_holds {e e' : PipeEnd α} {found : Option (PipeMsg α)}
    (readable : canRead e.pipe = true) (holds : Holds e.inpipe.sent)
    (read : e.read = some (found, e')) : ∃ m, found = some m := by
  obtain ⟨passed, m, rest, taken, single⟩ := holds
  rw [PipeEnd.read, readable, taken] at read
  simp only [Bool.not_true, Bool.false_eq_true, if_false, single] at read
  split at read <;> exact ⟨m, (Prod.mk.inj (Option.some.inj read)).1.symm⟩

theorem checkRead_holds {e e' : PipeEnd α} {answer : Bool}
    (readable : canRead e.pipe = true) (holds : Holds e.inpipe.sent)
    (checked : e.checkRead = some (answer, e')) : answer = true := by
  obtain ⟨passed, m, rest, taken, single⟩ := holds
  rw [checkRead, readable] at checked
  cases queue : e.inpipe.sent with
  | nil =>
    rw [queue] at taken
    cases taken
  | cons n ms =>
    have first : n.isDelimiter = false := by
      rw [queue, take] at taken
      cases n with
      | msg => rfl
      | delimiter =>
        obtain ⟨-, rfl, -⟩ : _ ∧ PipeMsg.delimiter = m ∧ _ := by
          simpa [PipeMsg.isCredential] using taken
        exact single
    rw [queue] at checked
    simp only [Bool.not_true, Bool.false_eq_true, if_false, first] at checked
    exact (Prod.mk.inj (Option.some.inj checked)).1.symm

end PipeEnd

variable [DecidableEq π]

namespace Pipes

variable {pipes after : Pipes π α} {p : π}

theorem use_inv {f : PipeEnd α → Option (β × PipeEnd α)} {answer : β}
    (used : pipes.use p f = some (answer, after)) :
    ∃ s e t, pipes p = some s ∧ f (s.pipeEnd true) = some (answer, e) ∧
      s.put true (s.mail true) e = some t ∧ after = Function.update pipes p (some t) := by
  obtain ⟨s, found, rest⟩ := Option.bind_eq_some_iff.mp used
  rw [Option.ite_none_left_eq_some] at rest
  obtain ⟨⟨given, e⟩, called, put⟩ := Option.bind_eq_some_iff.mp rest.2
  obtain ⟨t, placed, same⟩ := Option.map_eq_some_iff.mp put
  obtain ⟨rfl, rfl⟩ := Prod.mk.inj same
  exact ⟨s, e, t, found, called, placed, rfl⟩

theorem run_inv {f : PipeEnd α → Option (PipeEnd α)} (ran : pipes.run p f = some after) :
    ∃ t, after = Function.update pipes p (some t) := by
  obtain ⟨⟨answer, next⟩, used, rfl⟩ := Option.map_eq_some_iff.mp ran
  obtain ⟨s, e, t, -, -, -, rfl⟩ := use_inv used
  exact ⟨t, rfl⟩

end Pipes

/-! ### Taking turns -/

namespace Fq

variable {f g : Fq π} {pipes after : Pipes π α} {p q : π}

/-- A message of the pipe waits for its turn. -/
structure Waits (f : Fq π) (pipes : Pipes π α) (p : π) : Prop where
  active : f.pipes.IsActive p
  holds : ∃ s, pipes p = some s ∧ PipeEnd.canRead (s.pipes true) = true ∧
    PipeEnd.Holds (s.queues false).sent

/-- What happens to another pipe does not end the waiting. -/
theorem Waits.other (waits : f.Waits pipes p) (other : p ≠ q) (t : Option (PipePair α)) :
    f.Waits (Function.update pipes q t) p := by
  obtain ⟨s, found, holds⟩ := waits.holds
  exact ⟨waits.active, s, (Function.update_of_ne other _ _).trans found, holds⟩

/-- A pipe goes on waiting when another one, whose turn it is, is found empty. -/
theorem Waits.deactivate (waits : f.Waits pipes p) (other : f.pipes.next ≠ some p) :
    Waits { f with pipes := f.pipes.deactivate } pipes p :=
  ⟨(Rotation.active_deactivate waits.active.some_active p).mpr ⟨waits.active, other⟩,
    waits.holds⟩

/-- Either the pipe that waits is read, or another one is and the pipe is nearer to its turn by each
complete message. -/
theorem recvLoop_fair (active : Nat) (count : f.pipes.active = active)
    (waits : f.Waits pipes p) {found : Option (π × PipeMsg α)}
    (looped : f.recvLoop active pipes = some (found, g, after)) :
    (∃ m, found = some (p, m)) ∨ ∃ q m, found = some (q, m) ∧ g.Waits after p ∧
      g.pipes.distance p + (if m.more then 0 else 1) ≤ f.pipes.distance p := by
  induction active generalizing f pipes with
  | zero => exact absurd waits.active.some_active (by omega)
  | succ active ih =>
    obtain ⟨q, turn, rest⟩ := Option.bind_eq_some_iff.mp looped
    obtain ⟨⟨got, next⟩, used, rest⟩ := Option.bind_eq_some_iff.mp rest
    obtain ⟨s, e, t, here, read, -, rfl⟩ := Pipes.use_inv used
    -- A pipe that has a message is not found empty: the loop ends with it, or before it.
    by_cases same : p = q
    · subst same
      obtain ⟨u, there, readable, holds⟩ := waits.holds
      obtain rfl : s = u := Option.some.inj (here.symm.trans there)
      obtain ⟨m, rfl⟩ := PipeEnd.read_holds readable holds read
      left
      dsimp only at rest
      split at rest <;> exact ⟨m, (Prod.mk.inj (Option.some.inj rest)).1.symm⟩
    · have later := waits.other same (some t)
      have behind : f.pipes.next ≠ some p := fun first =>
        same (Option.some.inj (first.symm.trans turn))
      cases got with
      | some m =>
        right
        dsimp only at rest
        cases more : m.more with
        | true =>
          -- The turn stays with the message that is not complete.
          rw [more, if_pos rfl] at rest
          obtain ⟨rfl, rfl, rfl⟩ : _ ∧ _ ∧ _ := by simpa using rest
          exact ⟨q, m, rfl, ⟨later.active, later.holds⟩, by simp [more]⟩
        | false =>
          rw [more, if_neg (by simp)] at rest
          obtain ⟨rfl, rfl, rfl⟩ : _ ∧ _ ∧ _ := by simpa using rest
          refine ⟨q, m, rfl,
            ⟨(Rotation.active_advance f.pipes p).mpr later.active, later.holds⟩, ?_⟩
          rw [more, if_neg (by simp)]
          exact (Rotation.distance_advance waits.active behind).le
      | none =>
        -- The pipe is empty and no longer active, and the loop goes on with fewer active ones.
        dsimp only at rest
        rw [Option.ite_none_left_eq_some] at rest
        have some_active := waits.active.some_active
        have moved := later.deactivate behind
        have fewer := Rotation.count_deactivate count
        have nearer := Rotation.distance_deactivate some_active moved.active
        rcases ih fewer moved rest.2 with own | ⟨r, m, other, waits', closer⟩
        · exact .inl own
        · exact .inr ⟨r, m, other, waits', closer.trans nearer⟩

/-- Looking for a message takes no turn away. -/
theorem hasInLoop_fair (active : Nat) (count : f.pipes.active = active)
    (waits : f.Waits pipes p) {found : Bool}
    (looped : f.hasInLoop active pipes = some (found, g, after)) :
    g.Waits after p ∧ g.pipes.distance p ≤ f.pipes.distance p := by
  induction active generalizing f pipes with
  | zero => exact absurd waits.active.some_active (by omega)
  | succ active ih =>
    obtain ⟨q, turn, rest⟩ := Option.bind_eq_some_iff.mp looped
    obtain ⟨⟨answer, next⟩, used, rest⟩ := Option.bind_eq_some_iff.mp rest
    obtain ⟨s, e, t, here, checked, put, rfl⟩ := Pipes.use_inv used
    by_cases same : p = q
    · subst same
      obtain ⟨u, there, readable, holds⟩ := waits.holds
      obtain rfl : s = u := Option.some.inj (here.symm.trans there)
      obtain rfl := PipeEnd.checkRead_holds readable holds checked
      obtain rfl : e = s.pipeEnd true := (PipeEnd.checkRead_effect checked).2
      obtain rfl : s = t := Option.some.inj ((s.put_same true).symm.trans put)
      obtain ⟨-, rfl, rfl⟩ : _ ∧ f = g ∧ _ := by simpa using rest
      exact ⟨⟨waits.active, s, Function.update_self .., readable, holds⟩, le_rfl⟩
    · have later := waits.other same (some t)
      have behind : f.pipes.next ≠ some p := fun first =>
        same (Option.some.inj (first.symm.trans turn))
      cases answer with
      | true =>
        obtain ⟨-, rfl, rfl⟩ : _ ∧ f = g ∧ _ := by simpa using rest
        exact ⟨later, le_rfl⟩
      | false =>
        dsimp only at rest
        rw [if_neg (by simp)] at rest
        have some_active := waits.active.some_active
        have moved := later.deactivate behind
        have fewer := Rotation.count_deactivate count
        have nearer := Rotation.distance_deactivate some_active moved.active
        obtain ⟨waits', closer⟩ := ih fewer moved rest
        exact ⟨waits', closer.trans nearer⟩

end Fq

/-! ### Whole steps -/

/-- How many of the messages are complete. -/
def completed (log : List (π × PipeMsg α)) : Nat := log.countP fun m => !m.2.more

namespace Dealer

variable {hwms : π → Bool → Nat} {s t : Dealer π α} {p : π}

/-- Neither the pipe is terminated nor another one taken down. -/
def Stays (p : π) (s : Dealer π α) : DealerEvent π α → Prop
  | .terminate q _ => q ≠ p
  | .command q => ¬s.Removes q
  | _ => True

/-- How many pipes have become active. -/
def joined (s t : Dealer π α) : Nat := t.fq.pipes.active - s.fq.pipes.active

/-- What a step makes of a pipe that waits. -/
def Closer (p : π) (s t : Dealer π α) (got : List (π × PipeMsg α)) : Prop :=
  (∃ m ∈ got, m.1 = p) ∨ t.fq.Waits t.pipes p ∧
    t.fq.pipes.distance p + completed got ≤ s.fq.pipes.distance p + s.joined t

omit [DecidableEq π] in
/-- A step that leaves fair queueing alone leaves the pipe where it is. -/
theorem Closer.of_same (fq : t.fq = s.fq) (waits : s.fq.Waits t.pipes p) : Closer p s t [] := by
  refine .inr ⟨fq ▸ waits, ?_⟩
  rw [fq]
  exact Nat.le_add_right ..

omit [DecidableEq π] in
theorem Closer.of_writes (waits : s.fq.Waits s.pipes p) (fq : t.fq = s.fq)
    (writes : s.pipes.Writes t.pipes) : Closer p s t [] := by
  obtain ⟨u, found, readable, holds⟩ := waits.holds
  obtain ⟨v, later, same⟩ := writes.after found
  refine .of_same fq ⟨waits.active, v, later, ?_, same.inqueue ▸ holds⟩
  rw [PipeEnd.canRead, same.inActive, same.state]
  exact readable

/-- A new pipe makes the way to the turn longer by at most one, and counts as joined. -/
theorem attach_fair (q : π) (waits : s.fq.Waits s.pipes p)
    (stepped : s.attach (hwms q) q = some t) :
    t.received = s.received ∧ Closer p s t [] := by
  rw [Dealer.attach] at stepped
  cases new : s.pipes q with
  | some u =>
    rw [new] at stepped
    obtain rfl := Option.some.inj stepped
    exact ⟨rfl, .of_same rfl waits⟩
  | none =>
    rw [new] at stepped
    obtain ⟨f, attached, rest⟩ := Option.bind_eq_some_iff.mp stepped
    obtain ⟨l, -, rfl⟩ := Option.map_eq_some_iff.mp rest
    rw [Fq.attach, Option.dite_none_right_eq_some] at attached
    obtain ⟨absent, same⟩ := attached
    obtain rfl := Option.some.inj same
    have other : p ≠ q := by
      rintro rfl
      obtain ⟨u, found, -⟩ := waits.holds
      cases new.symm.trans found
    have later := waits.other other (some (.initial (hwms q)))
    refine ⟨rfl,
      .inr ⟨⟨(Rotation.active_attach absent p).mpr (.inr later.active), later.holds⟩, ?_⟩⟩
    have farther := Rotation.distance_attach absent waits.active
    have one : s.fq.pipes.active + 1 - s.fq.pipes.active = 1 := Nat.add_sub_cancel_left ..
    simpa [joined, Rotation.attach, completed, one] using farther

/-- What is sent has nothing to do with fair queueing. -/
theorem send_keeps {m : PipeMsg α} (fits : s.Fits hwms) (shown : m.forUser = true)
    (stepped : s.send m = some t) :
    t.received = s.received ∧ t.fq = s.fq ∧ s.pipes.Writes t.pipes := by
  obtain ⟨result, l, after, sent, -, spec⟩ := Lb.sendpipe_spec shown fits.sane fits.lb
  rw [Dealer.send, sent] at stepped
  obtain rfl := Option.some.inj stepped
  -- Taking a part only changes the records of what was sent.
  have taken (pipe : Option π) : (take { s with pipes := after, lb := l } m pipe).received =
      s.received ∧ (take { s with pipes := after, lb := l } m pipe).fq = s.fq ∧
      (take { s with pipes := after, lb := l } m pipe).pipes = after := by
    rw [take]
    split <;> exact ⟨rfl, rfl, rfl⟩
  cases result with
  | again => exact ⟨rfl, rfl, spec.writes⟩
  | sent pipe =>
    obtain ⟨received, fq, same⟩ := taken pipe
    exact ⟨received, fq, by dsimp only; rw [same]; exact spec.writes⟩
  | lost =>
    obtain ⟨received, fq, same⟩ := taken none
    exact ⟨received, fq, by dsimp only; rw [same]; exact spec.writes⟩

theorem recv_fair (waits : s.fq.Waits s.pipes p) (stepped : s.recv = some t) :
    ∃ got, t.received = s.received ++ got ∧ Closer p s t got := by
  obtain ⟨⟨found, f, after⟩, looped, rfl⟩ := Option.map_eq_some_iff.mp stepped
  refine ⟨found.toList, rfl, ?_⟩
  rcases Fq.recvLoop_fair _ rfl waits looped with ⟨m, rfl⟩ | ⟨q, m, rfl, later, closer⟩
  · exact .inl ⟨(p, m), by simp, rfl⟩
  · refine .inr ⟨later, ?_⟩
    have counted : completed [(q, m)] = if m.more then 0 else 1 := by
      cases more : m.more <;> simp [completed, more]
    rw [Option.toList_some, counted]
    exact closer.trans (Nat.le_add_right ..)

theorem hasIn_fair (waits : s.fq.Waits s.pipes p) (stepped : s.hasIn = some t) :
    t.received = s.received ∧ Closer p s t [] := by
  obtain ⟨⟨answer, f, after⟩, asked, rfl⟩ := Option.map_eq_some_iff.mp stepped
  refine ⟨rfl, ?_⟩
  rw [Fq.hasIn] at asked
  split at asked
  · obtain ⟨-, rfl, rfl⟩ : _ ∧ s.fq = f ∧ s.pipes = after := by simpa using asked
    exact .of_same rfl waits
  · obtain ⟨later, closer⟩ := Fq.hasInLoop_fair _ rfl waits asked
    exact .inr ⟨later, closer.trans (Nat.le_add_right ..)⟩

theorem terminate_fair {q : π} {delay : Bool} (waits : s.fq.Waits s.pipes p) (other : p ≠ q)
    (stepped : s.terminate q delay = some t) : t.received = s.received ∧ Closer p s t [] := by
  rw [Dealer.terminate] at stepped
  split at stepped
  · obtain rfl := Option.some.inj stepped
    exact ⟨rfl, .of_same rfl waits⟩
  · split at stepped
    · obtain rfl := Option.some.inj stepped
      exact ⟨rfl, .of_same rfl waits⟩
    · obtain ⟨after, ran, rfl⟩ := Option.map_eq_some_iff.mp stepped
      obtain ⟨v, rfl⟩ := Pipes.run_inv ran
      exact ⟨rfl, .of_same rfl (waits.other other (some v))⟩

theorem remote_fair {q : π} {action : PipeAct α} (fits : s.Fits hwms)
    (plain : ∀ u, s.pipes q = some u → u.Plain action) (waits : s.fq.Waits s.pipes p)
    (stepped : s.remote q action = some t) : t.received = s.received ∧ Closer p s t [] := by
  rw [Dealer.remote] at stepped
  cases found : s.pipes q with
  | none =>
    rw [found] at stepped
    obtain rfl := Option.some.inj stepped
    exact ⟨rfl, .of_same rfl waits⟩
  | some u =>
    obtain ⟨v, acted, -, far⟩ :=
      PipePair.remote_spec (fits.sane q u found) action (plain u found)
    simp only [found, acted, Option.map_some] at stepped
    obtain rfl := Option.some.inj stepped
    refine ⟨rfl, .of_same rfl ?_⟩
    by_cases same : p = q
    · subst same
      obtain ⟨w, there, readable, holds⟩ := waits.holds
      obtain rfl : u = w := Option.some.inj (found.symm.trans there)
      exact ⟨waits.active, v, Function.update_self .., by rw [far.pipe]; exact readable,
        holds.grow far.grows⟩
    · exact waits.other same (some v)

/-- A command of the pipe that waits does not stop it from reading, and one of another pipe makes
the way longer by at most one. -/
theorem command_fair {q : π} (fits : s.Fits hwms) (stays : ¬s.Removes q)
    (waits : s.fq.Waits s.pipes p) (stepped : s.command q = some t) :
    t.received = s.received ∧ Closer p s t [] := by
  rw [Dealer.command] at stepped
  cases found : s.pipes q with
  | none =>
    rw [found] at stepped
    obtain rfl := Option.some.inj stepped
    exact ⟨rfl, .of_same rfl waits⟩
  | some u =>
    cases mail : u.mail true with
    | nil =>
      simp only [found, mail] at stepped
      obtain rfl := Option.some.inj stepped
      exact ⟨rfl, .of_same rfl waits⟩
    | cons command rest =>
      obtain ⟨v, acted, -, served⟩ := PipePair.command_spec (fits.sane q u found) mail
      simp only [found, mail, acted, Option.bind_some] at stepped
      have told := served.told
      -- The pipe itself goes on reading, whatever it is told.
      have later (inActive : q = p → (v.pipes true).inActive = (u.pipes true).inActive) :
          s.fq.Waits (Function.update s.pipes q (some v)) p := by
        by_cases same : p = q
        · subst same
          obtain ⟨w, there, readable, holds⟩ := waits.holds
          obtain rfl : u = w := Option.some.inj (found.symm.trans there)
          rw [canRead_eq, Bool.and_eq_true] at readable
          have opened : (v.pipes true).opened = true :=
            served.serves.patient readable.2 (fits.fq.knows p u found).delay
          refine ⟨waits.active, v, Function.update_self .., ?_, ?_⟩
          · rw [canRead_eq, inActive rfl, readable.1, opened]
            rfl
          · have queue : v.queues false = u.queues false := served.serves.inpipe
            rw [queue]
            exact holds
        · exact waits.other same (some v)
      cases event : (u.pipeEnd true).notifies command with
      | none =>
        rw [event] at told stepped
        obtain ⟨inActive, -, -⟩ := told
        obtain rfl := Option.some.inj stepped
        exact ⟨rfl, .of_same rfl (later fun _ => inActive)⟩
      | some happened =>
        cases happened with
        | writeActivated =>
          rw [event] at told stepped
          obtain ⟨-, -, -, inActive, -⟩ := told
          obtain ⟨l, -, rfl⟩ := Option.map_eq_some_iff.mp stepped
          exact ⟨rfl, .of_same rfl (later fun _ => inActive)⟩
        | pipeTerminated => exact absurd (notifies_removes found mail event) stays
        | readActivated =>
          rw [event] at told stepped
          obtain ⟨asleep, opened, -⟩ := told
          obtain ⟨f, activated, rfl⟩ := Option.map_eq_some_iff.mp stepped
          -- The pipe that waits is awake, so it is another one that has been woken up.
          have other : q ≠ p := by
            rintro rfl
            obtain ⟨w, there, readable, -⟩ := waits.holds
            obtain rfl : u = w := Option.some.inj (found.symm.trans there)
            rw [canRead_eq, Bool.and_eq_true] at readable
            cases (asleep : (u.pipes true).inActive = false).symm.trans readable.1
          have waits' := later fun same => absurd same other
          obtain ⟨member, behind⟩ := fits.fq.passive found served.running opened asleep
          rw [Fq.activated, Option.dite_none_right_eq_some] at activated
          obtain ⟨inside, same⟩ := activated
          obtain rfl := Option.some.inj same
          refine ⟨rfl, .inr ⟨⟨(Rotation.active_activate inside.1 inside.2 behind p).mpr
            (.inr waits'.active), waits'.holds⟩, ?_⟩⟩
          have farther := Rotation.distance_activate inside.1 inside.2 behind waits.active
          have one : s.fq.pipes.active + 1 - s.fq.pipes.active = 1 := Nat.add_sub_cancel_left ..
          simpa [joined, Rotation.activate, completed, one] using farther

/-- One step of a calm and patient run, whatever it is. -/
theorem step_fair {event : DealerEvent π α} (fits : s.Fits hwms) (calm : s.Calm event)
    (stays : s.Stays p event) (waits : s.fq.Waits s.pipes p)
    (stepped : s.step hwms event = some t) :
    ∃ got, t.received = s.received ++ got ∧ Closer p s t got := by
  have quiet (step : t.received = s.received ∧ Closer p s t []) :
      ∃ got, t.received = s.received ++ got ∧ Closer p s t got :=
    ⟨[], by rw [step.1, List.append_nil], step.2⟩
  cases event with
  | attach q => exact quiet (attach_fair q waits stepped)
  | recv => exact recv_fair waits stepped
  | hasIn => exact quiet (hasIn_fair waits stepped)
  | send body more =>
    obtain ⟨received, fq, writes⟩ := send_keeps fits rfl stepped
    exact quiet ⟨received, .of_writes waits fq writes⟩
  | hasOut =>
    obtain ⟨answer, l, after, asks, -, asked⟩ := Lb.hasOut_spec fits.sane fits.lb
    have same : s.hasOut = some t := stepped
    rw [Dealer.hasOut, asks] at same
    obtain rfl := Option.some.inj same
    exact quiet ⟨rfl, .of_writes waits rfl asked.writes⟩
  | terminate q delay => exact quiet (terminate_fair waits (Ne.symm stays) stepped)
  | command q => exact quiet (command_fair fits stays waits stepped)
  | remote q action => exact quiet (remote_fair fits calm waits stepped)

/-- What is received is added at the end. -/
theorem step_received {event : DealerEvent π α} (stepped : s.step hwms event = some t) :
    s.received <+: t.received := by
  have same (received : t.received = s.received) : s.received <+: t.received := by rw [received]
  cases event with
  | attach q =>
    refine same ?_
    rw [step, Dealer.attach] at stepped
    split at stepped
    · exact congrArg received (Option.some.inj stepped).symm
    · obtain ⟨f, -, rest⟩ := Option.bind_eq_some_iff.mp stepped
      obtain ⟨l, -, rfl⟩ := Option.map_eq_some_iff.mp rest
      rfl
  | recv =>
    obtain ⟨result, -, rfl⟩ := Option.map_eq_some_iff.mp stepped
    exact List.prefix_append ..
  | hasIn =>
    obtain ⟨result, -, rfl⟩ := Option.map_eq_some_iff.mp stepped
    exact same rfl
  | send body more =>
    obtain ⟨⟨result, l, after⟩, -, rfl⟩ := Option.map_eq_some_iff.mp stepped
    refine same ?_
    cases result <;> simp only [take] <;> (try split) <;> rfl
  | hasOut =>
    obtain ⟨result, -, rfl⟩ := Option.map_eq_some_iff.mp stepped
    exact same rfl
  | terminate q delay =>
    refine same ?_
    rw [step, Dealer.terminate] at stepped
    split at stepped
    · exact congrArg received (Option.some.inj stepped).symm
    · split at stepped
      · exact congrArg received (Option.some.inj stepped).symm
      · obtain ⟨after, -, rfl⟩ := Option.map_eq_some_iff.mp stepped
        rfl
  | command q =>
    refine same ?_
    rw [step, Dealer.command] at stepped
    split at stepped
    · exact congrArg received (Option.some.inj stepped).symm
    · split at stepped
      · exact congrArg received (Option.some.inj stepped).symm
      · obtain ⟨v, -, told⟩ := Option.bind_eq_some_iff.mp stepped
        dsimp only at told
        rw [notified.eq_def] at told
        split at told
        · rw [← Option.some.inj told]
        · obtain ⟨f, -, rfl⟩ := Option.map_eq_some_iff.mp told
          rfl
        · obtain ⟨l, -, rfl⟩ := Option.map_eq_some_iff.mp told
          rfl
        · obtain ⟨f, -, rest⟩ := Option.bind_eq_some_iff.mp told
          obtain ⟨l, -, rfl⟩ := Option.map_eq_some_iff.mp rest
          rfl
  | remote q action =>
    refine same ?_
    rw [step, Dealer.remote] at stepped
    split at stepped
    · exact congrArg received (Option.some.inj stepped).symm
    · obtain ⟨v, -, rfl⟩ := Option.map_eq_some_iff.mp stepped
      rfl

theorem run_received {events : List (DealerEvent π α)}
    (ran : Transition.run (step hwms) s events = some t) : s.received <+: t.received :=
  Transition.run_invariant (step hwms) (fun u => s.received <+: u.received)
    (fun _ _ _ stepped before => before.trans (step_received stepped)) s t events ran
    (List.prefix_refl _)

/-- A pipe is read before more messages have come than its distance and the pipes that have joined.
-/
theorem run_fair (events : List (DealerEvent π α)) (fits : s.Fits hwms)
    (waits : s.fq.Waits s.pipes p)
    (patient : Transition.Meets (step hwms) (fun s e => s.Calm e ∧ s.Stays p e) s events) :
    ∃ t got, Transition.run (step hwms) s events = some t ∧ t.received = s.received ++ got ∧
      ((∃ m ∈ got, m.1 = p) ∨ completed got ≤
        s.fq.pipes.distance p + Transition.total (step hwms) joined s events) := by
  induction events generalizing s with
  | nil => exact ⟨s, [], rfl, (List.append_nil _).symm, .inr (Nat.zero_le _)⟩
  | cons event events ih =>
    obtain ⟨⟨calm, stays⟩, rest⟩ := patient
    obtain ⟨u, stepped, fits'⟩ := step_fits s event fits calm
    obtain ⟨got, received, closer⟩ := step_fair fits calm stays waits stepped
    have meets := rest u stepped
    rcases closer with own | ⟨waits', closer⟩
    · -- It was the pipe's turn, and the log only grows.
      obtain ⟨t, ran, -⟩ := Transition.run_guarded (step hwms) (Fits hwms)
        (fun s e => s.Calm e ∧ s.Stays p e)
        (fun s e fits guard => step_fits s e fits guard.1) u events fits' meets
      obtain ⟨more, later⟩ := run_received ran
      obtain ⟨m, member, here⟩ := own
      refine ⟨t, got ++ more, (Transition.run_cons ..).mpr ⟨u, stepped, ran⟩, ?_,
        .inl ⟨m, List.mem_append_left _ member, here⟩⟩
      rw [← later, received, List.append_assoc]
    · obtain ⟨t, more, ran, later, fair⟩ := ih fits' waits' meets
      refine ⟨t, got ++ more, (Transition.run_cons ..).mpr ⟨u, stepped, ran⟩, ?_, ?_⟩
      · rw [later, received, List.append_assoc]
      · rcases fair with ⟨m, member, here⟩ | bound
        · exact .inl ⟨m, List.mem_append_right _ member, here⟩
        · right
          have split : completed (got ++ more) = completed got + completed more :=
            List.countP_append ..
          rw [split, Transition.total, stepped]
          dsimp only
          omega

end Dealer

/-- While a message of an active pipe waits, fewer complete messages are received than pipes were
active when it began to wait, or have become active since. -/
theorem dealer_is_fair (hwms : π → Bool → Nat) (before events : List (DealerEvent π α)) (p : π)
    (s : Dealer π α) (calm : Transition.Meets (Dealer.step hwms) Dealer.Calm .initial before)
    (ran : Transition.run (Dealer.step hwms) .initial before = some s)
    (waits : s.fq.Waits s.pipes p)
    (patient : Transition.Meets (Dealer.step hwms) (fun s e => s.Calm e ∧ s.Stays p e) s events) :
    ∃ t got, Transition.run (Dealer.step hwms) s events = some t ∧
      t.received = s.received ++ got ∧
      ((∃ m ∈ got, m.1 = p) ∨ completed got <
        s.fq.pipes.active + Transition.total (Dealer.step hwms) Dealer.joined s events) := by
  obtain ⟨u, same, fits⟩ := Dealer.run_fits hwms before calm
  obtain rfl : u = s := Option.some.inj (same.symm.trans ran)
  obtain ⟨t, got, ran', received, fair⟩ := Dealer.run_fair events fits waits patient
  refine ⟨t, got, ran', received, fair.imp_right fun bound => ?_⟩
  have := Rotation.distance_lt waits.active
  omega

/-- Of two pipes that have messages, the second one waits until the first has had its turn. -/
theorem dealer_is_fair_of_two :
    ∃ s, Transition.run (Dealer.step fun _ _ => 1) .initial
        [.attach 0, .attach 1, .remote 0 (.call (.write (.msg 5 false false false))),
          .remote 0 (.call .flush), .remote 1 (.call (.write (.msg 6 false false false))),
          .remote 1 (.call .flush)] = some s ∧ s.fq.Waits s.pipes 1 ∧
      ∃ t got, Transition.run (Dealer.step fun _ _ => 1) s [.recv, .recv] = some t ∧
        t.received = s.received ++ got ∧
        ((∃ m ∈ got, m.1 = 1) ∨ completed got < s.fq.pipes.active +
          Transition.total (Dealer.step fun _ _ => 1) Dealer.joined s [.recv, .recv]) := by
  have calm : Transition.Meets (Dealer.step fun _ _ => 1) Dealer.Calm .initial
      [.attach 0, .attach 1, .remote 0 (.call (.write (.msg 5 false false false))),
        .remote 0 (.call .flush), .remote 1 (.call (.write (.msg 6 false false false))),
        .remote 1 (.call .flush)] :=
    ⟨trivial, fun _ _ => ⟨trivial, fun _ _ => ⟨fun _ _ credential => (by cases credential),
      fun _ _ => ⟨fun _ _ => trivial, fun _ _ => ⟨fun _ _ credential => (by cases credential),
        fun _ _ => ⟨fun _ _ => trivial, fun _ _ => trivial⟩⟩⟩⟩⟩⟩
  obtain ⟨s, ran, -⟩ := Dealer.run_fits (fun _ _ => 1) _ calm
  have waits : s.fq.Waits s.pipes 1 := by
    cases ran
    exact ⟨⟨by decide, by decide⟩, _, rfl, rfl, _, _, _, rfl, rfl⟩
  exact ⟨s, ran, waits, dealer_is_fair (fun _ _ => 1) _ [.recv, .recv] 1 s calm ran waits
    ⟨⟨trivial, trivial⟩, fun _ _ => ⟨⟨trivial, trivial⟩, fun _ _ => trivial⟩⟩⟩

end OfxZeroMQ
