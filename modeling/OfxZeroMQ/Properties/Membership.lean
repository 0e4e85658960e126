import OfxZeroMQ.Properties.Routing

/-!
# Pipes come and go

A pipe is attached, wakes up or is taken down while a message of another one is in the middle of
being received or sent.
-/
namespace OfxZeroMQ

open Foundation

variable {π α : Type}

namespace Pipes

variable {pipes : Pipes π α} {p : π}

/-- What was never attached is not attached. -/
theorem not_attached (new : pipes p = none) : ¬pipes.Attached p := by
  rintro ⟨s, found, -⟩
  cases new.symm.trans found

variable [DecidableEq π]

/-- A new pair is attached, and the others are what they were. -/
theorem attached_new (new : pipes p = none) (hwms : Bool → Nat) (q : π) :
    Attached (Function.update pipes p (some (.initial hwms))) q ↔ q = p ∨ pipes.Attached q := by
  by_cases same : q = p
  · subst same
    simp [Attached, PipePair.initial, Pipe.initial]
  · simp [Attached, same]

/-- A pipe that is deallocated is no longer attached, and the others are what they were. -/
theorem attached_gone {t : PipePair α} (gone : (t.pipes true).gone = true) (q : π) :
    Attached (Function.update pipes p (some t)) q ↔ pipes.Attached q ∧ q ≠ p := by
  by_cases same : q = p
  · subst same
    simp [Attached, gone]
  · simp [Attached, same]

end Pipes

/-! ### Fair queueing -/

namespace Fq

variable {f g : Fq π} {pipes : Pipes π α} {p : π} {s t : PipePair α}

/-- A message of which a part was received goes on as before. -/
structure Keeps (f g : Fq π) : Prop where
  more : g.more = f.more
  turn : f.more = true → g.pipes.next = f.pipes.next

theorem Keeps.refl (f : Fq π) : f.Keeps f := ⟨rfl, fun _ => rfl⟩

/-- In the middle of a message it is some pipe's turn. -/
theorem Fits.turn (fits : f.Fits pipes) (more : f.more = true) :
    f.pipes.current < f.pipes.active := by
  obtain ⟨p, s, m, goes⟩ := fits.goes more
  exact Rotation.turn goes.active.some_active

/-- The pipe is behind the active ones, so that there is room for it among them. -/
theorem Fits.passive (fits : f.Fits pipes) (found : pipes p = some s)
    (running : (s.pipes true).gone = false) (opened : (s.pipes true).opened = true)
    (asleep : (s.pipes true).inActive = false) :
    p ∈ f.pipes.items ∧ f.pipes.active ≤ f.pipes.slots.index p := by
  have member := (fits.members p).mpr ⟨s, found, running⟩
  have passive := (fits.knows p s found).active running opened
  rw [asleep] at passive
  exact ⟨member, Nat.le_of_not_lt fun active => by simpa using passive.mp ⟨member, active⟩⟩

variable [DecidableEq π]

/-- Nothing but one pipe has changed, and whether it is active. -/
theorem Fits.switch (fits : f.Fits pipes) (found : pipes p = some s) (keeps : f.Keeps g)
    (members : ∀ q, q ∈ g.pipes.items ↔ Pipes.Attached (Function.update pipes p (some t)) q)
    (active : ∀ q, q ≠ p → (g.pipes.IsActive q ↔ f.pipes.IsActive q))
    (here : g.Knows p t) (other : f.more = true → f.pipes.next ≠ some p) :
    g.Fits (Function.update pipes p (some t)) := by
  refine ⟨members, fun q u found' => ?_, fun more => ?_⟩
  · by_cases same : q = p
    · subst same
      obtain rfl : t = u := by simpa using found'
      exact here
    · rw [Function.update_of_ne same] at found'
      have knows := fits.knows q u found'
      exact ⟨fun running opened => (active q same).trans (knows.active running opened),
        knows.delay, knows.linked⟩
  · rw [keeps.more] at more
    obtain ⟨q, u, m, goes⟩ := fits.goes more
    have apart : q ≠ p := by
      rintro rfl
      exact other more goes.turn
    exact ⟨q, u, m, (keeps.turn more).trans goes.turn, (active q apart).mpr goes.active,
      by rw [Function.update_of_ne apart, goes.found], goes.running, goes.opened, goes.last,
      goes.more⟩

/-- A new pipe is active, and the message in the middle goes on with its own pipe. -/
theorem Fits.attach (fits : f.Fits pipes) (new : pipes p = none) (hwms : Bool → Nat) :
    ∃ g, f.attach p = some g ∧ g.Fits (Function.update pipes p (some (.initial hwms))) ∧
      f.Keeps g := by
  have absent : p ∉ f.pipes.items := fun member =>
    Pipes.not_attached new ((fits.members p).mp member)
  refine ⟨_, dif_pos absent, ⟨fun q => ?_, fun q u found => ?_, fun more => ?_⟩, rfl,
    fun more => ?_⟩
  · rw [Pipes.attached_new new, ← fits.members]
    exact Rotation.mem_attach absent q
  · by_cases same : q = p
    · subst same
      obtain rfl : PipePair.initial hwms = u := by simpa using found
      refine ⟨fun _ _ => ?_, fun _ => rfl, List.isChain_nil⟩
      exact iff_of_true ((Rotation.active_attach absent q).mpr (.inl rfl)) rfl
    · rw [Function.update_of_ne same] at found
      have knows := fits.knows q u found
      refine ⟨fun running opened => ?_, knows.delay, knows.linked⟩
      rw [← knows.active running opened]
      exact (Rotation.active_attach absent q).trans (or_iff_right same)
  · obtain ⟨q, u, m, goes⟩ := fits.goes more
    have apart : q ≠ p := by
      rintro rfl
      cases new.symm.trans goes.found
    exact ⟨q, u, m, (Rotation.next_attach absent (fits.turn more)).trans goes.turn,
      (Rotation.active_attach absent q).mpr (.inr goes.active),
      by rw [Function.update_of_ne apart, goes.found], goes.running, goes.opened, goes.last,
      goes.more⟩
  · exact Rotation.next_attach absent (fits.turn more)

/-- A pipe that has been woken up is active again, and the message in the middle goes on with its
own pipe. -/
theorem Fits.activated (fits : f.Fits pipes) (found : pipes p = some s)
    (running : (s.pipes true).gone = false) (opened : (s.pipes true).opened = true)
    (asleep : (s.pipes true).inActive = false)
    (pipe : t.pipes true = { s.pipes true with inActive := true })
    (incoming : t.incoming = s.incoming) :
    ∃ g, f.activated p = some g ∧ g.Fits (Function.update pipes p (some t)) ∧ f.Keeps g := by
  obtain ⟨member, behind⟩ := fits.passive found running opened asleep
  have room := Nat.lt_of_le_of_lt behind (f.pipes.slots.index_lt member)
  have knows := fits.knows p s found
  have keeps : f.Keeps { f with pipes := f.pipes.activate p member room } :=
    ⟨rfl, fun more => Rotation.next_activate member room behind (fits.turn more)⟩
  refine ⟨_, dif_pos ⟨member, room⟩, fits.switch found keeps (fun q => ?_) (fun q other => ?_) ?_
    fun more turn => ?_, keeps⟩
  · rw [Pipes.attached_update found (by rw [pipe]), ← fits.members]
    exact Rotation.mem_activate member room q
  · exact (Rotation.active_activate member room behind q).trans (or_iff_right other)
  · refine ⟨fun _ _ => ?_, fun state => ?_, ?_⟩
    · exact iff_of_true ((Rotation.active_activate member room behind p).mpr (.inl rfl))
        (by rw [pipe])
    · rw [pipe] at state ⊢
      exact knows.delay state
    · rw [incoming]
      exact knows.linked
  · have first := (Rotation.next_iff member).mp turn
    have := fits.turn more
    omega

/-- A message of another pipe goes on only if it is still the turn of that pipe. -/
theorem Fits.pipeTerminated (fits : f.Fits pipes) (found : pipes p = some s)
    (running : (s.pipes true).gone = false) (closed : (s.pipes true).opened = false)
    (gone : (t.pipes true).gone = true) (ended : (t.pipes true).state ≠ .active)
    (incoming : t.incoming = s.incoming) (steady : f.more = true → f.pipes.Steady p) :
    ∃ g, f.pipeTerminated p = some g ∧ g.Fits (Function.update pipes p (some t)) ∧
      f.Keeps g := by
  have member := (fits.members p).mpr ⟨s, found, running⟩
  have keeps : f.Keeps { f with
      pipes := f.pipes.remove p member
      lastIn := if f.lastIn = some p then none else f.lastIn } :=
    ⟨rfl, fun more => Rotation.next_remove member (fits.turn more) (steady more)⟩
  refine ⟨_, dif_pos member, fits.switch found keeps (fun q => ?_) (fun q other => ?_)
    ⟨fun running => ?_, fun state => absurd state ended, ?_⟩ fun more turn => ?_, keeps⟩
  · rw [Pipes.attached_gone gone, ← fits.members]
    exact Rotation.mem_remove member q
  · exact (Rotation.active_remove member q).trans (and_iff_left other)
  · cases gone.symm.trans running
  · rw [incoming]
    exact (fits.knows p s found).linked
  · -- A pipe that goes on with a message still reads, and this one does not.
    obtain ⟨q, u, m, goes⟩ := fits.goes more
    obtain rfl : p = q := Option.some.inj (turn.symm.trans goes.turn)
    obtain rfl : s = u := Option.some.inj (found.symm.trans goes.found)
    cases closed.symm.trans goes.opened

end Fq

/-! ### Load balancing -/

namespace Lb

variable {l g : Lb π} {pipes : Pipes π α} {parts : List (PipeMsg α)} {p : π} {s t : PipePair α}

/-- While it is the turn of the same pipe, the message goes on with it. -/
theorem Writing.turned (r : Rotation π)
    (turn : l.more = true → l.dropping = false → r.next = l.pipes.next) (q : π) :
    Writing { l with pipes := r } q ↔ l.Writing q := by
  rw [Writing, Writing]
  refine and_congr_right fun more => and_congr_right fun sending => ?_
  rw [turn more sending]

variable [DecidableEq π]

/-- In the middle of a message that is not dropped it is some pipe's turn. -/
theorem Fits.turn (fits : l.Fits pipes parts) (more : l.more = true)
    (sending : l.dropping = false) : l.pipes.current < l.pipes.active := by
  obtain ⟨p, -, active⟩ := fits.goes more sending
  exact Rotation.turn active.some_active

/-- A message goes to an attached pipe. -/
theorem Fits.attached (fits : l.Fits pipes parts) (writing : l.Writing p) : pipes.Attached p := by
  obtain ⟨q, turn, active⟩ := fits.goes writing.1 writing.2.1
  obtain rfl : p = q := Option.some.inj (writing.2.2.symm.trans turn)
  exact (fits.members p).mp active.1

/-- The pipe is behind the active ones, so that there is room for it among them. -/
theorem Fits.passive (fits : l.Fits pipes parts) (found : pipes p = some s)
    (running : (s.pipes true).gone = false) (state : (s.pipes true).state = .active)
    (blocked : (s.pipes true).outActive = false) :
    p ∈ l.pipes.items ∧ l.pipes.active ≤ l.pipes.slots.index p := by
  have member := (fits.members p).mpr ⟨s, found, running⟩
  have passive := (fits.knows p s found).active running state
  rw [blocked] at passive
  exact ⟨member, Nat.le_of_not_lt fun active => by simpa using passive.mp ⟨member, active⟩⟩

/-- What does not matter to load balancing. -/
structure Same (s t : PipePair α) : Prop where
  gone : (t.pipes true).gone = (s.pipes true).gone
  state : (t.pipes true).state = .active → (s.pipes true).state = .active
  ready : (s.queues true).ready = [] → (t.queues true).ready = []
  unfinished : (t.pipes true).state = .active →
    (t.queues true).unfinished = (s.queues true).unfinished
  room : (t.pipes true).state = .active → (s.pipes true).checkHwm = true →
    (t.pipes true).checkHwm = true

/-- What load balancing knows of a pipe stays true when nothing that matters to it has changed. -/
theorem Knows.same (knows : l.Knows parts p s) (same : Same s t)
    (active : (t.pipes true).gone = false → (t.pipes true).state = .active →
      (g.pipes.IsActive p ↔ (t.pipes true).outActive = true))
    (writing : g.Writing p ↔ l.Writing p) : g.Knows parts p t := by
  refine ⟨active, same.ready knows.ready, fun state => ?_, fun state writes => ?_⟩
  · rw [same.unfinished state, knows.unfinished (same.state state)]
    simp only [writing]
  · exact same.room state (knows.room (same.state state) (writing.mp writes))

/-- Nothing but one pipe has changed, and whether it is active. -/
theorem Fits.switch (fits : l.Fits pipes parts)
    (members : ∀ q, q ∈ g.pipes.items ↔ Pipes.Attached (Function.update pipes p (some t)) q)
    (active : ∀ q, q ≠ p → (g.pipes.IsActive q ↔ l.pipes.IsActive q))
    (writing : ∀ q, q ≠ p → (g.Writing q ↔ l.Writing q)) (here : g.Knows parts p t)
    (idle : g.more = false → g.dropping = false → parts = [])
    (goes : g.more = true → g.dropping = false →
      ∃ p, g.pipes.next = some p ∧ g.pipes.IsActive p) :
    g.Fits (Function.update pipes p (some t)) parts := by
  refine ⟨members, fun q u found' => ?_, idle, goes, fits.parts⟩
  by_cases same : q = p
  · subst same
    obtain rfl : t = u := by simpa using found'
    exact here
  · rw [Function.update_of_ne same] at found'
    have knows := fits.knows q u found'
    exact knows.same ⟨rfl, id, id, fun _ => rfl, fun _ => id⟩
      (fun running state => (active q same).trans (knows.active running state)) (writing q same)

/-- Load balancing goes on with pipes one of which has changed in what does not matter to it. -/
theorem Fits.change (fits : l.Fits pipes parts) (found : pipes p = some s) (same : Same s t)
    (outActive : (t.pipes true).state = .active →
      (t.pipes true).outActive = (s.pipes true).outActive) :
    l.Fits (Function.update pipes p (some t)) parts := by
  have knows := fits.knows p s found
  refine fits.switch (fun q => ?_) (fun _ _ => Iff.rfl) (fun _ _ => Iff.rfl)
    (knows.same same (fun running state => ?_) Iff.rfl) fits.idle fits.goes
  · rw [fits.members, Pipes.attached_update found same.gone]
  · rw [outActive state]
    exact knows.active (same.gone ▸ running) (same.state state)

/-- A new pipe can be written to, and the message in the middle goes on with its own pipe. -/
theorem Fits.attach (fits : l.Fits pipes parts) (new : pipes p = none) (hwms : Bool → Nat) :
    ∃ g, l.attach p = some g ∧ g.Fits (Function.update pipes p (some (.initial hwms))) parts ∧
      g.dropping = l.dropping := by
  have absent : p ∉ l.pipes.items := fun member =>
    Pipes.not_attached new ((fits.members p).mp member)
  have turn (more : l.more = true) (sending : l.dropping = false) :
      (l.pipes.attach p absent).next = l.pipes.next :=
    Rotation.next_attach absent (fits.turn more sending)
  have writing (q : π) : Writing { l with pipes := l.pipes.attach p absent } q ↔ l.Writing q :=
    Writing.turned _ turn q
  have quiet : ¬l.Writing p := fun writing => Pipes.not_attached new (fits.attached writing)
  refine ⟨_, dif_pos absent, fits.switch (fun q => ?_) (fun q other => ?_)
    (fun q _ => writing q) ⟨fun _ _ => ?_, rfl, fun _ => ?_, fun _ writes => ?_⟩ fits.idle
    fun more sending => ?_, rfl⟩
  · rw [Pipes.attached_new new, ← fits.members]
    exact Rotation.mem_attach absent q
  · exact (Rotation.active_attach absent q).trans (or_iff_right other)
  · exact iff_of_true ((Rotation.active_attach absent p).mpr (.inl rfl)) rfl
  · rw [if_neg (mt (writing p).mp quiet)]
    rfl
  · exact absurd ((writing p).mp writes) quiet
  · obtain ⟨q, next, active⟩ := fits.goes more sending
    exact ⟨q, (turn more sending).trans next, (Rotation.active_attach absent q).mpr (.inr active)⟩

/-- A pipe that has room again is active again, and the message in the middle goes on with its own
pipe. -/
theorem Fits.activated (fits : l.Fits pipes parts) (found : pipes p = some s)
    (running : (s.pipes true).gone = false) (state : (s.pipes true).state = .active)
    (blocked : (s.pipes true).outActive = false) (same : Same s t)
    (awake : (t.pipes true).outActive = true) :
    ∃ g, l.activated p = some g ∧ g.Fits (Function.update pipes p (some t)) parts ∧
      g.dropping = l.dropping := by
  obtain ⟨member, behind⟩ := fits.passive found running state blocked
  have room := Nat.lt_of_le_of_lt behind (l.pipes.slots.index_lt member)
  have knows := fits.knows p s found
  have turn (more : l.more = true) (sending : l.dropping = false) :
      (l.pipes.activate p member room).next = l.pipes.next :=
    Rotation.next_activate member room behind (fits.turn more sending)
  have writing (q : π) :
      Writing { l with pipes := l.pipes.activate p member room } q ↔ l.Writing q :=
    Writing.turned _ turn q
  have active (q : π) :
      (l.pipes.activate p member room).IsActive q ↔ q = p ∨ l.pipes.IsActive q :=
    Rotation.active_activate member room behind q
  refine ⟨_, dif_pos ⟨member, room⟩, fits.switch (fun q => ?_)
    (fun q other => (active q).trans (or_iff_right other)) (fun q _ => writing q)
    (knows.same same (fun _ _ => iff_of_true ((active p).mpr (.inl rfl)) awake) (writing p))
    fits.idle fun more sending => ?_, rfl⟩
  · rw [Pipes.attached_update found same.gone, ← fits.members]
    exact Rotation.mem_activate member room q
  · obtain ⟨q, next, before⟩ := fits.goes more sending
    exact ⟨q, (turn more sending).trans next, (active q).mpr (.inr before)⟩

/-- What is left of the message that goes to the pipe is dropped. -/
theorem Fits.pipeTerminated (fits : l.Fits pipes parts) (found : pipes p = some s)
    (running : (s.pipes true).gone = false) (gone : (t.pipes true).gone = true)
    (ended : (t.pipes true).state ≠ .active)
    (ready : (s.queues true).ready = [] → (t.queues true).ready = [])
    (steady : l.more = true → l.dropping = false → l.pipes.next ≠ some p → l.pipes.Steady p) :
    ∃ g, l.pipeTerminated p = some g ∧ g.Fits (Function.update pipes p (some t)) parts := by
  have member := (fits.members p).mpr ⟨s, found, running⟩
  have here := Rotation.next_iff (r := l.pipes) member
  refine ⟨_, dif_pos member, fits.switch (fun q => ?_) (fun q other => ?_) (fun q other => ?_)
    ⟨fun running => ?_, ready (fits.knows p s found).ready, fun state => absurd state ended,
      fun state => absurd state ended⟩ ?_ ?_⟩
  · rw [Pipes.attached_gone gone, ← fits.members]
    exact Rotation.mem_remove member q
  · exact (Rotation.active_remove member q).trans (and_iff_left other)
  · -- Either the message loses its pipe and is dropped, or it is still the turn of its pipe.
    by_cases stops : l.pipes.slots.index p = l.pipes.current ∧ l.more = true
    · rw [if_pos stops]
      have elsewhere : ¬l.Writing q := fun writing =>
        other (Option.some.inj (writing.2.2.symm.trans (here.mpr stops.1)))
      refine iff_of_false ?_ elsewhere
      rintro ⟨-, sending, -⟩
      cases sending
    · rw [if_neg stops]
      refine Writing.turned _ (fun more sending => ?_) q
      have apart : l.pipes.next ≠ some p := fun turn => stops ⟨here.mp turn, more⟩
      exact Rotation.next_remove member (fits.turn more sending)
        (steady more sending apart)
  · cases gone.symm.trans running
  · intro more sending
    rw [if_neg (by simp [show l.more = false from more])] at sending
    exact fits.idle more sending
  · intro more sending
    have apart : l.pipes.next ≠ some p := by
      intro turn
      rw [if_pos ⟨here.mp turn, more⟩] at sending
      cases sending
    have sending : l.dropping = false := by
      rwa [if_neg fun stops => apart (here.mpr stops.1)] at sending
    obtain ⟨q, next, active⟩ := fits.goes more sending
    have other : q ≠ p := fun same => apart (same ▸ next)
    refine ⟨q, ?_, (Rotation.active_remove member q).mpr ⟨active, other⟩⟩
    rw [← next]
    exact Rotation.next_remove member (fits.turn more sending)
      (steady more sending apart)

end Lb

end OfxZeroMQ
