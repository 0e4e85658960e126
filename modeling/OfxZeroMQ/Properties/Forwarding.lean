import OfxZeroMQ.Foundation.Relay
import OfxZeroMQ.Foundation.Transition
import OfxZeroMQ.Model.Broker
import OfxZeroMQ.Properties.Multipart

/-!
# What the broker forwards

Each direction of the broker is a relay from one socket to the other. It takes a message in
when the worker dequeues it and hands it on when the other socket takes it; a refused send
loses it, because the result of the call is ignored.
-/
namespace OfxZeroMQ

open Foundation Foundation.Framing

namespace Broker

/-- The direction that starts at `source`. -/
def relay (s : Broker) (source : Side) : Relay MultipartMessage where
  taken := (s.sockets source).dequeued
  held := if s.pc = .send source then [s.m] else []
  handed := (s.sockets source.other).outbox.assembly.delivered

/-- The messages a socket has received and not given to the worker yet. -/
def Waiting (socket : BrokerSocket) (messages : List MultipartMessage) : Prop :=
  (∀ message ∈ messages, message ≠ []) ∧ socket.inbox.queue = messages.flatMap mark ∧
    socket.arrived = socket.dequeued ++ messages

structure WellFormed (s : Broker) : Prop where
  waiting : ∀ side, ∃ messages, Waiting (s.sockets side) messages
  -- no socket is in the middle of a message
  complete : ∀ side, (s.sockets side).outbox.assembly.pending = []
  polled : ∀ side, s.pc = .receive side → (s.sockets side).inbox.queue ≠ []
  held : ∀ side, s.pc = .send side → s.m ≠ []

theorem setup_wellFormed : setup.WellFormed where
  waiting _ := ⟨[], by simp, rfl, rfl⟩
  complete _ := rfl
  polled _ h := by simp [setup] at h
  held _ h := by simp [setup] at h

/-- The condition on a step: a socket that is sent to has room for the message. -/
def Accepted (s : Broker) (e : Event) : Prop :=
  ∀ source room, s.pc = .send source → e = .worker room → ∀ i < s.m.length, room i = true

/-! ### Sockets -/

@[simp] theorem sockets_update (s : Broker) (side : Side) (socket : BrokerSocket) :
    (s.update side socket).sockets side = socket := Function.update_self ..

@[simp] theorem sockets_update_ne (s : Broker) (side other : Side) (socket : BrokerSocket)
    (different : other ≠ side) : (s.update side socket).sockets other = s.sockets other :=
  Function.update_of_ne different ..

@[simp] theorem pc_update (s : Broker) (side : Side) (socket : BrokerSocket) :
    (s.update side socket).pc = s.pc := rfl

@[simp] theorem m_update (s : Broker) (side : Side) (socket : BrokerSocket) :
    (s.update side socket).m = s.m := rfl

/-- What holds of every socket still does when the new one has it. -/
theorem update_forall (P : Side → BrokerSocket → Prop) (s : Broker) (side : Side)
    (socket : BrokerSocket) (all : ∀ other, P other (s.sockets other)) (here : P side socket)
    (other : Side) : P other ((s.update side socket).sockets other) := by
  by_cases same : other = side
  · subst same
    rwa [sockets_update]
  · rw [sockets_update_ne s side other socket same]
    exact all other

theorem Side.other_ne (side : Side) : side.other ≠ side := by cases side <;> simp [Side.other]

@[simp] theorem Side.other_other (side : Side) : side.other.other = side := by cases side <;> rfl

/-! ### The operations of the worker -/

/-- Moved out of `m`, the message is sent as it is. -/
theorem send_eq (s : Broker) (source : Side) (room : Nat → Bool) :
    s.send source room =
      { s.update source.other { s.sockets source.other with
          outbox := (s.m.send room SendFlag.default.toFlags (s.sockets source.other).outbox).2.2 }
        with m := [] } := by
  rw [send, Outbox.sendMultipart_moved]

theorem receive_eq (s : Broker) (source : Side) (message : MultipartMessage)
    (messages : List MultipartMessage)
    (waiting : Waiting (s.sockets source) (message :: messages)) :
    ∃ calls, s.receive source =
      { s.update source { s.sockets source with
          inbox := ⟨messages.flatMap mark, calls⟩
          dequeued := (s.sockets source).dequeued ++ [message] }
        with m := message } := by
  obtain ⟨nonempty, queue, _⟩ := waiting
  have inbox : (s.sockets source).inbox =
      ⟨mark message ++ messages.flatMap mark, (s.sockets source).inbox.calls⟩ := by
    rw [← List.flatMap_cons, ← queue]
  obtain ⟨calls, received⟩ : ∃ calls, (s.sockets source).inbox.receiveMessage .default =
      ⟨some true, message, ⟨messages.flatMap mark, calls⟩⟩ := by
    rw [inbox]
    exact ⟨_, Inbox.recv_mark _ _ _ _ (nonempty message (by simp))⟩
  exact ⟨calls, by simp only [receive, received]⟩

/-! ### What a step does to the two relays -/

/-- A step that leaves the sockets alone, before or behind which no message is held. -/
theorem relay_eq (s t : Broker) (sockets : t.sockets = s.sockets)
    (left : ∀ side, s.pc ≠ .send side) (entered : ∀ side, t.pc ≠ .send side) (source : Side) :
    t.relay source = s.relay source := by
  simp [relay, sockets, left, entered]

theorem WellFormed.of_sockets {s t : Broker} (wellFormed : s.WellFormed)
    (sockets : t.sockets = s.sockets)
    (polled : ∀ side, t.pc = .receive side → (s.sockets side).inbox.queue ≠ [])
    (entered : ∀ side, t.pc ≠ .send side) : t.WellFormed where
  waiting side := sockets ▸ wellFormed.waiting side
  complete side := sockets ▸ wellFormed.complete side
  polled side := sockets ▸ polled side
  held side h := absurd h (entered side)

theorem arrive_relay (s : Broker) (side source : Side) (message : MultipartMessage) :
    (s.arrive side message).relay source = s.relay source := by
  have socket (other : Side) :
      ((s.arrive side message).sockets other).dequeued = (s.sockets other).dequeued ∧
        ((s.arrive side message).sockets other).outbox = (s.sockets other).outbox := by
    by_cases same : other = side
    · subst same
      simp [arrive]
    · simp [arrive, same]
  simp only [relay, (socket source).1, (socket source.other).2]
  rfl

theorem arrive_wellFormed (s : Broker) (wellFormed : s.WellFormed) (side : Side)
    (message : MultipartMessage) (nonempty : message ≠ []) :
    (s.arrive side message).WellFormed := by
  obtain ⟨messages, frames, queue, arrived⟩ := wellFormed.waiting side
  have waiting : Waiting ((s.arrive side message).sockets side) (messages ++ [message]) := by
    refine ⟨?_, ?_, ?_⟩
    · simpa [or_imp, forall_and] using ⟨frames, nonempty⟩
    · simp [arrive, queue]
    · simp [arrive, arrived]
  rw [arrive, sockets_update] at waiting
  constructor
  · apply update_forall fun _ socket => ∃ messages, Waiting socket messages
    · exact wellFormed.waiting
    · exact ⟨messages ++ [message], waiting⟩
  · apply update_forall fun _ socket => socket.outbox.assembly.pending = []
    · exact wellFormed.complete
    · exact wellFormed.complete side
  · apply update_forall fun other socket => s.pc = .receive other → socket.inbox.queue ≠ []
    · exact wellFormed.polled
    · intro polled
      simp [wellFormed.polled side polled]
  · exact wellFormed.held

theorem exists_waiting (s : Broker) (wellFormed : s.WellFormed) (source : Side)
    (at_receive : s.pc = .receive source) :
    ∃ message messages, Waiting (s.sockets source) (message :: messages) := by
  obtain ⟨messages, waiting⟩ := wellFormed.waiting source
  cases messages with
  | nil => exact absurd (by simpa using waiting.2.1) (wellFormed.polled source at_receive)
  | cons message messages => exact ⟨message, messages, waiting⟩

theorem receive_wellFormed (s : Broker) (wellFormed : s.WellFormed) (source : Side)
    (at_receive : s.pc = .receive source) :
    ({ s.receive source with pc := .send source } : Broker).WellFormed := by
  obtain ⟨message, messages, waiting⟩ := exists_waiting s wellFormed source at_receive
  obtain ⟨calls, received⟩ := receive_eq s source message messages waiting
  obtain ⟨frames, _, arrived⟩ := waiting
  rw [received]
  constructor
  · apply update_forall fun _ socket => ∃ messages, Waiting socket messages
    · exact wellFormed.waiting
    · refine ⟨messages, fun m member => frames m (by simp [member]), rfl, ?_⟩
      simp [arrived]
  · apply update_forall fun _ socket => socket.outbox.assembly.pending = []
    · exact wellFormed.complete
    · exact wellFormed.complete source
  · intro other polled
    simp at polled
  · intro _ _
    exact frames message (by simp)

theorem receive_relay (s : Broker) (wellFormed : s.WellFormed) (source : Side)
    (at_receive : s.pc = .receive source) (side : Side) :
    Relay.Step (s.relay side)
      (({ s.receive source with pc := .send source } : Broker).relay side) := by
  obtain ⟨message, messages, waiting⟩ := exists_waiting s wellFormed source at_receive
  obtain ⟨calls, received⟩ := receive_eq s source message messages waiting
  rw [received]
  by_cases same : side = source
  · subst same
    have before : s.relay side = ⟨(s.sockets side).dequeued, [],
        (s.sockets side.other).outbox.assembly.delivered⟩ := by
      simp [relay, at_receive]
    rw [before]
    simpa [relay, Side.other_ne] using Relay.Step.take (s.sockets side).dequeued
      (s.sockets side.other).outbox.assembly.delivered message
  · -- the other direction ends at this socket, whose sending side has not changed
    have other : side.other = source := by
      cases side <;> cases source <;> simp [Side.other] at same ⊢
    have unchanged : (({ s.update source { s.sockets source with
          inbox := ⟨messages.flatMap mark, calls⟩
          dequeued := (s.sockets source).dequeued ++ [message] }
        with m := message, pc := .send source } : Broker).relay side) = s.relay side := by
      simp [relay, same, other, at_receive, Ne.symm same]
    rw [unchanged]
    exact Relay.Step.stay _

section Send

variable (s : Broker) (wellFormed : s.WellFormed) (source : Side) (room : Nat → Bool)
  (at_send : s.pc = .send source)

include wellFormed at_send

theorem send_assembly_accepted (room_for : ∀ i < s.m.length, room i = true) :
    (s.m.send room SendFlag.default.toFlags (s.sockets source.other).outbox).2.2.assembly =
      ⟨(s.sockets source.other).outbox.assembly.delivered ++ [s.m], []⟩ := by
  rw [MultipartMessage.send_accepted s.m room .default _ fun _ => room_for]
  simp only [pushAll_mark _ s.m (wellFormed.held source at_send),
    wellFormed.complete source.other, List.nil_append]

/-- Accepted or refused, the message leaves nothing unfinished behind. -/
theorem send_complete : (s.m.send room SendFlag.default.toFlags
    (s.sockets source.other).outbox).2.2.assembly.pending = [] := by
  by_cases room_for : ∀ i < s.m.length, room i = true
  · rw [send_assembly_accepted s wellFormed source room at_send room_for]
  · simp only [not_forall, Bool.not_eq_true] at room_for
    obtain ⟨i, inside, no⟩ := room_for
    rw [(MultipartMessage.send_refused s.m room .default _ rfl ⟨i, inside, no⟩).2]

theorem send_wellFormed :
    ({ s.send source room with pc := .poll source } : Broker).WellFormed := by
  rw [send_eq]
  constructor
  · apply update_forall fun _ socket => ∃ messages, Waiting socket messages
    · exact wellFormed.waiting
    · -- waiting messages are a matter of the receiving side
      exact wellFormed.waiting source.other
  · apply update_forall fun _ socket => socket.outbox.assembly.pending = []
    · exact wellFormed.complete
    · exact send_complete s wellFormed source room at_send
  · intro side polled
    simp at polled
  · intro side held
    simp at held

omit wellFormed in
theorem send_relay_ne (side : Side) (different : side ≠ source) :
    ({ s.send source room with pc := .poll source } : Broker).relay side = s.relay side := by
  have other : side = source.other := by
    cases side <;> cases source <;> simp [Side.other] at different ⊢
  subst other
  simp [send_eq, relay, at_send, different.symm]

omit wellFormed in
theorem relay_at_send : s.relay source = ⟨(s.sockets source).dequeued, [s.m],
    (s.sockets source.other).outbox.assembly.delivered⟩ := by
  simp [relay, at_send]

omit wellFormed at_send in
theorem relay_after_send :
    ({ s.send source room with pc := .poll source } : Broker).relay source =
      ⟨(s.sockets source).dequeued, [], (s.m.send room SendFlag.default.toFlags
        (s.sockets source.other).outbox).2.2.assembly.delivered⟩ := by
  simp [send_eq, relay, (Side.other_ne source).symm]

theorem send_relay_accepted (room_for : ∀ i < s.m.length, room i = true) :
    Relay.Step (s.relay source)
      (({ s.send source room with pc := .poll source } : Broker).relay source) := by
  rw [relay_at_send s source at_send, relay_after_send,
    send_assembly_accepted s wellFormed source room at_send room_for]
  apply Relay.Step.hand

omit wellFormed in
/-- Without room it is lost: the worker has moved it out of `m` and ignores the result. -/
theorem send_relay_refused (no_room : ∃ i < s.m.length, room i = false) :
    Relay.Loss (s.relay source)
      (({ s.send source room with pc := .poll source } : Broker).relay source) := by
  rw [relay_at_send s source at_send, relay_after_send,
    (MultipartMessage.send_refused s.m room .default _ rfl no_room).2]
  apply Relay.Loss.drop

end Send

/-- What a step does: with room it keeps both relays going, without room one of them loses a
message. -/
structure Follows (s : Broker) (e : Event) (t : Broker) : Prop where
  wellFormed : t.WellFormed
  steps : Accepted s e → ∀ side, Relay.Step (s.relay side) (t.relay side)
  loses : ¬ Accepted s e → ∃ side, Relay.Loss (s.relay side) (t.relay side)
  losses : ¬ Accepted s e → ∀ side, Relay.Step (s.relay side) (t.relay side) ∨
    Relay.Loss (s.relay side) (t.relay side)

/-- A step that sends nothing meets the condition, whatever the room. -/
theorem Follows.of_steps {s t : Broker} {e : Event} (wellFormed : t.WellFormed)
    (accepts : Accepted s e) (steps : ∀ side, Relay.Step (s.relay side) (t.relay side)) :
    s.Follows e t :=
  ⟨wellFormed, fun _ => steps, fun refused => absurd accepts refused,
    fun refused => absurd accepts refused⟩

/-- A step between two calls of the worker. -/
theorem Follows.of_sockets {s t : Broker} {e : Event} (wellFormed : s.WellFormed)
    (sockets : t.sockets = s.sockets) (left : ∀ side, s.pc ≠ .send side)
    (polled : ∀ side, t.pc = .receive side → (s.sockets side).inbox.queue ≠ [])
    (entered : ∀ side, t.pc ≠ .send side) : s.Follows e t := by
  apply Follows.of_steps
  · exact wellFormed.of_sockets sockets polled entered
  · exact fun source _ pc => absurd pc (left source)
  · intro side
    rw [relay_eq s t sockets left entered]
    exact .stay _

theorem send_follows (s : Broker) (wellFormed : s.WellFormed) (source : Side)
    (room : Nat → Bool) (at_send : s.pc = .send source) :
    s.Follows (.worker room) { s.send source room with pc := .poll source } := by
  have no_room (refused : ¬ Accepted s (.worker room)) : ∃ i < s.m.length, room i = false := by
    by_contra all
    apply refused
    intro source' room' _ same
    obtain rfl := Event.worker.inj same
    simpa using all
  constructor
  · exact send_wellFormed s wellFormed source room at_send
  · intro accepts side
    by_cases same : side = source
    · subst same
      exact send_relay_accepted s wellFormed side room at_send (accepts side room at_send rfl)
    · rw [send_relay_ne s source room at_send side same]
      exact .stay _
  · intro refused
    exact ⟨source, send_relay_refused s source room at_send (no_room refused)⟩
  · intro refused side
    by_cases same : side = source
    · subst same
      exact Or.inr (send_relay_refused s side room at_send (no_room refused))
    · rw [send_relay_ne s source room at_send side same]
      exact Or.inl (.stay _)

theorem worker_follows (s t : Broker) (room : Nat → Bool) (wellFormed : s.WellFormed)
    (stepped : s.worker room = some t) : s.Follows (.worker room) t := by
  simp only [worker] at stepped
  cases pc : s.pc with
  | top =>
    simp only [pc, Option.some.injEq] at stepped
    subst stepped
    refine .of_sockets wellFormed rfl (by simp [pc]) ?_ ?_ <;> intro side <;> split <;> simp
  | poll source =>
    simp only [pc] at stepped
    split at stepped
    · -- only a socket with a waiting message is received from
      rename_i waits
      cases stepped
      refine .of_sockets wellFormed rfl (by simp [pc]) ?_ (by simp)
      rintro side ⟨⟩
      simpa [hasWaitingMessage] using waits
    · cases source with
      | router | dealer =>
        cases stepped
        exact .of_sockets wellFormed rfl (by simp [pc]) (by simp) (by simp)
  | receive source =>
    simp only [pc, Option.some.injEq] at stepped
    subst stepped
    apply Follows.of_steps
    · exact receive_wellFormed s wellFormed source pc
    · simp [Accepted, pc]
    · exact receive_relay s wellFormed source pc
  | send source =>
    simp only [pc, Option.some.injEq] at stepped
    subst stepped
    exact send_follows s wellFormed source room pc
  | sleep =>
    simp only [pc, Option.some.injEq] at stepped
    subst stepped
    exact .of_sockets wellFormed rfl (by simp [pc]) (by simp) (by simp)
  | finished => simp [pc] at stepped

theorem step_follows (s t : Broker) (e : Event) (wellFormed : s.WellFormed)
    (stepped : s.step e = some t) : s.Follows e t := by
  cases e with
  | arrival side first others =>
    cases stepped
    apply Follows.of_steps
    · exact arrive_wellFormed s wellFormed side _ (by simp)
    · simp [Accepted]
    · intro source
      rw [arrive_relay]
      exact .stay _
  | stop =>
    cases stepped
    apply Follows.of_steps
    · exact ⟨wellFormed.waiting, wellFormed.complete, wellFormed.polled, wellFormed.held⟩
    · simp [Accepted]
    · exact fun side => .stay _
  | worker room => exact worker_follows s t room wellFormed stepped

/-! ### Runs -/

/-- Everything dequeued from either socket has been taken by the other one, once and in the
order of arrival, but for the message the worker holds; at the top of the loop it holds
none. -/
def Forwards (s : Broker) : Prop :=
  ∀ source, (s.relay source).Balanced ∧
    (s.sockets source).dequeued <+: (s.sockets source).arrived ∧
    (s.pc = .top → (s.sockets source.other).outbox.assembly.delivered =
      (s.sockets source).dequeued)

theorem forwards_iff (s : Broker) (wellFormed : s.WellFormed) :
    s.Forwards ↔ ∀ source, (s.relay source).Balanced := by
  refine ⟨fun forwards source => (forwards source).1, fun balanced source => ?_⟩
  obtain ⟨messages, _, _, arrived⟩ := wellFormed.waiting source
  refine ⟨balanced source, ⟨messages, arrived.symm⟩, fun top => ?_⟩
  simpa [Relay.Balanced, relay, top] using balanced source

theorem run_wellFormed (s t : Broker) (events : List Event)
    (ran : Transition.run step s events = some t) (wellFormed : s.WellFormed) : t.WellFormed :=
  Transition.run_invariant step WellFormed
    (fun s e t stepped kept => (step_follows s t e kept stepped).wellFormed) s t events ran
    wellFormed

/-- A relay that has lost a message stays short. -/
theorem run_short (s t : Broker) (events : List Event)
    (ran : Transition.run step s events = some t) (wellFormed : s.WellFormed) (source : Side)
    (short : (s.relay source).Short) : (t.relay source).Short := by
  refine (Transition.run_invariant step
    (fun s => s.WellFormed ∧ (s.relay source).Short) ?_ s t events ran ⟨wellFormed, short⟩).2
  rintro s e t stepped ⟨kept, short⟩
  have follows := step_follows s t e kept stepped
  refine ⟨follows.wellFormed, ?_⟩
  by_cases accepts : Accepted s e
  · exact (follows.steps accepts source).short short
  · rcases follows.losses accepts source with step | loss
    · exact step.short short
    · exact loss.short (Or.inr short)

theorem run_balanced_iff (s t : Broker) (events : List Event)
    (ran : Transition.run step s events = some t) (wellFormed : s.WellFormed)
    (balanced : ∀ source, (s.relay source).Balanced) :
    (∀ source, (t.relay source).Balanced) ↔ Transition.Meets step Accepted s events := by
  induction events generalizing s with
  | nil =>
    cases ran
    exact iff_of_true balanced trivial
  | cons e events ih =>
    obtain ⟨u, first, rest⟩ := (Transition.run_cons step s t e events).mp ran
    have follows := step_follows s u e wellFormed first
    by_cases accepts : Accepted s e
    · rw [ih u rest follows.wellFormed
        fun source => (follows.steps accepts source).balanced (balanced source)]
      simp [Transition.Meets, accepts, first]
    · -- the relay that lost a message here is short, and stays short to the end of the run
      obtain ⟨source, loss⟩ := follows.loses accepts
      have short := run_short u t events rest follows.wellFormed source
        (loss.short (Or.inl (balanced source)))
      exact iff_of_false (fun all => (all source).not_short short) fun meets => accepts meets.1

end Broker

/-- In every run of the broker, for every order of arrivals and every pattern of refusals:
what was dequeued has been forwarded exactly when every socket that was sent to had room for
the message. -/
theorem broker_forwards_iff (events : List Broker.Event) (t : Broker)
    (ran : Transition.run Broker.step .setup events = some t) :
    t.Forwards ↔ Transition.Meets Broker.step Broker.Accepted .setup events := by
  have wellFormed := Broker.run_wellFormed .setup t events ran Broker.setup_wellFormed
  rw [t.forwards_iff wellFormed]
  exact Broker.run_balanced_iff .setup t events ran Broker.setup_wellFormed fun _ => rfl

/-- A request arrives and the worker forwards it; `room` is the answer of the dealer. -/
def forwardRequest (room : Bool) : List Broker.Event :=
  .arrival .router [1] [] :: List.replicate 7 (.worker fun _ => room)

/-- With no room at the dealer the request is gone when the worker is back at the top. -/
theorem forwardRequest_refused :
    ∃ t, Transition.run Broker.step .setup (forwardRequest false) = some t ∧ t.pc = .top ∧
      (t.sockets .router).dequeued = [[[1]]] ∧
      (t.sockets .dealer).outbox.assembly.delivered = [] ∧ ¬ t.Forwards := by
  refine ⟨_, rfl, rfl, rfl, rfl, fun forwards => ?_⟩
  exact absurd ((forwards .router).2.2 rfl) (by decide)

theorem forwardRequest_accepted :
    Transition.Meets Broker.step Broker.Accepted .setup (forwardRequest true) := by
  refine (broker_forwards_iff (forwardRequest true) _ rfl).mp fun source => ?_
  cases source with
  | router => exact ⟨rfl, List.prefix_refl _, fun _ => rfl⟩
  | dealer => exact ⟨rfl, List.prefix_refl _, fun _ => rfl⟩

end OfxZeroMQ
