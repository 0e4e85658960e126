import OfxZeroMQ.Properties.Forwarding
import OfxZeroMQ.Properties.Propagation

/-!
# Lifetimes of the broker and the proxy

`Broker` and `XPubSubProxy` start a worker in `setup` and wait for it in their destructors.
Their two flags are uninitialized; `Broker::setup` stores both of them, `XPubSubProxy::setup`
none.
-/
namespace OfxZeroMQ

open Foundation Foundation.Framing Foundation.Lifetime

/-! ### Receiving takes frames out of the queue -/

theorem Inbox.length_receiveMessage (i : Inbox) (flags : ReceiveFlag) (waits : i.queue ≠ []) :
    (i.receiveMessage flags).inbox.queue.length < i.queue.length := by
  have positive := List.length_pos_iff.mpr waits
  rw [receiveMessage, recv, MultipartMessage.queue_recvLoop, List.length_drop, firstMessageLength]
  omega

/-! ### Broker -/

namespace Broker

/-- The thread is in the loop, and receives only where a message waits. -/
def Ready (sockets : Side → BrokerSocket) (thread : Thread) : Prop :=
  thread.pc ≠ .finished ∧
    ∀ side, thread.pc = .receive side → (sockets side).inbox.queue ≠ []

/-- How far a position is from the end of the loop. -/
def weight : BrokerPc → Nat
  | .top | .finished => 0
  | .sleep | .receive _ => 1
  | .poll .dealer => 2
  | .poll .router => 3
  | .send _ => 4

def waitingFrames (sockets : Side → BrokerSocket) : Nat :=
  (sockets .router).inbox.queue.length + (sockets .dealer).inbox.queue.length

/-- One frame less outweighs the way from receiving it to sending it. -/
def rank (sockets : Side → BrokerSocket) (thread : Thread) : Nat :=
  4 * waitingFrames sockets + weight thread.pc

theorem arrive_ready (sockets : Side → BrokerSocket) (thread : Thread) (e : Arrival)
    (ready : Ready sockets thread) : Ready (loop.traffic sockets e) thread := by
  refine ⟨ready.1, fun side here => ?_⟩
  have waits := ready.2 side here
  by_cases same : side = e.side
  · subst same
    simp [loop, arrive, waits]
  · simpa [loop, arrive, same] using waits

theorem waitingFrames_receive (s : Broker) (source : Side)
    (waits : (s.sockets source).inbox.queue ≠ []) :
    waitingFrames (s.receive source).sockets < waitingFrames s.sockets := by
  have taken := Inbox.length_receiveMessage (s.sockets source).inbox .default waits
  cases source <;> simp [waitingFrames, receive] <;> omega

theorem inbox_send (s : Broker) (source side : Side) (room : Nat → Bool) :
    ((s.send source room).sockets side).inbox = (s.sockets side).inbox := by
  rw [send_eq]
  by_cases same : side = source.other
  · subst same
    simp
  · simp [same]

/-- Either the worker has left, with `is_running` cleared, or it is ready again and, with
`is_running` cleared, closer to the end. -/
def Continues (isRunning : Bool) (sockets : Side → BrokerSocket) (thread : Thread)
    (t : Side → BrokerSocket) : Option Thread → Prop
  | none => isRunning = false
  | some k => Ready t k ∧ (isRunning = false → rank t k < rank sockets thread)

theorem poll_continues (isRunning : Bool) (sockets : Side → BrokerSocket) (source : Side)
    (m : MultipartMessage) (room : Nat → Bool) : ∃ next,
      loop.step isRunning sockets ⟨.poll source, m⟩ room = some (sockets, next) ∧
        Continues isRunning sockets ⟨.poll source, m⟩ sockets next := by
  by_cases none : (sockets source).inbox.queue = []
  · cases source <;>
      simp [loop, blocks, worker, hasWaitingMessage, none, Continues, Ready, rank, weight]
  · -- the message that was found is there to be received
    cases source <;>
      simp [loop, blocks, worker, hasWaitingMessage, none, Continues, Ready, rank, weight]

theorem receive_continues (isRunning : Bool) (sockets : Side → BrokerSocket) (source : Side)
    (m : MultipartMessage) (room : Nat → Bool) (waits : (sockets source).inbox.queue ≠ []) :
    ∃ t next, loop.step isRunning sockets ⟨.receive source, m⟩ room = some (t, next) ∧
      Continues isRunning sockets ⟨.receive source, m⟩ t next := by
  let s : Broker := ⟨sockets, .receive source, m, isRunning⟩
  have taken := waitingFrames_receive s source waits
  refine ⟨(s.receive source).sockets, some ⟨.send source, (s.receive source).m⟩, ?_, ?_, ?_⟩
  · simp [loop, blocks, worker, hasWaitingMessage, waits, s]
  · simp [Ready]
  · change waitingFrames (s.receive source).sockets < waitingFrames sockets at taken
    simp only [rank, weight]
    omega

theorem send_continues (isRunning : Bool) (sockets : Side → BrokerSocket) (source : Side)
    (m : MultipartMessage) (room : Nat → Bool) :
    ∃ t next, loop.step isRunning sockets ⟨.send source, m⟩ room = some (t, next) ∧
      Continues isRunning sockets ⟨.send source, m⟩ t next := by
  let s : Broker := ⟨sockets, .send source, m, isRunning⟩
  have same : waitingFrames (s.send source room).sockets = waitingFrames sockets := by
    simp only [waitingFrames, inbox_send, s]
  refine ⟨(s.send source room).sockets, some ⟨.poll source, (s.send source room).m⟩, ?_, ?_, ?_⟩
  · simp [loop, blocks, worker, s]
  · simp [Ready]
  · simp only [rank, same]
    cases source <;> simp [weight]

/-- A worker that is ready never waits. -/
theorem ready_continues (isRunning : Bool) (sockets : Side → BrokerSocket) (thread : Thread)
    (room : Nat → Bool) (ready : Ready sockets thread) :
    ∃ t next, loop.step isRunning sockets thread room = some (t, next) ∧
      Continues isRunning sockets thread t next := by
  obtain ⟨pc, m⟩ := thread
  obtain ⟨looping, waits⟩ := ready
  cases pc with
  | finished => exact absurd rfl looping
  | top => cases isRunning <;> simp [loop, blocks, worker, Continues, Ready]
  | poll source => exact ⟨_, poll_continues isRunning sockets source m room⟩
  | receive source =>
    exact receive_continues isRunning sockets source m room (waits source rfl)
  | send source => exact send_continues isRunning sockets source m room
  | sleep => simp [loop, blocks, worker, Continues, Ready, rank, weight]

theorem continues_of_step {isRunning : Bool} {sockets t : Side → BrokerSocket}
    {thread : Thread} {room : Nat → Bool} {next : Option Thread} (ready : Ready sockets thread)
    (stepped : loop.step isRunning sockets thread room = some (t, next)) :
    Continues isRunning sockets thread t next := by
  obtain ⟨_, _, moved, continues⟩ := ready_continues isRunning sockets thread room ready
  cases stepped.symm.trans moved
  exact continues

def contract : Contract loop where
  Idle _ := True
  Ready := Ready
  rank := rank
  idle_traffic _ _ _ := trivial
  ready_traffic := arrive_ready
  enters _ _ := by simp [Ready, loop]
  stays _ _ _ _ _ _ ready stepped := (continues_of_step ready stepped).1
  leaves _ _ _ _ _ ready stepped := ⟨continues_of_step ready stepped, trivial⟩
  progress s pc ready := by
    obtain ⟨t, next, moved, continues⟩ := ready_continues false s pc (fun _ => true) ready
    cases next with
    | none => exact Or.inl ⟨_, t, moved⟩
    | some k => exact Or.inr ⟨_, t, k, moved, continues.2 rfl⟩

end Broker

/-- Whatever the two flags held, whoever called `setup` and wherever it threw: the lifetime of
a broker is safe in every run exactly when `setup` succeeded once, or never and `is_finish`
happened to be set. -/
theorem broker_lifetime_iff (flags : Lifetime.Flags) (setups : List Broker.Setup) :
    (∀ t, Broker.loop.Reaches (Broker.constructed flags setups) t →
        t.EndsAlone ∧ t.CanRelease Broker.loop ∧ t.KeepsLooping) ↔
      setups.count .succeeds = 1 ∨ setups.count .succeeds = 0 ∧ flags.finished = true := by
  have safe := Broker.contract.safe_iff flags (fun _ => .fresh) (setups.map Broker.Setup.attempt)
    trivial
  have stores : storeAll flags Broker.loop.stores = ⟨true, false⟩ := rfl
  have starts (setup : Broker.Setup) : setup.attempt = .starts ↔ setup = .succeeds := by
    cases setup <;> simp [Broker.Setup.attempt]
  simpa [count_starts _ _ starts, stores, Broker.constructed] using safe

/-- The destructor of a broker that was never set up waits for a worker that does not exist. -/
theorem broker_never_set_up :
    ∃ t, Broker.loop.Reaches (Broker.constructed ⟨false, false⟩ []) t ∧
      ¬ t.CanRelease Broker.loop :=
  Broker.loop.exists_not_canRelease ⟨false, false⟩ (fun _ => .fresh) [] rfl rfl

/-! ### XPubSubProxy -/

namespace XPubSubProxy

variable {ι : Type}

/-- The messages that have gone out on the XPUB side. -/
def Shared.forwarded (shared : Shared ι) : List MultipartMessage :=
  shared.proxy.pub.assembly.delivered

/-- Every message that has arrived was forwarded, in order, but for those the worker holds and
those that wait. -/
structure Accounts (shared : Shared ι) (held waiting : List MultipartMessage) : Prop where
  frames : ∀ message ∈ held ++ waiting, message ≠ []
  queue : shared.proxy.sub.queue = waiting.flatMap mark
  arrived : shared.arrived = shared.forwarded ++ held ++ waiting
  complete : shared.proxy.pub.assembly.pending = []

def Thread.held (thread : Thread) : List MultipartMessage :=
  if thread.pc = .send then [thread.m] else []

def Idle (shared : Shared ι) : Prop := ∃ waiting, Accounts shared [] waiting

def Ready (shared : Shared ι) (thread : Thread) : Prop :=
  thread.pc ≠ .finished ∧
    ∃ waiting, Accounts shared thread.held waiting ∧ (thread.pc = .receive → waiting ≠ [])

theorem traffic_accounts [DecidableEq ι] (shared : Shared ι) (e : Traffic ι)
    (held waiting : List MultipartMessage) (accounts : Accounts shared held waiting) :
    ∃ more, Accounts (loop.traffic shared e) held (waiting ++ more) := by
  obtain ⟨frames, queue, arrived, complete⟩ := accounts
  cases e with
  | subscribe | unsubscribe =>
    refine ⟨[], ?_⟩
    rw [List.append_nil]
    exact ⟨frames, queue, arrived, complete⟩
  | arrival first others =>
    refine ⟨[first :: others], ?_, ?_, ?_, complete⟩
    · simpa [or_imp, forall_and] using frames
    · simp [loop, arrive, queue]
    · simp [loop, Shared.forwarded, arrive, arrived]

/-! #### The steps of the worker -/

def Shared.waitingFrames (shared : Shared ι) : Nat := shared.proxy.sub.queue.length

/-- Where a step of the loop leads. -/
inductive Moves (isRunning : Bool) (shared t : Shared ι) : ProxyPc → Option ProxyPc → Prop where
  | leaves (cleared : isRunning = false) : Moves isRunning shared t .top none
  | enters (set : isRunning = true) (same : t.waitingFrames = shared.waitingFrames) :
    Moves isRunning shared t .top (some .poll)
  | finds (same : t.waitingFrames = shared.waitingFrames) :
    Moves isRunning shared t .poll (some .receive)
  | rests (none : shared.proxy.sub.queue = []) (same : t.waitingFrames = shared.waitingFrames) :
    Moves isRunning shared t .poll (some .sleep)
  | receives (less : t.waitingFrames < shared.waitingFrames) :
    Moves isRunning shared t .receive (some .send)
  | sends (same : t.waitingFrames = shared.waitingFrames) :
    Moves isRunning shared t .send (some .poll)
  | wakes (same : t.waitingFrames = shared.waitingFrames) :
    Moves isRunning shared t .sleep (some .top)

/-- What holds after a step. -/
structure Continues (isRunning : Bool) (shared : Shared ι) (thread : Thread) (t : Shared ι)
    (next : Option Thread) : Prop where
  moves : Moves isRunning shared t thread.pc (next.map Thread.pc)
  arrived : t.arrived = shared.arrived
  left : next = none → Idle t
  ready : ∀ k, next = some k → Ready t k

/-- A step that leaves the sockets alone, before and behind which no message is held. -/
theorem Accounts.of_sockets {shared t : Shared ι} {held waiting : List MultipartMessage}
    (accounts : Accounts shared held waiting) (sub : t.proxy.sub = shared.proxy.sub)
    (pub : t.proxy.pub = shared.proxy.pub) (arrived : t.arrived = shared.arrived) :
    Accounts t held waiting where
  frames := accounts.frames
  queue := by rw [sub, accounts.queue]
  arrived := by rw [Shared.forwarded, pub, arrived, accounts.arrived]; rfl
  complete := by rw [pub, accounts.complete]

theorem receive_accounts (s : XPubSubProxy ι) (arrived waiting : List MultipartMessage)
    (message : MultipartMessage) (accounts : Accounts ⟨s, arrived⟩ [] (message :: waiting)) :
    s.receive.m = message ∧ Accounts ⟨s.receive, arrived⟩ [message] waiting := by
  obtain ⟨frames, queue, order, complete⟩ := accounts
  have inbox : s.sub = ⟨mark message ++ waiting.flatMap mark, s.sub.calls⟩ := by
    rw [← List.flatMap_cons, ← queue]
  have received := Inbox.recv_mark message (waiting.flatMap mark) s.sub.calls
    ReceiveFlag.default.toFlags (frames message (by simp))
  rw [← inbox] at received
  have result : s.receive = { s with
      sub := (s.sub.recv ReceiveFlag.default.toFlags).inbox
      m := (s.sub.recv ReceiveFlag.default.toFlags).message } := rfl
  rw [result, received]
  exact ⟨rfl, frames, rfl, by simpa [Shared.forwarded] using order, complete⟩

theorem send_eq [DecidableEq ι] (s : XPubSubProxy ι) : s.send = { s with
    pub := (s.m.send (fun _ => true) SendFlag.default.toFlags s.pub).2.2
    delivered := s.delivered + (s.matching (s.m.headD [])).val.map fun i => (i, s.m)
    m := [] } := by
  rw [send, Outbox.sendMultipart_moved]

theorem send_accounts [DecidableEq ι] (s : XPubSubProxy ι)
    (arrived waiting : List MultipartMessage)
    (accounts : Accounts ⟨s, arrived⟩ [s.m] waiting) :
    s.send.sub = s.sub ∧ Accounts ⟨s.send, arrived⟩ [] waiting := by
  obtain ⟨frames, queue, order, complete⟩ := accounts
  have sent : (s.m.send (fun _ => true) SendFlag.default.toFlags s.pub).2.2.assembly =
      ⟨s.pub.assembly.delivered ++ [s.m], []⟩ := by
    rw [MultipartMessage.send_accepted s.m _ .default _ fun _ _ _ => rfl]
    have unfinished : s.pub.assembly.pending = [] := complete
    simp only [pushAll_mark _ s.m (frames s.m (by simp)), unfinished, List.nil_append]
  rw [send_eq]
  refine ⟨rfl, fun message member => frames message (List.mem_cons_of_mem _ member), queue,
    ?_, ?_⟩
  · simpa [Shared.forwarded, sent] using order
  · simp only [sent]

variable [DecidableEq ι]

/-- The proxy as the worker finds it. -/
abbrev Thread.view (thread : Thread) (isRunning : Bool) (shared : Shared ι) : XPubSubProxy ι :=
  { shared.proxy with pc := thread.pc, m := thread.m, isRunning := isRunning }

theorem top_continues (isRunning : Bool) (shared : Shared ι) (m : MultipartMessage)
    (waiting : List MultipartMessage) (accounts : Accounts shared [] waiting) :
    ∃ t next, loop.step isRunning shared ⟨.top, m⟩ () = some (t, next) ∧
      Continues isRunning shared ⟨.top, m⟩ t next := by
  cases isRunning with
  | false =>
    refine ⟨_, none, rfl, ⟨.leaves rfl, rfl, fun _ => ⟨waiting, ?_⟩, by simp⟩⟩
    exact accounts.of_sockets rfl rfl rfl
  | true =>
    refine ⟨_, some ⟨.poll, []⟩, rfl, ⟨.enters rfl rfl, rfl, by simp, ?_⟩⟩
    rintro _ ⟨⟩
    exact ⟨by simp, waiting, accounts.of_sockets rfl rfl rfl, by simp⟩

theorem poll_continues (isRunning : Bool) (shared : Shared ι) (m : MultipartMessage)
    (waiting : List MultipartMessage) (accounts : Accounts shared [] waiting) :
    ∃ t next, loop.step isRunning shared ⟨.poll, m⟩ () = some (t, next) ∧
      Continues isRunning shared ⟨.poll, m⟩ t next := by
  let s := Thread.view ⟨.poll, m⟩ isRunning shared
  by_cases none : shared.proxy.sub.queue = []
  · refine ⟨⟨{ s with pc := .sleep }, shared.arrived⟩, some ⟨.sleep, m⟩, ?_,
      ⟨.rests none rfl, rfl, by simp, ?_⟩⟩
    · simp [loop, blocks, worker, hasWaitingMessage, none, s]
    · rintro _ ⟨⟩
      exact ⟨by simp, waiting, accounts.of_sockets rfl rfl rfl, by simp⟩
  · refine ⟨⟨{ s with pc := .receive }, shared.arrived⟩, some ⟨.receive, m⟩, ?_,
      ⟨.finds rfl, rfl, by simp, ?_⟩⟩
    · simp [loop, blocks, worker, hasWaitingMessage, none, s]
    · rintro _ ⟨⟩
      refine ⟨by simp, waiting, accounts.of_sockets rfl rfl rfl, ?_⟩
      -- the frames that were found are those of a waiting message
      rintro _ rfl
      exact none accounts.queue

theorem receive_continues (isRunning : Bool) (shared : Shared ι) (m message : MultipartMessage)
    (others : List MultipartMessage) (accounts : Accounts shared [] (message :: others)) :
    ∃ t next, loop.step isRunning shared ⟨.receive, m⟩ () = some (t, next) ∧
      Continues isRunning shared ⟨.receive, m⟩ t next := by
  let s := Thread.view ⟨.receive, m⟩ isRunning shared
  have present : s.sub.queue ≠ [] := by
    have nonempty := mark_ne_nil message (accounts.frames message (by simp))
    simp [s, accounts.queue, nonempty]
  obtain ⟨held, after⟩ := receive_accounts s shared.arrived others message
    (accounts.of_sockets rfl rfl rfl)
  refine ⟨⟨{ s.receive with pc := .send }, shared.arrived⟩, some ⟨.send, message⟩, ?_,
    ⟨.receives ?_, rfl, by simp, ?_⟩⟩
  · simp [loop, blocks, worker, hasWaitingMessage, present, s, ← held]
  · exact Inbox.length_receiveMessage s.sub .default present
  · rintro _ ⟨⟩
    exact ⟨by simp, others, after.of_sockets rfl rfl rfl, by simp⟩

theorem send_continues (isRunning : Bool) (shared : Shared ι) (m : MultipartMessage)
    (waiting : List MultipartMessage) (accounts : Accounts shared [m] waiting) :
    ∃ t next, loop.step isRunning shared ⟨.send, m⟩ () = some (t, next) ∧
      Continues isRunning shared ⟨.send, m⟩ t next := by
  let s := Thread.view ⟨.send, m⟩ isRunning shared
  have here : Accounts ⟨s, shared.arrived⟩ [s.m] waiting := accounts.of_sockets rfl rfl rfl
  obtain ⟨same, after⟩ := send_accounts s shared.arrived waiting here
  refine ⟨⟨{ s.send with pc := .poll }, shared.arrived⟩, some ⟨.poll, s.send.m⟩, ?_,
    ⟨.sends ?_, rfl, by simp, ?_⟩⟩
  · simp [loop, blocks, worker, s]
  · exact congrArg (fun i : Inbox => i.queue.length) same
  · rintro _ ⟨⟩
    exact ⟨by simp, waiting, after.of_sockets rfl rfl rfl, by simp⟩

/-- A worker that is ready never waits. -/
theorem ready_continues (isRunning : Bool) (shared : Shared ι) (thread : Thread)
    (ready : Ready shared thread) :
    ∃ t next, loop.step isRunning shared thread () = some (t, next) ∧
      Continues isRunning shared thread t next := by
  obtain ⟨pc, m⟩ := thread
  obtain ⟨looping, waiting, accounts, waits⟩ := ready
  cases pc with
  | finished => exact absurd rfl looping
  | top => exact top_continues isRunning shared m waiting accounts
  | poll => exact poll_continues isRunning shared m waiting accounts
  | receive =>
    obtain ⟨message, others, rfl⟩ := List.exists_cons_of_ne_nil (waits rfl)
    exact receive_continues isRunning shared m message others accounts
  | send => exact send_continues isRunning shared m waiting accounts
  | sleep =>
    have quiet : Accounts shared [] waiting := accounts
    refine ⟨_, some ⟨.top, m⟩, rfl, ⟨.wakes rfl, rfl, by simp, ?_⟩⟩
    rintro _ ⟨⟩
    exact ⟨by simp, waiting, quiet.of_sockets rfl rfl rfl, by simp⟩

theorem continues_of_step {isRunning : Bool} {shared t : Shared ι} {thread : Thread} {i : Unit}
    {next : Option Thread} (ready : Ready shared thread)
    (stepped : loop.step isRunning shared thread i = some (t, next)) :
    Continues isRunning shared thread t next := by
  obtain ⟨_, _, moved, continues⟩ := ready_continues isRunning shared thread ready
  cases stepped.symm.trans moved
  exact continues

/-- How far a position is from the end of the loop. -/
def weight : ProxyPc → Nat
  | .top | .finished => 0
  | .sleep | .receive => 1
  | .poll => 2
  | .send => 3

/-- How far a position is from finding nothing to forward. -/
def distance : ProxyPc → Nat
  | .receive | .finished => 0
  | .poll => 1
  | .top | .send => 2
  | .sleep => 3

omit [DecidableEq ι] in
theorem Moves.cleared {isRunning : Bool} {shared t : Shared ι} {pc : ProxyPc}
    (moves : Moves isRunning shared t pc none) : isRunning = false := by
  cases moves with
  | leaves cleared => exact cleared

omit [DecidableEq ι] in
/-- With `is_running` cleared every step comes closer to the end of the loop. -/
theorem Moves.weight_lt {shared t : Shared ι} {pc next : ProxyPc}
    (moves : Moves false shared t pc (some next)) :
    3 * t.waitingFrames + weight next < 3 * shared.waitingFrames + weight pc := by
  cases moves with
  | enters set => simp at set
  | receives less =>
    simp only [weight]
    omega
  | finds same | rests _ same | sends same | wakes same =>
    simp only [weight]
    omega

omit [DecidableEq ι] in
/-- With `is_running` set every step comes closer to finding nothing, until nothing is left. -/
theorem Moves.distance_lt {shared t : Shared ι} {pc : ProxyPc} {next : Option ProxyPc}
    (moves : Moves true shared t pc next) :
    (pc = .poll ∧ shared.proxy.sub.queue = []) ∨ ∃ k, next = some k ∧
      3 * t.waitingFrames + distance k < 3 * shared.waitingFrames + distance pc := by
  cases moves with
  | leaves cleared => simp at cleared
  | rests none => exact Or.inl ⟨rfl, none⟩
  | receives less =>
    refine Or.inr ⟨_, rfl, ?_⟩
    simp only [distance]
    omega
  | enters _ same | finds same | sends same | wakes same =>
    refine Or.inr ⟨_, rfl, ?_⟩
    simp only [distance]
    omega

def contract : Contract (loop (ι := ι)) where
  Idle := Idle
  Ready := Ready
  rank shared thread := 3 * shared.waitingFrames + weight thread.pc
  idle_traffic shared e idle := by
    obtain ⟨waiting, accounts⟩ := idle
    obtain ⟨more, after⟩ := traffic_accounts shared e [] waiting accounts
    exact ⟨_, after⟩
  ready_traffic shared thread e ready := by
    obtain ⟨looping, waiting, accounts, waits⟩ := ready
    obtain ⟨more, after⟩ := traffic_accounts shared e thread.held waiting accounts
    exact ⟨looping, _, after, fun here => by simp [waits here]⟩
  enters shared idle := by
    obtain ⟨waiting, accounts⟩ := idle
    exact ⟨by simp [loop], waiting, accounts, by simp [loop]⟩
  stays _ _ _ _ _ k ready stepped := (continues_of_step ready stepped).ready k rfl
  leaves _ _ _ _ _ ready stepped :=
    have continues := continues_of_step ready stepped
    ⟨continues.moves.cleared, continues.left rfl⟩
  progress shared thread ready := by
    obtain ⟨t, next, moved, continues⟩ := ready_continues false shared thread ready
    cases next with
    | none => exact Or.inl ⟨(), t, moved⟩
    | some k => exact Or.inr ⟨(), t, k, moved, continues.moves.weight_lt⟩

/-! #### Runs -/

/-- What arrives goes out in order, and until destruction begins the worker can forward all
that has arrived. -/
structure Forwards (s : Lifetime.State (Shared ι) Thread) : Prop where
  ordered : s.shared.forwarded <+: s.shared.arrived
  forwards : ¬ s.IsBeingDestroyed → s.workers ≠ [] → ∃ t, loop.WorkersReach s t ∧
    t.shared.arrived = s.shared.arrived ∧ t.shared.forwarded = s.shared.arrived

omit [DecidableEq ι] in
theorem Accounts.ordered {shared : Shared ι} {held waiting : List MultipartMessage}
    (accounts : Accounts shared held waiting) : shared.forwarded <+: shared.arrived :=
  ⟨held ++ waiting, by rw [accounts.arrived, List.append_assoc]⟩

omit [DecidableEq ι] in
theorem Idle.ordered {shared : Shared ι} (idle : Idle shared) :
    shared.forwarded <+: shared.arrived := by
  obtain ⟨waiting, accounts⟩ := idle
  exact accounts.ordered

omit [DecidableEq ι] in
/-- Where the worker finds nothing, nothing is left. -/
theorem Ready.all_forwarded {shared : Shared ι} {thread : Thread} (ready : Ready shared thread)
    (polls : thread.pc = .poll) (none : shared.proxy.sub.queue = []) :
    shared.forwarded = shared.arrived := by
  obtain ⟨_, waiting, accounts, _⟩ := ready
  cases waiting with
  | nil => simp [accounts.arrived, Thread.held, polls]
  | cons message others =>
    have nonempty := mark_ne_nil message (accounts.frames message (by simp))
    simp [accounts.queue, nonempty] at none

theorem arrived_workersReach (s t : Lifetime.State (Shared ι) Thread)
    (reached : loop.WorkersReach s t) : t.shared.arrived = s.shared.arrived := by
  refine reached.invariant (fun t => t.shared.arrived = s.shared.arrived) ?_ rfl
  intro u n i v stepped same
  simp only [Loop.workerStep] at stepped
  split at stepped
  · obtain ⟨next, moved, rfl⟩ := Option.map_eq_some_iff.mp stepped
    simp only [loop] at moved
    split at moved
    · simp at moved
    · obtain ⟨_, _, rfl⟩ := Option.map_eq_some_iff.mp moved
      exact same
  · cases stepped
    exact same
  · simp at stepped

theorem forwards_of_single (s : Lifetime.State (Shared ι) Thread) (single : contract.Single s) :
    Forwards s := by
  cases single with
  | before idle | starting idle => exact ⟨idle.ordered, by simp⟩
  | draining ready =>
    obtain ⟨_, waiting, accounts, _⟩ := ready
    exact ⟨accounts.ordered, fun used => by simp [State.IsBeingDestroyed] at used⟩
  | looping ready none =>
    rename_i shared thread attempts
    let s : Lifetime.State (Shared ι) Thread :=
      ⟨⟨true, false⟩, shared, [.looping thread], .inUse, attempts⟩
    -- alone, the worker comes closer to finding nothing with every step
    have closer (shared : Shared ι) (thread : Thread) (ready : Ready shared thread) :
        (thread.pc = .poll ∧ shared.proxy.sub.queue = []) ∨
          ∃ i t k, loop.step true shared thread i = some (t, some k) ∧
            3 * t.waitingFrames + distance k.pc <
              3 * shared.waitingFrames + distance thread.pc := by
      obtain ⟨t, next, moved, continues⟩ := ready_continues true shared thread ready
      rcases continues.moves.distance_lt with found | ⟨pc, here, less⟩
      · exact Or.inl found
      · obtain ⟨k, rfl, rfl⟩ := Option.map_eq_some_iff.mp here
        exact Or.inr ⟨(), t, k, moved, less⟩
    refine ⟨ready.2.elim fun _ accounts => accounts.1.ordered, fun _ _ => ?_⟩
    obtain ⟨final, last, stays, ⟨polls, empty⟩, reached⟩ := contract.can_reach
      (fun shared thread => 3 * shared.waitingFrames + distance thread.pc)
      (fun shared thread => thread.pc = .poll ∧ shared.proxy.sub.queue = []) s 0 thread
      closer rfl ready
    have same := arrived_workersReach s _ reached
    exact ⟨_, reached, same, (stays.all_forwarded polls empty).trans same⟩
  | leaving idle | left idle | ended idle =>
    exact ⟨idle.ordered, fun used => by simp [State.IsBeingDestroyed] at used⟩

end XPubSubProxy

/-- With one successful `setup` the worker of a proxy forwards until it is destroyed, and is
waited for, in every run exactly when the flags happened to be right from the beginning. -/
theorem proxy_lifetime_iff {ι : Type} [DecidableEq ι] (flags : Lifetime.Flags)
    (setups : List XPubSubProxy.Setup) (one : setups.count .succeeds = 1) :
    (∀ t : Lifetime.State (XPubSubProxy.Shared ι) XPubSubProxy.Thread,
        XPubSubProxy.loop.Reaches (XPubSubProxy.constructed flags setups) t →
          t.EndsAlone ∧ t.KeepsLooping ∧ XPubSubProxy.Forwards t) ↔
      flags.running = true ∧ flags.finished = false := by
  have starts (setup : XPubSubProxy.Setup) : setup.attempt = .starts ↔ setup = .succeeds := by
    cases setup <;> simp [XPubSubProxy.Setup.attempt]
  have attempts := (count_starts _ _ starts setups).trans one
  have fresh : XPubSubProxy.Idle (⟨.setup flags.running, []⟩ : XPubSubProxy.Shared ι) :=
    ⟨[], by simp, rfl, rfl, rfl⟩
  constructor
  · intro safe
    by_contra wrong
    obtain ⟨t, reached, broken⟩ := XPubSubProxy.contract.exists_not_safe flags
      ⟨.setup flags.running, []⟩ _ fresh attempts
      fun stores => wrong (by
        have same : flags = ⟨true, false⟩ := stores
        simp [same])
    exact broken ⟨(safe t reached).1, (safe t reached).2.1⟩
  · rintro ⟨running, finished⟩ t reached
    have stores : storeAll flags (XPubSubProxy.loop (ι := ι)).stores = ⟨true, false⟩ := by
      obtain ⟨_, _⟩ := flags
      simpa [XPubSubProxy.loop, storeAll] using ⟨running, finished⟩
    have single := (Contract.Single.before (c := XPubSubProxy.contract) fresh attempts
      stores).reaches reached
    exact ⟨single.endsAlone, single.keepsLooping, XPubSubProxy.forwards_of_single t single⟩

/-- Were `is_running` set and `is_finish` cleared from the beginning, all would be well. -/
theorem proxy_lifetime_initialized :
    [XPubSubProxy.Setup.succeeds].count .succeeds = 1 ∧
      ∀ t : Lifetime.State (XPubSubProxy.Shared Unit) XPubSubProxy.Thread,
        XPubSubProxy.loop.Reaches (XPubSubProxy.constructed ⟨true, false⟩ [.succeeds]) t →
          t.EndsAlone ∧ t.KeepsLooping ∧ XPubSubProxy.Forwards t :=
  ⟨rfl, (proxy_lifetime_iff ⟨true, false⟩ [.succeeds] rfl).mpr ⟨rfl, rfl⟩⟩

/-- A worker started with both flags cleared leaves its loop at once. -/
theorem proxy_never_runs :
    ∃ t : Lifetime.State (XPubSubProxy.Shared Unit) XPubSubProxy.Thread,
      XPubSubProxy.loop.Reaches (XPubSubProxy.constructed ⟨false, false⟩ [.succeeds]) t ∧
        ¬ t.KeepsLooping := by
  refine ⟨⟨⟨false, false⟩, ⟨{ XPubSubProxy.setup false with pc := .finished }, []⟩, [.leaving],
    .inUse, []⟩, ⟨[.owner, .owner, .worker 0 ()], rfl⟩, fun keeps => ?_⟩
  simpa using keeps (by simp [State.IsBeingDestroyed]) .leaving (by simp)

end OfxZeroMQ
