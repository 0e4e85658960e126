import OfxZeroMQ.Foundation.Lifetime
import OfxZeroMQ.Foundation.Subscription
import OfxZeroMQ.Model.Socket

/-!
# XPubSubProxy

Publishers are connected to the XSUB socket of the proxy and subscribers to its XPUB socket.
All publishers see the same requests, so a publication does not name its publisher.
-/
namespace OfxZeroMQ

open Foundation Foundation.Framing

inductive ProxyPc where
  -- `while(is_running)`
  | top
  -- `while(sub.hasWaitingMessage())`
  | poll
  -- `sub.receiveMultipart(m)`
  | receive
  -- `pub.sendMultipart(std::move(m))`
  | send
  | sleep
  | finished
deriving DecidableEq

structure XPubSubProxy (ι : Type) where
  -- the table of the XPUB socket: who subscribed to what
  subscriptions : Finset (ι × Bytes)
  -- the subscription frames the XPUB socket has ready for its application
  notifications : List Bytes
  -- the frames the application has sent on the XSUB socket
  requests : List Bytes
  sub : Inbox
  pub : Outbox
  -- the messages that left the XPUB socket, with the subscribers they went to
  delivered : Multiset (ι × MultipartMessage)
  /-- the messages that subscribers are to get: published with a matching topic while the
  worker had nothing to forward, and not unsubscribed from since -/
  owed : Multiset (ι × MultipartMessage)
  pc : ProxyPc
  -- the local variable of the loop body
  m : MultipartMessage
  isRunning : Bool

namespace XPubSubProxy

variable {ι : Type} [DecidableEq ι]

/-- The state after `setup`, which leaves `is_running` as it was. -/
def setup (isRunning : Bool) : XPubSubProxy ι :=
  ⟨∅, [], [], ⟨[], []⟩, .idle, 0, 0, .top, [], isRunning⟩

/-- `zmq::xsub_t::xsend` -/
def xsend (s : Subscription.Counts UInt8) : Bytes → Subscription.Counts UInt8
  | 1 :: topic => Subscription.add s topic
  | 0 :: topic => Subscription.rm s topic
  | _ => s

/-- What the publishers have been asked for. -/
def requested (s : XPubSubProxy ι) : Subscription.Counts UInt8 := s.requests.foldl xsend 0

/-- The subscribers that the XPUB socket sends a message with this first frame to. -/
def matching (s : XPubSubProxy ι) (topic : Bytes) : Finset ι :=
  (s.subscriptions.filter fun x => x.2 <+: topic).image Prod.fst

/-- The worker holds no message and finds none waiting. -/
def IsQuiescent (s : XPubSubProxy ι) : Prop :=
  s.sub.queue = [] ∧ s.pc ≠ .receive ∧ s.pc ≠ .send

instance (s : XPubSubProxy ι) : Decidable s.IsQuiescent := inferInstanceAs (Decidable (_ ∧ _))

inductive Event (ι : Type) where
  | subscribe (subscriber : ι) (topic : Bytes)
  | unsubscribe (subscriber : ι) (topic : Bytes)
  -- a publisher publishes a message of one frame or more
  | publish (topic : Bytes) (others : List Bytes)
  | worker
  -- `~XPubSubProxy`
  | stop

/-- A subscription frame reaches the XPUB socket, which reports the first of its topic. -/
def subscribe (s : XPubSubProxy ι) (subscriber : ι) (topic : Bytes) : XPubSubProxy ι :=
  { s with
    subscriptions := insert (subscriber, topic) s.subscriptions
    notifications := if topic ∈ s.subscriptions.image Prod.snd then s.notifications
      else s.notifications ++ [1 :: topic] }

/-- A cancelling frame reaches the XPUB socket, which reports the last of its topic. -/
def unsubscribe (s : XPubSubProxy ι) (subscriber : ι) (topic : Bytes) : XPubSubProxy ι :=
  let subscriptions := s.subscriptions.erase (subscriber, topic)
  { s with
    subscriptions := subscriptions
    notifications := if topic ∈ subscriptions.image Prod.snd then s.notifications
      else s.notifications ++ [0 :: topic]
    owed := s.owed.filter fun x => x.1 ≠ subscriber }

/-- A publisher sends a message to the XSUB socket only if its topic was requested. -/
def publish (s : XPubSubProxy ι) (topic : Bytes) (others : List Bytes) : XPubSubProxy ι :=
  let message := topic :: others
  { s with
    sub := if Subscription.check s.requested topic
      then { s.sub with queue := s.sub.queue ++ mark message } else s.sub
    owed := if s.IsQuiescent then s.owed + (s.matching topic).val.map fun i => (i, message)
      else s.owed }

def hasWaitingMessage (s : XPubSubProxy ι) : Bool := !s.sub.queue.isEmpty

def receive (s : XPubSubProxy ι) : XPubSubProxy ι :=
  let received := s.sub.receiveMessage .default
  { s with sub := received.inbox, m := received.message }

/-- The XPUB socket takes every message, and drops it for those it does not match. -/
def send (s : XPubSubProxy ι) : XPubSubProxy ι :=
  match s.pub.sendMultipart default (fun _ => true)
      [⟨CppType.multipart.unspecialized, .rvalue, s.m⟩] with
  | .ok (_, pub) =>
    { s with
      pub := pub
      delivered := s.delivered + (s.matching (s.m.headD [])).val.map fun i => (i, s.m)
      m := [] }
  | .error _ => s

/-- The loop reads the XSUB socket and writes the XPUB socket, and nothing else. -/
def worker (s : XPubSubProxy ι) : Option (XPubSubProxy ι) :=
  match s.pc with
  | .top => some { s with m := [], pc := if s.isRunning then .poll else .finished }
  | .poll => some { s with pc := if s.hasWaitingMessage then .receive else .sleep }
  | .receive => some { s.receive with pc := .send }
  | .send => some { s.send with pc := .poll }
  | .sleep => some { s with pc := .top }
  | .finished => none

def step (s : XPubSubProxy ι) : Event ι → Option (XPubSubProxy ι)
  | .subscribe subscriber topic => some (s.subscribe subscriber topic)
  | .unsubscribe subscriber topic => some (s.unsubscribe subscriber topic)
  | .publish topic others => some (s.publish topic others)
  | .worker => s.worker
  | .stop => some { s with isRunning := false }

/-! ### Lifetime -/

/-- A call of `setup`, which throws what either of its two binds throws. -/
inductive Setup where
  | pubThrows
  | subThrows
  | succeeds
deriving DecidableEq

def Setup.attempt : Setup → Lifetime.Attempt
  | pubThrows | subThrows => .fails
  | succeeds => .starts

/-- What the worker thread has for itself. -/
structure Thread where
  pc : ProxyPc
  m : MultipartMessage

/-- The proxy, with the messages that have arrived at its XSUB socket. What it says about `pc`,
`m` and `is_running` is that of the last step of a thread. -/
structure Shared (ι : Type) where
  proxy : XPubSubProxy ι
  arrived : List MultipartMessage

inductive Traffic (ι : Type) where
  | subscribe (subscriber : ι) (topic : Bytes)
  | unsubscribe (subscriber : ι) (topic : Bytes)
  -- a message of one frame or more arrives, whoever asked for it
  | arrival (first : Bytes) (others : List Bytes)

def arrive (s : XPubSubProxy ι) (message : MultipartMessage) : XPubSubProxy ι :=
  { s with sub := { s.sub with queue := s.sub.queue ++ mark message } }

/-- `receiveMultipart` waits when another worker has taken the message. -/
def blocks (s : XPubSubProxy ι) : Bool :=
  match s.pc with
  | .receive => !s.hasWaitingMessage
  | _ => false

/-- `setup`, which stores nothing, and the thread it starts; `is_running` and `is_finish` are
the two flags. -/
def loop : Lifetime.Loop (Shared ι) Thread Unit (Traffic ι) where
  stores := []
  entry := ⟨.top, []⟩
  step isRunning shared thread _ :=
    let s := { shared.proxy with pc := thread.pc, m := thread.m, isRunning := isRunning }
    if s.blocks then none
    else s.worker.map fun t =>
      (⟨t, shared.arrived⟩, if t.pc = .finished then none else some ⟨t.pc, t.m⟩)
  traffic shared
    | .subscribe subscriber topic =>
      { shared with proxy := shared.proxy.subscribe subscriber topic }
    | .unsubscribe subscriber topic =>
      { shared with proxy := shared.proxy.unsubscribe subscriber topic }
    | .arrival first others =>
      ⟨shared.proxy.arrive (first :: others), shared.arrived ++ [first :: others]⟩

/-- A proxy as it is constructed, with the flags uninitialized, and the calls of `setup` that
its owner will make. -/
def constructed (flags : Lifetime.Flags) (setups : List Setup) :
    Lifetime.State (Shared ι) Thread :=
  Lifetime.initial flags ⟨setup flags.running, []⟩ (setups.map Setup.attempt)

end XPubSubProxy

end OfxZeroMQ
