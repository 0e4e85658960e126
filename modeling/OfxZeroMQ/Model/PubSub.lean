import OfxZeroMQ.Model.Mtrie
import OfxZeroMQ.Model.Trie

/-!
# Subscriptions on their way to a publisher

A SUB socket keeps its subscriptions and sends their changes to its publishers. An XPUB socket keeps
what the pipes have asked for, and tells its application which prefixes become wanted and unwanted.
-/
namespace OfxZeroMQ

/-- The message that asks for a prefix, or cancels it. -/
def request (subscribe : Bool) (key : Bytes) : Bytes := (if subscribe then 1 else 0) :: key

/-! ### The subscribing side -/

namespace Sub

/-- `xsub_t::xsend`, with the messages that are passed on to every publisher. -/
def xsend (subscriptions : Trie) (msg : Bytes) : Option (List Bytes × Trie) :=
  match msg with
  | [] => some ([msg], subscriptions)
  | first :: data =>
    if first = 1 then (subscriptions.add data).map fun (_, t) => ([msg], t)
    else if first = 0 then
      (subscriptions.rm data).map fun (removed, t) => (if removed then [msg] else [], t)
    else some ([msg], subscriptions)

/-- `sub_t::xsetsockopt` -/
def xsetsockopt (subscriptions : Trie) (subscribe : Bool) (optval : Bytes) :
    Option (List Bytes × Trie) := xsend subscriptions (request subscribe optval)

/-- What `xsub_t::xattach_pipe` sends to a new publisher. -/
def cached (subscriptions : Trie) : Option (List Bytes) :=
  subscriptions.apply.map fun keys => keys.map (request true)

end Sub

/-! ### The publishing side -/

structure XPub (π : Type) where
  subscriptions : Mtrie π
  pendingData : List Bytes
  verboseSubs : Bool
  verboseUnsubs : Bool
  -- `options.type == ZMQ_XPUB`; otherwise the socket is a PUB socket
  isXpub : Bool

namespace XPub

variable {π : Type} [DecidableEq π]

def notify (x : XPub π) (subscriptions : Mtrie π) (messages : List Bytes) : XPub π :=
  { x with
    subscriptions := subscriptions
    pendingData := if x.isXpub then x.pendingData ++ messages else x.pendingData }

/-- One round of the loop of `xread_activated`. For a message that does not start with 0 or 1
`data` stays null: the empty prefix is cancelled, and a notification would be written in front of
a null pointer. -/
def receive (x : XPub π) (pipe : π) : Bytes → Option (XPub π)
  | [] => some { x with pendingData := x.pendingData ++ [[]] }
  | first :: body =>
    if first = 1 then
      (x.subscriptions.add body pipe).map fun (first_added, t) =>
        x.notify t (if first_added || x.verboseSubs then [request true body] else [])
    else
      let data := if first = 0 then body else []
      (x.subscriptions.rm data pipe).bind fun (rm_result, t) =>
        let notifies := rm_result != .valuesRemain || x.verboseUnsubs
        if x.isXpub && notifies && first != 0 then none
        else some (x.notify t (if notifies then [request false data] else []))

def pipeTerminated (x : XPub π) (pipe : π) : Option (XPub π) :=
  (x.subscriptions.rmPipe pipe (!x.verboseUnsubs)).map fun (keys, t) =>
    x.notify t (keys.map (request false))

end XPub

/-! ### The two sides and the pipes between them -/

structure Link (ι : Type) where
  subscriber : ι
  -- the messages the publisher has not read
  queue : List Bytes
  /-- no message was dropped because the pipe was full -/
  complete : Bool

/-- A full pipe drops the messages. -/
def Link.send {ι : Type} (l : Link ι) (messages : List Bytes) (full : Bool) : Link ι :=
  if full then { l with complete := l.complete && messages.isEmpty }
  else { l with queue := l.queue ++ messages }

structure PubSub (ι π : Type) where
  xpub : XPub π
  subs : ι → Trie
  links : π → Option (Link ι)
  -- the notifications the application of the XPUB socket has received
  received : List Bytes

namespace PubSub

inductive Event (ι π : Type) where
  -- `full` are the pipes that are full
  | setsockopt (i : ι) (subscribe : Bool) (key : Bytes) (full : Finset π)
  -- a pipe between a subscriber and the publisher, with room for some messages at first
  | attach (p : π) (i : ι) (room : Option Nat)
  -- the publisher reads one message
  | read (p : π)
  | terminate (p : π)
  | xrecv

variable {ι π : Type} [DecidableEq ι] [DecidableEq π]

def initial (verboseSubs verboseUnsubs isXpub : Bool) : PubSub ι π :=
  ⟨⟨Mtrie.empty, [], verboseSubs, verboseUnsubs, isXpub⟩, fun _ => Trie.empty, fun _ => none,
    []⟩

/-- `send_to_all` of a subscriber. -/
def sendToAll (s : PubSub ι π) (i : ι) (t : Trie) (messages : List Bytes) (full : Finset π) :
    PubSub ι π :=
  { s with
    subs := Function.update s.subs i t
    links := fun p => (s.links p).map fun l =>
      if l.subscriber = i then l.send messages (decide (p ∈ full)) else l }

def setsockopt (s : PubSub ι π) (i : ι) (subscribe : Bool) (key : Bytes) (full : Finset π) :
    Option (PubSub ι π) :=
  (Sub.xsetsockopt (s.subs i) subscribe key).map fun (messages, t) =>
    s.sendToAll i t messages full

def attach (s : PubSub ι π) (p : π) (i : ι) (room : Option Nat) : Option (PubSub ι π) :=
  match s.links p with
  | some _ => some s
  | none => (Sub.cached (s.subs i)).map fun messages =>
    let fitting := messages.take (room.getD messages.length)
    let link : Link ι := ⟨i, fitting, decide (fitting.length = messages.length)⟩
    { s with links := Function.update s.links p (some link) }

def read (s : PubSub ι π) (p : π) : Option (PubSub ι π) :=
  match s.links p with
  | some ⟨subscriber, message :: queue, complete⟩ =>
    (s.xpub.receive p message).map fun xpub =>
      { s with
        xpub := xpub
        links := Function.update s.links p (some ⟨subscriber, queue, complete⟩) }
  | _ => some s

def terminate (s : PubSub ι π) (p : π) : Option (PubSub ι π) :=
  match s.links p with
  | some _ => (s.xpub.pipeTerminated p).map fun xpub =>
    { s with xpub := xpub, links := Function.update s.links p none }
  | none => some s

def xrecv (s : PubSub ι π) : PubSub ι π :=
  match s.xpub.pendingData with
  | [] => s
  | message :: pending =>
    { s with
      xpub := { s.xpub with pendingData := pending }
      received := s.received ++ [message] }

def step (s : PubSub ι π) : Event ι π → Option (PubSub ι π)
  | .setsockopt i subscribe key full => s.setsockopt i subscribe key full
  | .attach p i room => s.attach p i room
  | .read p => s.read p
  | .terminate p => s.terminate p
  | .xrecv => some s.xrecv

end PubSub

end OfxZeroMQ
