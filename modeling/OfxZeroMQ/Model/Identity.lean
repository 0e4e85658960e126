import OfxZeroMQ.Model.Message

/-!
# The identity of a socket

`setIdentity` and `getIdentity` hand a buffer and its length to the options of the socket. The
length that a getter is given says how much room the buffer has.
-/
namespace OfxZeroMQ

open Foundation.Buffer

/-- The `errno` of a `zmq::error_t`. -/
inductive Errno where
  | einval
deriving DecidableEq

def ucharMax : Nat := 255

/-- What `zmq::options_t` keeps of the identity; `routing_id_size` is an `unsigned char`. -/
structure Options where
  routingId : Bytes
  bounded : routingId.length ≤ ucharMax

/-- `zmq::do_getsockopt`, with what the buffer and `*optvallen_` hold before and afterwards. -/
def doGetsockopt (optval : Bytes) (optvallen : Nat) (value : Bytes) :
    Except Errno (Bytes × Nat) :=
  if optvallen < value.length then .error .einval
  else
    let copied := patch optval 0 value
    let zeros := List.replicate (optvallen - value.length) 0
    .ok (patch copied value.length zeros, value.length)

namespace Options

def initial : Options := ⟨[], by simp⟩

/-- `options_t::setsockopt(ZMQ_ROUTING_ID, ...)` -/
def setsockopt (_o : Options) (optval : Bytes) : Except Errno Options :=
  if valid : 0 < optval.length ∧ optval.length ≤ ucharMax then .ok ⟨optval, valid.2⟩
  else .error .einval

/-- `options_t::getsockopt(ZMQ_ROUTING_ID, ...)` -/
def getsockopt (o : Options) (optval : Bytes) (optvallen : Nat) : Except Errno (Bytes × Nat) :=
  doGetsockopt optval optvallen o.routingId

/-- `Socket::setIdentity`; `ZMQ_IDENTITY` is another name of `ZMQ_ROUTING_ID`. -/
def setIdentity (o : Options) (data : Bytes) : Except Errno Options := o.setsockopt data

/-- `Socket::getIdentity` -/
def getIdentity (mem : Memory) (o : Options) : Except Errno Bytes := do
  -- `std::size_t size{0};`
  let (buf, size) ← o.getsockopt (mem.uninitialized 256) 0
  return buf.take size

/-- Some calls of `setIdentity` one after the other; a call that throws changes nothing. -/
def setIdentities (o : Options) (identities : List Bytes) : Options :=
  identities.foldl (fun o data => (o.setIdentity data).toOption.getD o) o

end Options

end OfxZeroMQ
