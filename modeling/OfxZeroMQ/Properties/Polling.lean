import OfxZeroMQ.Model.Polling
import OfxZeroMQ.Properties.Receiving

/-!
# The cached answer of a poll

`getNextMessage` trusts what the last poll said. That stays true as long as no call takes the
last frame off the queue before the next poll.
-/
namespace OfxZeroMQ

open Foundation.Framing Foundation.Transition

/-! ### What a call leaves of the queue -/

namespace SocketEvent

/-- How many of the queued frames the event takes. -/
def taken (queue : List (Bytes × Bool)) : SocketEvent → Nat
  | arrive _ _ | hasWaitingMessage => 0
  | receive _ | getNextMessage _ => 1
  | receiveMessage _ | receiveMultipart _ | getNextMultipart _ | getNextMessages _ =>
    firstMessageLength queue

def compiles : SocketEvent → Bool
  | receive c | getNextMessage c => c.data.type.isReceivable
  | receiveMultipart c | getNextMessages c => receiveCompiles c.data
  | _ => true

end SocketEvent

end OfxZeroMQ
