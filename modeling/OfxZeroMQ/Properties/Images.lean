import OfxZeroMQ.Properties.Copies
import OfxZeroMQ.Properties.Containers

/-!
# Images

Width, height, format and samples stand one after the other in the message. Encoder and
decoder find each of them where the copies before it end.
-/
namespace OfxZeroMQ

open Foundation.Buffer

namespace Message

end Message

namespace ToZmqMessage

end ToZmqMessage

end OfxZeroMQ
