import OfxZeroMQ.Foundation.Overload
import OfxZeroMQ.Foundation.Chain
import OfxZeroMQ.Foundation.Buffer
import OfxZeroMQ.Foundation.Framing
import OfxZeroMQ.Foundation.Transition
import OfxZeroMQ.Foundation.Traverse
import OfxZeroMQ.Model.Message
import OfxZeroMQ.Model.Types
import OfxZeroMQ.Model.Convert
import OfxZeroMQ.Model.Dispatch
import OfxZeroMQ.Model.Multipart
import OfxZeroMQ.Model.Socket
import OfxZeroMQ.Properties.Selection
import OfxZeroMQ.Properties.Multipart
import OfxZeroMQ.Properties.RoundTrip
import OfxZeroMQ.Model.EntryPoint
import OfxZeroMQ.Properties.Encoding
import OfxZeroMQ.Properties.UserConverter
import OfxZeroMQ.Properties.TrailingFlags
import OfxZeroMQ.Properties.Chaining
import OfxZeroMQ.Foundation.Subscription
import OfxZeroMQ.Model.Subscriber
import OfxZeroMQ.Properties.Filters
import OfxZeroMQ.Model.Broker
import OfxZeroMQ.Foundation.Relay
import OfxZeroMQ.Properties.Forwarding
import OfxZeroMQ.Model.XPubSubProxy
import OfxZeroMQ.Properties.Propagation
import OfxZeroMQ.Foundation.Lifetime
import OfxZeroMQ.Properties.Lifetimes
import OfxZeroMQ.Properties.Containers
import OfxZeroMQ.Model.Access
import OfxZeroMQ.Properties.Decoding
import OfxZeroMQ.Properties.SendResults
import OfxZeroMQ.Properties.Termination
import OfxZeroMQ.Model.Handover
import OfxZeroMQ.Properties.Handover
import OfxZeroMQ.Foundation.Layout
import OfxZeroMQ.Model.Copies
import OfxZeroMQ.Properties.Copies
import OfxZeroMQ.Properties.Receiving
import OfxZeroMQ.Model.Polling
import OfxZeroMQ.Properties.Polling
import OfxZeroMQ.Properties.Uninitialized
import OfxZeroMQ.Properties.Images
import OfxZeroMQ.Foundation.Simulation
import OfxZeroMQ.Model.Assignment
import OfxZeroMQ.Properties.Assignment
import OfxZeroMQ.Model.Identity
import OfxZeroMQ.Properties.Failures
import OfxZeroMQ.Properties.Identity
import OfxZeroMQ.Model.SendBuffer
import OfxZeroMQ.Model.Json
import OfxZeroMQ.Properties.Json
import OfxZeroMQ.Properties.SendBuffer
import OfxZeroMQ.Foundation.RangeTable
import OfxZeroMQ.Foundation.PrefixTree
import OfxZeroMQ.Foundation.Refinement
import OfxZeroMQ.Model.Trie
import OfxZeroMQ.Properties.Trie
import OfxZeroMQ.Foundation.Interest
import OfxZeroMQ.Model.Mtrie
import OfxZeroMQ.Properties.Mtrie
import OfxZeroMQ.Foundation.Replica
import OfxZeroMQ.Model.PubSub
import OfxZeroMQ.Properties.PubSub
import OfxZeroMQ.Foundation.Channel
import OfxZeroMQ.Model.Ypipe
import OfxZeroMQ.Properties.Ypipe
import OfxZeroMQ.Model.Pipe
import OfxZeroMQ.Properties.Pipe
import OfxZeroMQ.Foundation.Blocks
import OfxZeroMQ.Model.Wire
import OfxZeroMQ.Properties.Wire
import OfxZeroMQ.Foundation.Placement
import OfxZeroMQ.Foundation.Rotation
import OfxZeroMQ.Model.Routing
import OfxZeroMQ.Properties.PipeCalls
import OfxZeroMQ.Properties.Routing
import OfxZeroMQ.Properties.Membership
import OfxZeroMQ.Properties.Dealer
import OfxZeroMQ.Properties.Fairness
