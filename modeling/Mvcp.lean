import Mvcp.Library.Run
import Mvcp.Library.Record
import Mvcp.Library.Pool
import Mvcp.Library.History
import Mvcp.Library.Maps
import Mvcp.Library.BigEndian
import Mvcp.Library.Cond
import Mvcp.Library.Process
import Mvcp.Library.Framing
import Mvcp.Library.Link
import Mvcp.Library.Decoder
import Mvcp.Wire.Primitives
import Mvcp.Wire.Protocol
import Mvcp.Wire.Framing
import Mvcp.Messages.App
import Mvcp.Messages.Catalogue
import Mvcp.Negotiation.Hello
import Mvcp.Negotiation.Capabilities
import Mvcp.Negotiation.Revisions
import Mvcp.Negotiation.RoundTrip
import Mvcp.Negotiation.Handshake
import Mvcp.Negotiation.Agreement
import Mvcp.App.Task
import Mvcp.App.Stream
import Mvcp.App.Session
import Mvcp.App.Fires
import Mvcp.App.Acts
import Mvcp.App.Table
import Mvcp.App.Serve
import Mvcp.App.View
import Mvcp.App.Handshake
import Mvcp.App.Queues
import Mvcp.App.Ledger
import Mvcp.App.Transfer
import Mvcp.App.Routing
import Mvcp.App.Opening
import Mvcp.App.Progress
import Mvcp.App.Credit
import Mvcp.App.Handling
import Mvcp.App.Net
import Mvcp.App.Transport
import Mvcp.App.Pairing
import Mvcp.App.Bridge
import Mvcp.App.Frames
import Mvcp.App.Answering
import Mvcp.App.Agreement
import Mvcp.App.Backpressure
import Mvcp.App.Conservation
import Mvcp.App.Closing
import Mvcp.App.Truncation
import Mvcp.App.Entries
import Mvcp.App.Lifecycle
import Mvcp.App.Resolution
import Mvcp.App.Grants
import Mvcp.App.Teardown
import Mvcp.App.Wakeups
import Mvcp.App.Release
import Mvcp.App.AddCredit
import Mvcp.App.Isolation
import Mvcp.App.Handlers
import Mvcp.App.Shutdown
import Mvcp.App.Endpoints
import Mvcp.App.HalfClose
import Mvcp.Rpc.Client
import Mvcp.Rpc.Calls
import Mvcp.Rpc.Delivery
import Mvcp.Rpc.Response
import Mvcp.Rpc.Answer
import Mvcp.Rpc.Shutdown
import Mvcp.Rpc.Ids
import Mvcp.Rpc.Server
import Mvcp.Rpc.Multiplex
import Mvcp.Rpc.Transport
import Mvcp.Rpc.Closed
import Mvcp.Negotiation.Startup
