import MeshcoreRpc.Handlers
import MeshcoreRpc.Core.Calls
import MeshcoreRpc.Core.Runs
import MeshcoreRpc.Core.Freshness
import MeshcoreRpc.Core.Ownership
import MeshcoreRpc.Core.Lifecycle
import MeshcoreRpc.Transport.Consume
import MeshcoreRpc.Transport.Service
import MeshcoreRpc.Transport.StaticBase
import MeshcoreRpc.Transport.Shutdown
import MeshcoreRpc.Persistence.Connection
import MeshcoreRpc.Lib.Crash
import MeshcoreRpc.Persistence.Migrations
import MeshcoreRpc.Tak.Bridge
import MeshcoreRpc.Tak.Presentable
import MeshcoreRpc.Tak.Topics
import MeshcoreRpc.Tak.Records
import MeshcoreRpc.Tak.Session
import MeshcoreRpc.Tak.Isolation
import MeshcoreRpc.Core.Counters
import MeshcoreRpc.Tak.Sink
import MeshcoreRpc.Lib.Exclusive
import MeshcoreRpc.Nodes.Marks
import MeshcoreRpc.Nodes.Retained
import MeshcoreRpc.Nodes.Refresh
import MeshcoreRpc.Nodes.Views
import MeshcoreRpc.Nodes.Coherence
import MeshcoreRpc.Nodes.Newest
import MeshcoreRpc.Nodes.Stamps
import MeshcoreRpc.Nodes.Readable
import MeshcoreRpc.Nodes.Online
import MeshcoreRpc.Tak.Offline
import MeshcoreRpc.Persistence.Purge
import MeshcoreRpc.Lib.Backoff
import MeshcoreRpc.Transport.Gpsd
import MeshcoreRpc.Tak.Reconnect
import MeshcoreRpc.Core.Snapshot
import MeshcoreRpc.Core.Endings
import MeshcoreRpc.Lib.TopicFilter
import MeshcoreRpc.Tak.Addresses
import MeshcoreRpc.Nodes.Fields
import MeshcoreRpc.Nodes.Stops
import MeshcoreRpc.Tak.Refill
import MeshcoreRpc.Tak.Relay
import MeshcoreRpc.Nodes.Glances
import MeshcoreRpc.Tak.Silence
import MeshcoreRpc.Config
import MeshcoreRpc.Transport.Adapter
import MeshcoreRpc.Nodes.ReturnToBase
import MeshcoreRpc.Transport.GpsdBase
import MeshcoreRpc.Lib.JsonRoundTrip
import MeshcoreRpc.Transport.Wire
import MeshcoreRpc.Tak.TextLink
import MeshcoreRpc.Transport.Requests
import MeshcoreRpc.Lib.Cells
import MeshcoreRpc.Transport.Memory
import MeshcoreRpc.Dates
import MeshcoreRpc.Lib.Framing
import MeshcoreRpc.Lib.XmlRoundTrip
import MeshcoreRpc.Tak.CotText
import MeshcoreRpc.Tak.Picture
import MeshcoreRpc.Transport.Retention
