import AnvilRing.Lib.Bytes
import AnvilRing.Frames
import AnvilRing.Lib.Machine
import AnvilRing.Lib.KeyMap
import AnvilRing.Lib.Chan
import AnvilRing.Message
import AnvilRing.Hub.Stream
import AnvilRing.Hub.Moves
import AnvilRing.Hub.Ids
import AnvilRing.Hub.Response
import AnvilRing.Hub.Closing
import AnvilRing.Hub.Registry
import AnvilRing.Hub.World
import AnvilRing.Hub.Control
import AnvilRing.Hub.Revocation
import AnvilRing.Tether.Tunnel
import AnvilRing.Hub.Commands
import AnvilRing.Hub.Release
import AnvilRing.Tether.Moves
import AnvilRing.Tether.Streams
import AnvilRing.Tether.Input
import AnvilRing.Link.Wire
import AnvilRing.Link.Upload
import AnvilRing.Link.Load
import AnvilRing.Tether.Ends
import AnvilRing.Tether.Handles
import AnvilRing.Link.Orphans
import AnvilRing.Link.Budget
import AnvilRing.Hub.Outcome
import AnvilRing.Hub.Ends
import AnvilRing.Link.Isolation
import AnvilRing.Hub.Events
import AnvilRing.Hub.Routing
import AnvilRing.Admin.Issue
import AnvilRing.Admin.Calls
import AnvilRing.Admin.Audit
import AnvilRing.Admin.Standing
import AnvilRing.Hub.Authority
import AnvilRing.Link.Network
import AnvilRing.Link.Delivery
import AnvilRing.Lib.HttpHead
import AnvilRing.Http.Headers
import AnvilRing.Http.Response
import AnvilRing.Http.Request
import AnvilRing.Canonical
import AnvilRing.Link.Lease
import AnvilRing.Http.Proxy
import AnvilRing.Hub.UploadAbort
import AnvilRing.Hub.Wakeups
import AnvilRing.Hub.Admission
import AnvilRing.Http.Chunked
import AnvilRing.Http.ChunkedBody
import AnvilRing.Http.ChunkedReads
import AnvilRing.Tether.Heartbeat
import AnvilRing.Link.Secret
import AnvilRing.Http.HeadSize
import AnvilRing.Admin.Pages
import AnvilRing.Admin.Snapshot
import AnvilRing.Hub.Statuses
import AnvilRing.Http.ChunkedEnd
import AnvilRing.Http.Coding
import AnvilRing.Http.ChunkSize
import AnvilRing.Lib.Lines
import AnvilRing.Http.HeadEnd
import AnvilRing.Http.Reframe
import AnvilRing.Hub.Opening
import AnvilRing.Hub.Parting
import AnvilRing.Tether.Exchange
import AnvilRing.Link.Exchange
import AnvilRing.Link.Answers
import AnvilRing.Link.Vocabulary
import AnvilRing.Lib.Probe
import AnvilRing.Lib.Keepalive
import AnvilRing.Link.Timed
import AnvilRing.Link.Liveness
import AnvilRing.Link.Silence
import AnvilRing.Link.Greeting
import AnvilRing.Link.Rest
import AnvilRing.Lib.Variant
import AnvilRing.Hub.Work
import AnvilRing.Tether.Work
import AnvilRing.Hub.Bounds
import AnvilRing.Tether.Bounds
import AnvilRing.Link.Settling
import AnvilRing.Http.Bearer
import AnvilRing.Hub.Callers
import AnvilRing.Link.Frontend
