import Relay.Library.OrdDict
import Relay.Library.Heap
import Relay.Library.Runs
import Relay.Library.Drain
import Relay.Library.Simulation
import Relay.Library.Counting
import Relay.Library.History
import Relay.Library.Ancestry
import Relay.Library.Shedding
import Relay.Library.Scan
import Relay.Library.Batch
import Relay.Library.Gather
import Relay.Library.Checks
import Relay.Library.Slots
import Relay.Library.Rows
import Relay.Library.Tally
import Relay.Queue.Session
import Relay.Queue.Basic
import Relay.Queue.Frame
import Relay.Queue.Accounting
import Relay.Queue.Registry
import Relay.Queue.Operations
import Relay.Queue.Fifo
import Relay.Queue.Turns
import Relay.Queue.Surrender
import Relay.Queue.Lifecycle
import Relay.Clients.SharedSpot
import Relay.Clients.StatusPoller
import Relay.Clients.Lineage
import Relay.Clients.Identity
import Relay.Clients.Attribution
import Relay.Queue.Reports
import Relay.Queue.Coverage
import Relay.Queue.SessionCap
import Relay.Queue.Snapshot
import Relay.Queue.Refinement
import Relay.Queue.Service
import Relay.Endpoint.Basic
import Relay.Endpoint.Moves
import Relay.Endpoint.Connections
import Relay.Endpoint.Balance
import Relay.Endpoint.Accounting
import Relay.Endpoint.Race
import Relay.Endpoint.Tracking
import Relay.Endpoint.Activity
import Relay.Endpoint.Lifetime
import Relay.Endpoint.Manager
import Relay.Endpoint.Poll
import Relay.Endpoint.Fleet
import Relay.Endpoint.Cooldown
import Relay.Endpoint.Reports
import Relay.Endpoint.Staleness
import Relay.Endpoint.Refresh
import Relay.Endpoint.Ancestors
import Relay.Endpoint.BusyWindow
import Relay.Endpoint.SpotOrder
import Relay.Endpoint.Dedupe
import Relay.Endpoint.Probes
import Relay.Endpoint.Answers
import Relay.Server.Basic
import Relay.Server.Moves
import Relay.Server.Ownership
import Relay.Server.System
import Relay.Server.Gating
import Relay.Server.Schedule
import Relay.Server.Mirror
import Relay.Server.Degraded
import Relay.Server.Display
import Relay.Server.Audit
import Relay.Server.Countdown
import Relay.Endpoint.Wake
import Relay.Transport.Http
import Relay.Transport.Headers
import Relay.Transport.Tunnel
import Relay.Transport.Target
import Relay.Store.RequestLog
import Relay.Store.Retention
import Relay.Store.Database
import Relay.Store.Chronicle
import Relay.Transport.Traffic
import Relay.Config.Interpolation
import Relay.Config.Fields
import Relay.Config.Build
import Relay.Config.Routing
import Relay.Config.Spelling
import Relay.Power.Redfish
import Relay.App.Unknown
import Relay.App.Console
import Relay.App.Basic
import Relay.App.Flow
import Relay.App.Admissions
import Relay.App.Orders
import Relay.App.Listing
import Relay.App.Awaiting
import Relay.App.Progress
