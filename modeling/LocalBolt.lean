import LocalBolt.Machine.Observer
import LocalBolt.Foundation.Date
import LocalBolt.PinStore.Impl
import LocalBolt.PinStore.Lemmas.File
import LocalBolt.PinStore.Lemmas.Reopen
import LocalBolt.Session.Impl.Basic
import LocalBolt.Session.Impl.Event
import LocalBolt.Session.Impl.IpcManager
import LocalBolt.Session.Impl.ContentView
import LocalBolt.Session.Impl.Move
import LocalBolt.Session.Lemmas.Change
import LocalBolt.App.Impl.DaemonManager
import LocalBolt.App.Impl.SignalingManager
import LocalBolt.App.Impl.App
import LocalBolt.App.Impl.View
import LocalBolt.App.Lemmas.Simulation
import LocalBolt.Session.Lemmas.Approval
import LocalBolt.Session.Lemmas.Mismatch
import LocalBolt.Session.Lemmas.SasReview
import LocalBolt.App.Lemmas.Trust
import LocalBolt.Session.Lemmas.Counterpart
import LocalBolt.Session.Lemmas.Pairing
import LocalBolt.Session.Lemmas.KeyContinuity
import LocalBolt.App.Lemmas.DialOut
import LocalBolt.App.Lemmas.Bystander
import LocalBolt.Session.Lemmas.Inert
import LocalBolt.App.Lemmas.StaleEvents
import LocalBolt.Session.Lemmas.TransferState
import LocalBolt.App.Lemmas.Background
import LocalBolt.App.Lemmas.AllowedPairing
import LocalBolt.App.Lemmas.WtDetection
import LocalBolt.App.Lemmas.FileQueue
import LocalBolt.Bridge.Impl.Signaling
import LocalBolt.Bridge.Lemmas.Planes
import LocalBolt.Bridge.Impl.Ipc
import LocalBolt.Bridge.Lemmas.Delivery
import LocalBolt.IndexedRead.Basic
import LocalBolt.Bridge.Impl.Poll
import LocalBolt.Bridge.Lemmas.Snapshot
import LocalBolt.Bridge.Lemmas.Freshness
import LocalBolt.Machine.Tasks
import LocalBolt.Rendezvous.Impl.RoomManager
import LocalBolt.Rendezvous.Lemmas.Rooms
import LocalBolt.Rendezvous.Lemmas.Registrations
import LocalBolt.LastWrite.Basic
import LocalBolt.Rendezvous.Lemmas.Calls
import LocalBolt.Rendezvous.Lemmas.History
import LocalBolt.Rendezvous.Lemmas.RoomLimit
import LocalBolt.Rendezvous.Impl.Slots
import LocalBolt.Rendezvous.Lemmas.Slots
import LocalBolt.Rendezvous.Impl.ClientIp
import LocalBolt.Rendezvous.Lemmas.ClientIp
import LocalBolt.Rendezvous.Impl.Handler
import LocalBolt.Rendezvous.Lemmas.RateLimit
import LocalBolt.Rendezvous.Impl.WriteTask
import LocalBolt.Rendezvous.Lemmas.Handler
import LocalBolt.Rendezvous.Lemmas.Refusal
import LocalBolt.Rendezvous.Impl.Server
import LocalBolt.Rendezvous.Lemmas.Ownership
import LocalBolt.Rendezvous.Lemmas.Steps
import LocalBolt.Rendezvous.Lemmas.Sessions
import LocalBolt.Rendezvous.Lemmas.NoGhosts
import LocalBolt.Rendezvous.Lemmas.Atomic
import LocalBolt.Rendezvous.Lemmas.PresenceView
import LocalBolt.Rendezvous.Lemmas.Speakers
import LocalBolt.Machine.Noninterference
import LocalBolt.Rendezvous.Lemmas.Anonymous
import LocalBolt.Rendezvous.Lemmas.InRoom
import LocalBolt.Rendezvous.Lemmas.Isolation
import LocalBolt.Rendezvous.Lemmas.SessionReuse
import LocalBolt.Rendezvous.Lemmas.PeerCode
import LocalBolt.Windows.Basic
import LocalBolt.Rendezvous.Lemmas.Limiter
import LocalBolt.SortedMap.Basic
import LocalBolt.Codec.Basic
import LocalBolt.Rendezvous.Impl.Wire
import LocalBolt.Rendezvous.Lemmas.Wire
import LocalBolt.Rendezvous.Lemmas.Relay
import LocalBolt.Numeral.Basic
import LocalBolt.Occurrence.Basic
import LocalBolt.Rendezvous.Lemmas.AddrParser
import LocalBolt.Rendezvous.Lemmas.IpAddr
import LocalBolt.Rendezvous.Lemmas.PrivateIp
import LocalBolt.Rendezvous.Lemmas.RoomKey
import LocalBolt.Rendezvous.Lemmas.ProxyClients
import LocalBolt.Utf8.Basic
import LocalBolt.Http.Basic
import LocalBolt.Rendezvous.Impl.Peek
import LocalBolt.Rendezvous.Lemmas.Upgrade
import LocalBolt.Retention.Basic
import LocalBolt.Utf8.Strict
import LocalBolt.Bridge.Impl.Stderr
import LocalBolt.Bridge.Lemmas.Stderr
import LocalBolt.App.Impl.WtMonitor
import LocalBolt.App.Lemmas.WtScan
import LocalBolt.App.Lemmas.WtTracking
import LocalBolt.App.Lemmas.WtSas
import LocalBolt.JsonText.Basic
import LocalBolt.Session.Lemmas.Paused
import LocalBolt.Bridge.Impl.Decision
import LocalBolt.Bridge.Lemmas.Decision
import LocalBolt.JsonText.Strings
import LocalBolt.Foundation.IpcMessage
import LocalBolt.Cli.Impl.HandleEvent
import LocalBolt.Cli.Impl.EventLoop
import LocalBolt.Cli.Lemmas.HandleEvent
import LocalBolt.Cli.Lemmas.Prompts
import LocalBolt.Utf8.Slice
import LocalBolt.Cli.Impl.Value
import LocalBolt.Cli.Lemmas.EventLoop
import LocalBolt.Machine.Origin
import LocalBolt.App.Impl.Network
import LocalBolt.App.Lemmas.Network
import LocalBolt.Scan.Basic
import LocalBolt.Rendezvous.Impl.ManualLookup
import LocalBolt.Rendezvous.Lemmas.ManualLookup
import LocalBolt.Machine.Flow
import LocalBolt.Rendezvous.Lemmas.SignalOrder
import LocalBolt.JsonText.Print
import LocalBolt.JsonText.RoundTrip
import LocalBolt.Rendezvous.Impl.WireText
import LocalBolt.Rendezvous.Lemmas.WireText
import LocalBolt.Boxes.Basic
import LocalBolt.Bridge.Impl.Daemon
import LocalBolt.App.Impl.DaemonHost
import LocalBolt.App.Lemmas.DaemonHost
import LocalBolt.App.Lemmas.DaemonRequests
import LocalBolt.App.Impl.IpcHost
import LocalBolt.App.Lemmas.IpcHost
import LocalBolt.Script.Basic
import LocalBolt.Cli.Impl.Commands
import LocalBolt.Cli.Lemmas.Commands
import LocalBolt.Cli.Lemmas.CmdStart
import LocalBolt.Cli.Lemmas.CmdStop
import LocalBolt.Cli.Lemmas.CmdSend
import LocalBolt.Rendezvous.Impl.SignalingServer
import LocalBolt.Rendezvous.Lemmas.Capacity
import LocalBolt.Rendezvous.Lemmas.Service
import LocalBolt.Gtk.Impl.Shell
import LocalBolt.Gtk.Lemmas.Requests
import LocalBolt.Gtk.Lemmas.View
import LocalBolt.App.Lemmas.QueueOrder
import LocalBolt.Boxes.Cells
import LocalBolt.Bridge.Impl.Memory
import LocalBolt.Bridge.Lemmas.Memory
import LocalBolt.App.Impl.SignalingHost
import LocalBolt.App.Lemmas.SignalingHost
