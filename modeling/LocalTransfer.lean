import LocalTransfer.Lib.Hex
import LocalTransfer.Lib.Interleave
import LocalTransfer.Lib.SortedKeys
import LocalTransfer.Lib.Text
import LocalTransfer.Lib.TextSlice
import LocalTransfer.Lib.Trace
import LocalTransfer.Persistence.Strict
import LocalTransfer.TrustedPeers.Durability
import LocalTransfer.TrustedPeers.History
import LocalTransfer.TrustedPeers.Revocation
import LocalTransfer.TrustedPeers.Atomicity
import LocalTransfer.TrustedPeers.Canonical
import LocalTransfer.LocalDevice.Identity
import LocalTransfer.LocalDevice.Name
import LocalTransfer.Pairing.Trace
import LocalTransfer.Pairing.Network
import LocalTransfer.Pairing.Replies
import LocalTransfer.Discovery.Metadata
import LocalTransfer.Discovery.TxtFormat
import LocalTransfer.Discovery.Browser
import LocalTransfer.Discovery.Keys
import LocalTransfer.Discovery.Translation
import LocalTransfer.Discovery.OneKey
import LocalTransfer.Discovery.Freshness
import LocalTransfer.Discovery.Window
import LocalTransfer.Discovery.Forgetting
import LocalTransfer.Discovery.Convergence
import LocalTransfer.Discovery.Records
import LocalTransfer.Discovery.Expiry
import LocalTransfer.Lib.TreeMap
import LocalTransfer.Discovery.Pipeline
import LocalTransfer.Discovery.Advertisement
import LocalTransfer.Lib.Stutter
import LocalTransfer.Pairing.Deletion
import LocalTransfer.Lib.Monitor
import LocalTransfer.Lib.Separated
import LocalTransfer.Discovery.Sessions
import LocalTransfer.Discovery.Daemon
import LocalTransfer.Discovery.Channels
import LocalTransfer.Discovery.NameChanges
import LocalTransfer.Discovery.Addresses
import LocalTransfer.Discovery.Report
import LocalTransfer.Discovery.ReadReport
import LocalTransfer.Discovery.PassReport
import LocalTransfer.Discovery.PrintedEvents
import LocalTransfer.Discovery.NetworkView
import LocalTransfer.Pairing.Hostile
import LocalTransfer.Pairing.Progress
import LocalTransfer.Lib.BoundedMap
import LocalTransfer.TrustedPeers.Refinement
import LocalTransfer.Discovery.EndToEnd
import LocalTransfer.Persistence.Together
