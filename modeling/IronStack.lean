import IronStack.Common
import IronStack.Autobuf
import IronStack.AutobufEdits
import IronStack.AutobufPacker
import IronStack.WriteableAutobuf
import IronStack.BoundedBuffer
import IronStack.Lib.Machine
import IronStack.Lib.Monitor
import IronStack.Lib.HaltingMonitor
import IronStack.Lib.TimedMonitor
import IronStack.Lib.Refinement
import IronStack.Lib.FirstFit
import IronStack.Lib.OrdMap
import IronStack.Lib.Reassembly
import IronStack.Lib.Window
import IronStack.Lib.Wire
import IronStack.Lib.Writes
import IronStack.Lib.Bits
import IronStack.Lib.Records
import IronStack.Lib.Framing
import IronStack.Lib.Occurrence
import IronStack.Lib.Dot1q
import IronStack.Lib.Walks
import IronStack.Lib.BreadthFirst
import IronStack.Lib.Detours
import IronStack.Lib.EdgeDisjoint
import IronStack.Lib.Exits
import IronStack.Lib.Stamps
import IronStack.Lib.Latest
import IronStack.Lib.Merges
import IronStack.Lib.Dependencies
import IronStack.Lib.OnesComplement
import IronStack.Lib.Scan
import IronStack.Lib.Flooding
import IronStack.RwQueue
import IronStack.TimedBarrier
import IronStack.RateMeter
import IronStack.OpenFlow.Match
import IronStack.OpenFlow.Action
import IronStack.OpenFlow.MatchCodec
import IronStack.OpenFlow.ActionCodec
import IronStack.OpenFlow.Subset
import IronStack.OpenFlow.Message
import IronStack.Net.Tcp
import IronStack.Net.NetUtils
import IronStack.Net.RawPacket
import IronStack.Flow.Entry
import IronStack.Flow.FlowRate
import IronStack.Flow.Parser
import IronStack.Hal.Transaction
import IronStack.Hal.BlockingCallback
import IronStack.OpenFlow.Commands
import IronStack.Hal.System
import IronStack.Hal.Lifecycle
import IronStack.Hal.ServiceCatalog
import IronStack.Flow.Table
import IronStack.Flow.Capacity
import IronStack.Flow.Lifecycle
import IronStack.Flow.Service
import IronStack.Flow.System
import IronStack.Flow.Refreshing
import IronStack.Switch.Port
import IronStack.Switch.PortCodec
import IronStack.Switch.SwitchState
import IronStack.Cam.CamTable
import IronStack.Net.PacketInProcessor
import IronStack.Net.PolicyChecker
import IronStack.Net.EchoDaemon
import IronStack.Net.PacketUtils
import IronStack.Net.Flooding
import IronStack.Net.IpPacket
import IronStack.Net.PacketCodec
import IronStack.Net.Decoders
import IronStack.Text.StringUtils
import IronStack.Text.CsvParser
import IronStack.Switch.SwitchCommander
import IronStack.Text.Addresses
import IronStack.Text.ActionParser
import IronStack.Text.MatchParser
import IronStack.Arp.ArpPacket
import IronStack.Arp.ArpTable
import IronStack.Arp.Query
import IronStack.Arp.ArpService
import IronStack.Switch.System
import IronStack.Stats.OperationalStats
import IronStack.Stats.StatsCodec
import IronStack.Stats.System
import IronStack.Topology.Graph
import IronStack.Topology.Node
import IronStack.Topology.Live
import IronStack.Topology.Discovery
import IronStack.Topology.Network
import IronStack.Proof.Table
import IronStack.Proof.Service
import IronStack.Proof.Clear
import IronStack.Proof.Cookies
import IronStack.Proof.World
import IronStack.Proof.Idempotent
import IronStack.Proof.ActionEquality
import IronStack.Proof.Translation
import IronStack.Proof.Capacity
import IronStack.Proof.ServiceCatalog
import IronStack.Proof.RwQueue
import IronStack.Proof.RateMeter
import IronStack.Proof.StaleMemory
import IronStack.Proof.Agreement
import IronStack.Proof.MatchCodec
import IronStack.Proof.ActionCodec
import IronStack.Proof.ActionBounds
import IronStack.Proof.StatsCodec
import IronStack.Proof.MessageFactory
import IronStack.Proof.PacketMessages
import IronStack.Proof.FlowMod
import IronStack.Proof.FlowStats
import IronStack.Proof.Buffers
import IronStack.Proof.Packer
import IronStack.Proof.ByteList
import IronStack.Proof.Framing
import IronStack.Proof.Subsumption
import IronStack.Proof.Refresh
import IronStack.Proof.Confirmed
import IronStack.Proof.Conflict
import IronStack.Proof.Lifecycle
import IronStack.Proof.Barrier
import IronStack.Proof.Refreshing
import IronStack.Proof.Reassembly
import IronStack.Proof.Ports
import IronStack.Proof.PolicyChecker
import IronStack.Proof.PortTable
import IronStack.Proof.Purge
import IronStack.Proof.Bfs
import IronStack.Proof.Topology
import IronStack.Proof.MaxFlow
import IronStack.Proof.DisjointPaths
import IronStack.Proof.PathsAgree
import IronStack.Proof.SortedPaths
import IronStack.Proof.CamTable
import IronStack.Proof.PortCounters
import IronStack.Proof.PortStats
import IronStack.Proof.FlowRate
import IronStack.Proof.ArpLinks
import IronStack.Proof.ArpTable
import IronStack.Proof.ArpAllocation
import IronStack.Proof.ArpInsertion
import IronStack.Proof.ArpPersistence
import IronStack.Proof.ArpQuery
import IronStack.Proof.NodeCodec
import IronStack.Proof.Advertisement
import IronStack.Proof.Updates
import IronStack.Proof.Versions
import IronStack.Proof.Discovery
import IronStack.Proof.Announcements
import IronStack.Proof.Network
import IronStack.Proof.Converged
import IronStack.Proof.Routes
import IronStack.Proof.Quiet
import IronStack.Proof.PacketIsolation
import IronStack.Proof.VlanTags
import IronStack.Proof.Flooding
import IronStack.Proof.ArpEgress
import IronStack.Proof.Ethernet
import IronStack.Proof.ArpCodec
import IronStack.Proof.IpCodec
import IronStack.Proof.PacketCodec
import IronStack.Proof.Checksums
import IronStack.Proof.Decoders
import IronStack.Proof.AutobufBounds
import IronStack.Proof.Shrink
import IronStack.Proof.OwnedBuffers
import IronStack.Proof.BoundedBuffer
import IronStack.Proof.BlockingCallback
import IronStack.Proof.TimedBarrier
import IronStack.Proof.TokenReceive
import IronStack.Proof.CsvFile
import IronStack.Proof.CsvTable
import IronStack.Proof.NumberSet
import IronStack.Proof.VlanTable
import IronStack.Proof.VlanRows
import IronStack.Proof.AddressText
import IronStack.Proof.AddressGrammar
import IronStack.Proof.Trimming
import IronStack.Proof.KeyValues
import IronStack.Proof.ScanRing
import IronStack.Proof.KeyValueScan
import IronStack.Proof.ActionParser
import IronStack.Proof.MatchFields
import IronStack.Proof.MatchParser
import IronStack.Hal.Session
import IronStack.Proof.MessageClasses
import IronStack.Proof.Requests
import IronStack.OpenFlow.Requests
import IronStack.Proof.Handshake
import IronStack.Proof.Session
import IronStack.Proof.Initialization
import IronStack.Proof.UpAndDown
import IronStack.Proof.EchoDaemon
import IronStack.Proof.Pings
import IronStack.Proof.PingRuns
