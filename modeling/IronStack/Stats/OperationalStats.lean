import IronStack.Flow.Entry
import IronStack.Lib.Reassembly

/-!
# `operational_stats`

The latest statistics of the switch, one published set for each kind. A reply may
come in several messages, which the service puts together in a shadow copy; the
copy is published once a message announces no more.
-/

namespace IronStack

open Lib

/-- `openflow_aggregate_stats`. -/
structure AggregateStats where
  packetCount : UInt64 := 0
  byteCount : UInt64 := 0
  flowCount : UInt64 := 0
deriving DecidableEq, Repr

/-- `openflow_table_stats`. -/
structure TableStats where
  tableId : UInt8
  name : String
  allWildcardsSupported : Bool
  noWildcardsSupported : Bool
  wildcardInPortSupported : Bool
  wildcardEthernetSrcSupported : Bool
  wildcardEthernetDestSupported : Bool
  wildcardVlanIdSupported : Bool
  wildcardVlanPcpSupported : Bool
  wildcardEthernetFrameTypeSupported : Bool
  wildcardIpTypeOfServiceSupported : Bool
  wildcardIpProtocolSupported : Bool
  wildcardIpSrcLsbSupported : UInt8
  wildcardIpDestLsbSupported : UInt8
  wildcardTcpudpSrcPortSupported : Bool
  wildcardTcpudpDestPortSupported : Bool
  maxEntriesSupported : UInt32
  activeEntries : UInt32
  lookupCount : UInt64
  matchedCount : UInt64
deriving DecidableEq, Repr

/-- `openflow_port_stats`. -/
structure PortStats where
  allPorts : Bool := false
  port : UInt16 := 0
  rxPacketsSupported : Bool := false
  rxPackets : UInt64 := 0
  txPacketsSupported : Bool := false
  txPackets : UInt64 := 0
  rxBytesSupported : Bool := false
  rxBytes : UInt64 := 0
  txBytesSupported : Bool := false
  txBytes : UInt64 := 0
  rxDroppedSupported : Bool := false
  rxDropped : UInt64 := 0
  txDroppedSupported : Bool := false
  txDropped : UInt64 := 0
  rxErrorsSupported : Bool := false
  rxErrors : UInt64 := 0
  txErrorsSupported : Bool := false
  txErrors : UInt64 := 0
  rxFrameErrorsSupported : Bool := false
  rxFrameErrors : UInt64 := 0
  rxOverrunErrorsSupported : Bool := false
  rxOverrunErrors : UInt64 := 0
  rxCrcErrorsSupported : Bool := false
  rxCrcErrors : UInt64 := 0
  collisionErrorsSupported : Bool := false
  collisionErrors : UInt64 := 0
deriving DecidableEq, Repr

/-- `openflow_queue_stats`. -/
structure QueueStats where
  allPorts : Bool
  port : UInt16
  allQueues : Bool
  queueId : UInt32
  txBytes : UInt64
  txPackets : UInt64
  txErrors : UInt64
deriving DecidableEq, Repr

/--
`of_message_stats_reply_*` of one kind: the xid is the tag, and the message is one
fragment of the reply to the request with that xid.
-/
abbrev StatsReply (α : Type) := Fragment UInt32 α

/-- The four members `operational_stats` keeps for one kind of statistics. -/
structure CollectedStats (α : Type) where
  stats : List α
  statsShadow : List α
  statsCompleted : Bool
  statsXid : UInt32

namespace CollectedStats

variable {α : Type}

/-- The first part of each `update_handler`: restart the shadow copy, continue it, or drop the message. -/
def collect (c : CollectedStats α) (msg : StatsReply α) : CollectedStats α :=
  if c.statsCompleted ∨ msg.tag > c.statsXid then
    { c with
      statsShadow := msg.items
      statsXid := msg.tag
      statsCompleted := !msg.moreToFollow }
  else if !c.statsCompleted ∧ msg.tag = c.statsXid then
    { c with
      statsShadow := c.statsShadow ++ msg.items
      statsCompleted := !msg.moreToFollow }
  else c

/-- The whole handler, for the kinds that are published as they are. -/
def updateHandler (c : CollectedStats α) (msg : StatsReply α) : CollectedStats α :=
  let c := c.collect msg
  if c.statsCompleted then { c with stats := c.statsShadow } else c

/-- What `init` resets. -/
def restart (c : CollectedStats α) : CollectedStats α :=
  { c with statsCompleted := true, statsXid := 0 }

end CollectedStats

/-- `shadow.… -= initial.…`, for all the counters. -/
def PortStats.since (shadow initial : PortStats) : PortStats :=
  { shadow with
    rxPackets := shadow.rxPackets - initial.rxPackets
    txPackets := shadow.txPackets - initial.txPackets
    rxBytes := shadow.rxBytes - initial.rxBytes
    txBytes := shadow.txBytes - initial.txBytes
    rxDropped := shadow.rxDropped - initial.rxDropped
    txDropped := shadow.txDropped - initial.txDropped
    rxErrors := shadow.rxErrors - initial.rxErrors
    txErrors := shadow.txErrors - initial.txErrors
    rxFrameErrors := shadow.rxFrameErrors - initial.rxFrameErrors
    rxOverrunErrors := shadow.rxOverrunErrors - initial.rxOverrunErrors
    rxCrcErrors := shadow.rxCrcErrors - initial.rxCrcErrors
    collisionErrors := shadow.collisionErrors - initial.collisionErrors }

/-- The loop over the shadow copy: from each port take what it counted initially. -/
def sinceInitial (initial shadow : List PortStats) : List PortStats :=
  shadow.map fun s =>
    match initial.find? fun i => i.port == s.port with
    | some i => s.since i
    | none => s

/-- The part of `operational_stats` that the handlers read and write. -/
structure OperationalStats where
  initialized : Bool
  aggregateStats : AggregateStats
  aggregateStatsXid : UInt32
  flowStats : CollectedStats FlowDescriptionAndStats
  tableStats : CollectedStats TableStats
  portStats : CollectedStats PortStats
  portStatsInitial : List PortStats
  queueStats : CollectedStats QueueStats

namespace OperationalStats

/-- `operational_stats::init`, after `update_all_stats` had the requests enqueued. -/
def init (s : OperationalStats) : OperationalStats :=
  { s with
    initialized := true
    aggregateStatsXid := 0
    flowStats := s.flowStats.restart
    tableStats := s.tableStats.restart
    portStats := s.portStats.restart
    queueStats := s.queueStats.restart }

/-- `update_handler` for aggregate statistics, which come in one message. -/
def updateAggregateStats (s : OperationalStats) (xid : UInt32) (stats : AggregateStats) :
    OperationalStats :=
  { s with aggregateStats := stats, aggregateStatsXid := xid }

/-- `update_handler` for table statistics. -/
def updateTableStats (s : OperationalStats) (msg : StatsReply TableStats) : OperationalStats :=
  { s with tableStats := s.tableStats.updateHandler msg }

/-- `update_handler` for flow statistics. -/
def updateFlowStats (s : OperationalStats) (msg : StatsReply FlowDescriptionAndStats) :
    OperationalStats :=
  { s with flowStats := s.flowStats.updateHandler msg }

/--
`update_handler` for port statistics: the first complete reply is kept, and what is
published is counted from there.
-/
def updatePortStats (s : OperationalStats) (msg : StatsReply PortStats) : OperationalStats :=
  let c := s.portStats.collect msg
  if c.statsCompleted then
    let initial := if s.portStatsInitial.isEmpty then c.statsShadow else s.portStatsInitial
    let shadow := sinceInitial initial c.statsShadow
    { s with
      portStatsInitial := initial
      portStats := { c with statsShadow := shadow, stats := shadow } }
  else { s with portStats := c }

/-- `update_handler` for queue statistics. -/
def updateQueueStats (s : OperationalStats) (msg : StatsReply QueueStats) : OperationalStats :=
  { s with queueStats := s.queueStats.updateHandler msg }

end OperationalStats

end IronStack
