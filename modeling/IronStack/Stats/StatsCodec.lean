import IronStack.Autobuf
import IronStack.Lib.Records
import IronStack.OpenFlow.ActionCodec
import IronStack.OpenFlow.MatchCodec
import IronStack.Stats.OperationalStats
import IronStack.Switch.PortCodec

/-!
# Statistics on the wire

The decoders of the records that statistics replies carry, and the loops that take
a whole array of them off a reply. A decoder is given a buffer of the size of its
record; the memory of the buffer goes on to the end of the message, which shows
where a decoder looks further than it was told.
-/

namespace IronStack

open Lib

/-- `string(ptr)`: the characters from an offset on, up to a terminator wherever that is. -/
def readCString (b : Bytes) (off : Nat) : Read String :=
  if (0 : UInt8) ∈ b.drop off then .ok (ofCString (b.drop off)) else .error .outOfBounds

/-! ## Records -/

/-- `openflow_switch_description`. -/
structure SwitchDescription where
  manufacturer : String := ""
  hardwareDescription : String := ""
  softwareDescription : String := ""
  serialNumber : String := ""
  generalDescription : String := ""
deriving DecidableEq, Repr

/-- `openflow_switch_description::deserialize`: `struct ofp_desc_stats`, strings of bounded length. -/
def SwitchDescription.deserialize (input : Autobuf) : Read (Option SwitchDescription) :=
  if input.size < 1056 then .ok none
  else do
    let manufacturer ← slice input.memory 0 255
    let hardwareDescription ← slice input.memory 256 255
    let softwareDescription ← slice input.memory 512 255
    let serialNumber ← slice input.memory 768 31
    let generalDescription ← slice input.memory 800 255
    return some {
      manufacturer := ofCString manufacturer
      hardwareDescription := ofCString hardwareDescription
      softwareDescription := ofCString softwareDescription
      serialNumber := ofCString serialNumber
      generalDescription := ofCString generalDescription }

/--
`openflow_aggregate_stats::deserialize`: `struct ofp_aggregate_stats_reply`. The
number of flows has 32 bits, but goes through `be64toh`.
-/
def AggregateStats.deserialize (input : Autobuf) : Read (Option AggregateStats) :=
  if input.size < 24 then .ok none
  else do
    let packetCount ← readU64 input.memory 0
    let byteCount ← readU64 input.memory 8
    let flowCount ← readU32 input.memory 16
    return some {
      packetCount := packetCount
      byteCount := byteCount
      flowCount := flowCount.toUInt64 <<< 32 }

/-- `openflow_table_stats::deserialize`: `struct ofp_table_stats`, whose name may have no end. -/
def TableStats.deserialize (input : Autobuf) : Read (Option TableStats) :=
  if input.size < 64 then .ok none
  else do
    let tableId ← readU8 input.memory 0
    let wildcards ← readU32 input.memory 36
    let name ← readCString input.memory 4
    let maxEntries ← readU32 input.memory 40
    let activeCount ← readU32 input.memory 44
    let lookupCount ← readU64 input.memory 48
    let matchedCount ← readU64 input.memory 56
    let flag := OfMatch.hasFlag wildcards
    let srcLsb := ((wildcards &&& Ofpfw.nwSrcMask) >>> Ofpfw.nwSrcShift).toUInt8
    let destLsb := ((wildcards &&& Ofpfw.nwDstMask) >>> Ofpfw.nwDstShift).toUInt8
    let flags := [flag Ofpfw.inPort, flag Ofpfw.dlSrc, flag Ofpfw.dlDst, flag Ofpfw.dlVlan,
      flag Ofpfw.dlVlanPcp, flag Ofpfw.dlType, flag Ofpfw.nwTos, flag Ofpfw.nwProto,
      flag Ofpfw.tpSrc, flag Ofpfw.tpDst]
    return some {
      tableId := tableId
      name := name
      allWildcardsSupported := flags.all id && srcLsb ≥ 32 && destLsb ≥ 32
      noWildcardsSupported := flags.all (!·) && srcLsb == 0 && destLsb == 0
      wildcardInPortSupported := flag Ofpfw.inPort
      wildcardEthernetSrcSupported := flag Ofpfw.dlSrc
      wildcardEthernetDestSupported := flag Ofpfw.dlDst
      wildcardVlanIdSupported := flag Ofpfw.dlVlan
      wildcardVlanPcpSupported := flag Ofpfw.dlVlanPcp
      wildcardEthernetFrameTypeSupported := flag Ofpfw.dlType
      wildcardIpTypeOfServiceSupported := flag Ofpfw.nwTos
      wildcardIpProtocolSupported := flag Ofpfw.nwProto
      wildcardIpSrcLsbSupported := srcLsb
      wildcardIpDestLsbSupported := destLsb
      wildcardTcpudpSrcPortSupported := flag Ofpfw.tpSrc
      wildcardTcpudpDestPortSupported := flag Ofpfw.tpDst
      maxEntriesSupported := maxEntries
      activeEntries := activeCount
      lookupCount := lookupCount
      matchedCount := matchedCount }

/-- `OFPP_ALL` and `OFPP_NONE`, the port numbers that stand for all ports or none. -/
def ofppAll : UInt16 := 0xfffc
def ofppNone : UInt16 := 0xffff

/-- `OFPQ_ALL`. -/
def ofpqAll : UInt32 := 0xffffffff

/-- A counter is supported unless all its bits are set. -/
def counterSupported (counter : UInt64) : Bool := counter != 0xffffffffffffffff

/-- A counter as it is written: an unsupported one has all its bits set. -/
def wireCounter (supported : Bool) (counter : UInt64) : UInt64 :=
  if supported then counter else 0xffffffffffffffff

/--
`openflow_port_stats::serialize`: `struct ofp_port_stats`, in a buffer that was
filled with zeros. Of the bytes sent, those go with the flag of the bytes received.
-/
def PortStats.serialize (s : PortStats) : Bytes :=
  be16 (if s.allPorts then ofppNone else s.port) ++ ([0, 0, 0, 0, 0, 0] ++
    [wireCounter s.rxPacketsSupported s.rxPackets,
      wireCounter s.txPacketsSupported s.txPackets,
      wireCounter s.rxBytesSupported s.rxBytes,
      wireCounter s.rxBytesSupported s.txBytes,
      wireCounter s.rxDroppedSupported s.rxDropped,
      wireCounter s.txDroppedSupported s.txDropped,
      wireCounter s.rxErrorsSupported s.rxErrors,
      wireCounter s.txErrorsSupported s.txErrors,
      wireCounter s.rxFrameErrorsSupported s.rxFrameErrors,
      wireCounter s.rxOverrunErrorsSupported s.rxOverrunErrors,
      wireCounter s.rxCrcErrorsSupported s.rxCrcErrors,
      wireCounter s.collisionErrorsSupported s.collisionErrors].flatMap be64)

/-- `openflow_port_stats::deserialize`: `struct ofp_port_stats`. -/
def PortStats.deserialize (input : Autobuf) : Read (Option PortStats) :=
  if input.size < 104 then .ok none
  else do
    let port ← readU16 input.memory 0
    let rxPackets ← readU64 input.memory 8
    let txPackets ← readU64 input.memory 16
    let rxBytes ← readU64 input.memory 24
    let txBytes ← readU64 input.memory 32
    let rxDropped ← readU64 input.memory 40
    let txDropped ← readU64 input.memory 48
    let rxErrors ← readU64 input.memory 56
    let txErrors ← readU64 input.memory 64
    let rxFrameErrors ← readU64 input.memory 72
    let rxOverrunErrors ← readU64 input.memory 80
    let rxCrcErrors ← readU64 input.memory 88
    let collisionErrors ← readU64 input.memory 96
    return some {
      allPorts := port == ofppNone
      port := port
      rxPacketsSupported := counterSupported rxPackets
      rxPackets := rxPackets
      txPacketsSupported := counterSupported txPackets
      txPackets := txPackets
      rxBytesSupported := counterSupported rxBytes
      rxBytes := rxBytes
      txBytesSupported := counterSupported txBytes
      txBytes := txBytes
      rxDroppedSupported := counterSupported rxDropped
      rxDropped := rxDropped
      txDroppedSupported := counterSupported txDropped
      txDropped := txDropped
      rxErrorsSupported := counterSupported rxErrors
      rxErrors := rxErrors
      txErrorsSupported := counterSupported txErrors
      txErrors := txErrors
      rxFrameErrorsSupported := counterSupported rxFrameErrors
      rxFrameErrors := rxFrameErrors
      rxOverrunErrorsSupported := counterSupported rxOverrunErrors
      rxOverrunErrors := rxOverrunErrors
      rxCrcErrorsSupported := counterSupported rxCrcErrors
      rxCrcErrors := rxCrcErrors
      collisionErrorsSupported := counterSupported collisionErrors
      collisionErrors := collisionErrors }

/-- `openflow_queue_stats::deserialize`: `struct ofp_queue_stats`. -/
def QueueStats.deserialize (input : Autobuf) : Read (Option QueueStats) :=
  if input.size < 32 then .ok none
  else do
    let port ← readU16 input.memory 0
    let queueId ← readU32 input.memory 4
    let txBytes ← readU64 input.memory 8
    let txPackets ← readU64 input.memory 16
    let txErrors ← readU64 input.memory 24
    return some {
      allPorts := port == ofppAll
      port := port
      allQueues := queueId == ofpqAll
      queueId := queueId
      txBytes := txBytes
      txPackets := txPackets
      txErrors := txErrors }

/--
`openflow_flow_description_and_stats::deserialize`: `struct ofp_flow_stats`, and
behind it as many bytes of actions as its own length field leaves.
-/
def FlowDescriptionAndStats.deserialize (input : Autobuf) : Read (Option FlowDescriptionAndStats) :=
  if input.size < 88 then .ok none
  else do
    let len ← readU16 input.memory 0
    let tableId ← readU8 input.memory 2
    let some criteria ← OfMatch.deserialize ((input.memory.drop 4).take 40) | return none
    let durationSec ← readU32 input.memory 44
    let durationNsec ← readU32 input.memory 48
    let priority ← readU16 input.memory 52
    let idleTimeout ← readU16 input.memory 54
    let hardTimeout ← readU16 input.memory 56
    let cookie ← readU64 input.memory 64
    let packetCount ← readU64 input.memory 72
    let byteCount ← readU64 input.memory 80
    let actionsLen := subU32 len.toNat 88
    let some (actionList, _) ← OpenflowActionList.deserialize ⟨input.memory.drop 88, actionsLen⟩
      | return none
    return some {
      flowDescription := {
        criteria := criteria
        actionList := actionList
        cookie := cookie
        priority := priority }
      tableId := tableId
      durationAliveSec := durationSec
      durationAliveNsec := durationNsec
      durationToIdleTimeout := idleTimeout
      durationToHardTimeout := hardTimeout
      packetCount := packetCount
      byteCount := byteCount }

/-! ## Arrays of records -/

/-- One turn of the loops over records that are all of one size. -/
def deserializeFixed {α : Type} (size : Nat) (deserialize : Autobuf → Read (Option α))
    (array : Autobuf) (readOffset : Nat) : Read (Option (α × Nat)) :=
  if array.size - readOffset < size then .ok none
  else do
    let ptr ← array.ptrOffsetConst readOffset
    let stats ← deserialize ⟨ptr, size⟩
    return stats.map fun stats => (stats, size)

/-- The loops of the replies with table, port and queue statistics. -/
def fixedLoop {α : Type} (size : Nat) (hsize : 0 < size)
    (deserialize : Autobuf → Read (Option α)) (array : Autobuf) : RecordLoop α where
  more readOffset := decide (readOffset < array.size)
  one := deserializeFixed size deserialize array
  limit := array.size
  lt_limit := of_decide_eq_true
  moves h := by
    unfold deserializeFixed at h
    split at h
    · cases h
    · obtain ⟨_, _, h⟩ := bind_eq_ok.mp h
      obtain ⟨stats, _, h⟩ := bind_eq_ok.mp h
      cases stats with
      | none => cases h
      | some stats =>
          cases h
          exact hsize

/-- One turn of the loop of `of_message_stats_reply_flow_stats::deserialize`. -/
def deserializeFlow (flowBuf : Autobuf) (readOffset : Nat) :
    Read (Option (FlowDescriptionAndStats × Nat)) :=
  if flowBuf.size - readOffset < 88 then .ok none
  else do
    let ptr ← flowBuf.ptrOffsetConst readOffset
    let sizeToRead ← readU16 ptr 0
    if readOffset + sizeToRead.toNat > flowBuf.size then
      return none
    let flow ← FlowDescriptionAndStats.deserialize ⟨ptr, sizeToRead.toNat⟩
    return flow.map fun flow => (flow, sizeToRead.toNat)

/-- A flow that is decoded has at least the size of its record. -/
theorem FlowDescriptionAndStats.le_of_deserialize {input : Autobuf} {flow : FlowDescriptionAndStats}
    (h : deserialize input = .ok (some flow)) : 88 ≤ input.size := by
  unfold deserialize at h
  split at h
  · cases h
  · omega

/-- The loop of `of_message_stats_reply_flow_stats::deserialize`. -/
def flowLoop (flowBuf : Autobuf) : RecordLoop FlowDescriptionAndStats where
  more readOffset := decide (readOffset < flowBuf.size)
  one := deserializeFlow flowBuf
  limit := flowBuf.size
  lt_limit := of_decide_eq_true
  moves h := by
    unfold deserializeFlow at h
    split at h
    · cases h
    · obtain ⟨_, _, h⟩ := bind_eq_ok.mp h
      obtain ⟨sizeToRead, _, h⟩ := bind_eq_ok.mp h
      split at h
      · cases h
      · obtain ⟨flow, hflow, h⟩ := bind_eq_ok.mp h
        cases flow with
        | none => cases h
        | some flow =>
            cases h
            have hle := FlowDescriptionAndStats.le_of_deserialize hflow
            exact Nat.lt_of_lt_of_le (by decide) hle

end IronStack
