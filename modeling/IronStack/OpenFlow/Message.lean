import IronStack.Stats.StatsCodec

/-!
# OpenFlow messages and `of_message_factory`

The messages a switch sends, and how each is decoded from its bytes. Every class
has a decoder that starts with `of_message::deserialize`, which reads the header;
what it checks of the length is its own affair. `of_message_factory` reads the
type and picks the decoder.
-/

namespace IronStack

open Lib

/-! ## `enum ofp_type` and `enum ofp_stats_types` -/

namespace Ofpt

def hello : UInt8 := 0
def error : UInt8 := 1
def echoRequest : UInt8 := 2
def echoReply : UInt8 := 3
def vendor : UInt8 := 4
def featuresRequest : UInt8 := 5
def featuresReply : UInt8 := 6
def getConfigRequest : UInt8 := 7
def getConfigReply : UInt8 := 8
def setConfig : UInt8 := 9
def packetIn : UInt8 := 10
def flowRemoved : UInt8 := 11
def portStatus : UInt8 := 12
def packetOut : UInt8 := 13
def flowMod : UInt8 := 14
def portMod : UInt8 := 15
def statsRequest : UInt8 := 16
def statsReply : UInt8 := 17
def barrierRequest : UInt8 := 18
def barrierReply : UInt8 := 19
def queueGetConfigRequest : UInt8 := 20
def queueGetConfigReply : UInt8 := 21

end Ofpt

namespace Ofpst

def desc : UInt16 := 0
def flow : UInt16 := 1
def aggregate : UInt16 := 2
def table : UInt16 := 3
def port : UInt16 := 4
def queue : UInt16 := 5
def vendor : UInt16 := 0xffff

end Ofpst

/-! ## Messages -/

/-- `of_message`: the header every message has. -/
structure MessageHeader where
  version : UInt8
  msgType : UInt8
  msgSize : UInt16
  xid : UInt32
deriving DecidableEq, Repr

/-- `of_switch_capabilities`. -/
structure SwitchCapabilities where
  switchFlowStatsSupported : Bool
  switchTableStatsSupported : Bool
  switchPortStatsSupported : Bool
  switchStpSupported : Bool
  switchIpReassemblySupported : Bool
  switchQueueStatsSupported : Bool
  switchArpMatchIpSupported : Bool
deriving DecidableEq, Repr

/-- `of_switch_capabilities::set`; the bits are those of `enum ofp_capabilities`. -/
def SwitchCapabilities.set (rawValue : UInt32) : SwitchCapabilities where
  switchFlowStatsSupported := hasBits rawValue ((1 : UInt32) <<< 0)
  switchTableStatsSupported := hasBits rawValue ((1 : UInt32) <<< 1)
  switchPortStatsSupported := hasBits rawValue ((1 : UInt32) <<< 2)
  switchStpSupported := hasBits rawValue ((1 : UInt32) <<< 3)
  switchIpReassemblySupported := hasBits rawValue ((1 : UInt32) <<< 5)
  switchQueueStatsSupported := hasBits rawValue ((1 : UInt32) <<< 6)
  switchArpMatchIpSupported := hasBits rawValue ((1 : UInt32) <<< 7)

/-- `of_actions_supported`. -/
structure ActionsSupported where
  outputToSwitchPort : Bool
  setVlanVid : Bool
  setVlanPcp : Bool
  stripVlanHdr : Bool
  setEthernetSrc : Bool
  setEthernetDest : Bool
  setIpSrc : Bool
  setIpDest : Bool
  setIpTypeOfService : Bool
  setTcpudpSrcPort : Bool
  setTcpudpDestPort : Bool
  enqueue : Bool
  vendor : Bool
deriving DecidableEq, Repr

/-- `of_actions_supported::set`, which takes the numbers of `enum ofp_action_type` for masks. -/
def ActionsSupported.set (rawValue : UInt32) : ActionsSupported where
  outputToSwitchPort := hasBits rawValue Ofpat.output.toUInt32
  setVlanVid := hasBits rawValue Ofpat.setVlanVid.toUInt32
  setVlanPcp := hasBits rawValue Ofpat.setVlanPcp.toUInt32
  stripVlanHdr := hasBits rawValue Ofpat.stripVlan.toUInt32
  setEthernetSrc := hasBits rawValue Ofpat.setDlSrc.toUInt32
  setEthernetDest := hasBits rawValue Ofpat.setDlDst.toUInt32
  setIpSrc := hasBits rawValue Ofpat.setNwSrc.toUInt32
  setIpDest := hasBits rawValue Ofpat.setNwDst.toUInt32
  setIpTypeOfService := hasBits rawValue Ofpat.setNwTos.toUInt32
  setTcpudpSrcPort := hasBits rawValue Ofpat.setTpSrc.toUInt32
  setTcpudpDestPort := hasBits rawValue Ofpat.setTpDst.toUInt32
  enqueue := hasBits rawValue Ofpat.enqueue.toUInt32
  vendor := hasBits rawValue Ofpat.vendor.toUInt32

/-- `openflow_switch_features`. -/
structure SwitchFeatures where
  datapathId : UInt64
  nBuffers : UInt32
  nTables : UInt32
  switchAddress : MacAddress
  capabilities : SwitchCapabilities
  actionsSupported : ActionsSupported
deriving DecidableEq, Repr

/-- `openflow_switch_config`; the defaults are those of its `clear`. -/
structure SwitchConfig where
  fragNormal : Bool := false
  fragDrop : Bool := false
  fragReasm : Bool := false
  fragMask : Bool := false
  maxMsgSendLen : UInt16 := 0
deriving DecidableEq, Repr

/-- `enum ofp_port_reason`. -/
inductive PortReason where
  | add
  | delete
  | modify
deriving DecidableEq, Repr

/-- The classes derived from `of_message` that a switch may send, with their fields. -/
inductive OfMessage where
  | hello (header : MessageHeader)
  | error (header : MessageHeader) (baseError extendedError : String) (errorData : Bytes)
  | echoRequest (header : MessageHeader) (data : Bytes)
  | echoReply (header : MessageHeader) (data : Bytes)
  | vendor (header : MessageHeader) (vendor : UInt32) (request : Bytes)
  | featuresReply (header : MessageHeader) (switchFeatures : SwitchFeatures)
      (physicalPorts : List OpenflowPort)
  | getConfigReply (header : MessageHeader) (config : SwitchConfig)
  | packetIn (header : MessageHeader) (bufferId : UInt32) (inPort actualMessageLen : UInt16)
      (summarized reasonNoMatch reasonAction : Bool) (pktData : Bytes)
  | flowRemoved (header : MessageHeader) (criteria : OfMatch) (cookie : UInt64) (priority : UInt16)
      (reasonIdleTimeout reasonHardTimeout reasonManuallyRemoved : Bool)
      (durationAliveSec durationAliveNsec : UInt32) (packetCount byteCount : UInt64)
  | portStatus (header : MessageHeader) (reason : PortReason) (description : OpenflowPort)
  | switchDescription (header : MessageHeader) (moreToFollow : Bool) (description : SwitchDescription)
  | flowStats (header : MessageHeader) (moreToFollow : Bool)
      (flowStats : List FlowDescriptionAndStats)
  | aggregateStats (header : MessageHeader) (moreToFollow : Bool) (aggregateStats : AggregateStats)
  | tableStats (header : MessageHeader) (moreToFollow : Bool) (tableStats : List TableStats)
  | portStats (header : MessageHeader) (moreToFollow : Bool) (portStats : List PortStats)
  | queueStats (header : MessageHeader) (moreToFollow : Bool) (queueStats : List QueueStats)
  | barrierReply (header : MessageHeader)
deriving DecidableEq, Repr

/-! ## Decoders -/

/-- `of_message::deserialize`. -/
def MessageHeader.deserialize (input : Bytes) : Read (Option MessageHeader) :=
  if input.length < 8 then .ok none
  else do
    let type ← readU8 input 1
    if type > Ofpt.queueGetConfigReply then
      return none
    let version ← readU8 input 0
    let length ← readU16 input 2
    let xid ← readU32 input 4
    return some { version := version, msgType := type, msgSize := length, xid := xid }

namespace OfMessage

/-- `of_message_hello::deserialize`. -/
def deserializeHello (input : Bytes) : Read (Option OfMessage) := do
  let some header ← MessageHeader.deserialize input | return none
  if header.msgSize != 8 || header.msgType != Ofpt.hello then
    return none
  return some (.hello header)

/-- The texts `of_message_error::deserialize` sets for the code of one type of errors. -/
def extendedErrorOf (texts : List String) (code : UInt16) : String :=
  texts.getD code.toNat "UNKNOWN"

/--
The `switch` of `of_message_error::deserialize`: the texts for a type and a code.
Three of the types leave the first text empty.
-/
def errorTexts (type code : UInt16) : String × String :=
  if type = 0 then
    ("HELLO_FAILED", extendedErrorOf ["NO_COMPATIBLE_VERSION", "PERMISSIONS_ERROR"] code)
  else if type = 1 then
    ("BAD_REQUEST", extendedErrorOf ["VERSION_NOT_SUPPORTED", "BAD_TYPE",
      "STATS_REQUEST_TYPE_NOT_SUPPORTED", "VENDOR_NOT_SUPPORTED", "VENDOR_SUBTYPE_NOT_SUPPORTED",
      "PERMISSIONS_ERROR", "BAD_LENGTH", "BUFFER_ALREADY_USED", "UNKNOWN_BUFFER"] code)
  else if type = 2 then
    ("BAD_ACTION", extendedErrorOf ["BAD_TYPE", "BAD_LENGTH", "UNKNOWN_VENDOR_ID",
      "UNKNOWN_VENDOR_ACTION", "INVALID_OUTPUT_PORT", "BAD_ARGUMENT", "PERMISSIONS_ERROR",
      "TOO_MANY_ACTIONS", "INVALID_OUTPUT_QUEUE"] code)
  else if type = 3 then
    ("", extendedErrorOf ["ALL_TABLES_FULL", "OVERLAP_FLOW", "PERMISSIONS_ERROR",
      "NONZERO_IDLE_OR_HARD_TIMEOUT", "BAD_COMMAND", "UNSUPPORTED_ACTION_LIST"] code)
  else if type = 4 then
    ("", extendedErrorOf ["BAD_PORT", "BAD_HARDWARE_ADDRESS"] code)
  else if type = 5 then
    -- there is no case for code 0, a bad port
    ("", extendedErrorOf ["UNKNOWN", "BAD_QUEUE", "PERMISSIONS_ERROR"] code)
  else ("UNKNOWN", "UNKNOWN")

/-- `of_message_error::deserialize`. -/
def deserializeError (input : Bytes) : Read (Option OfMessage) := do
  let some header ← MessageHeader.deserialize input | return none
  if input.length < 12 then
    return none
  let dataLen := header.msgSize - 12
  let type ← readU16 input 8
  let code ← readU16 input 10
  let errorData ← slice input 12 dataLen.toNat
  return some (.error header (errorTexts type code).1 (errorTexts type code).2 errorData)

/-- `autobuf::read_rear`: the last bytes of the content. -/
def readRear (input : Bytes) (len : Nat) : Read Bytes :=
  if len > input.length then .error .aborted else .ok (input.drop (input.length - len))

/-- `of_message_echo_request::deserialize` and `of_message_echo_reply::deserialize`. -/
def deserializeEcho (make : MessageHeader → Bytes → OfMessage) (input : Bytes) :
    Read (Option OfMessage) := do
  let some header ← MessageHeader.deserialize input | return none
  let payloadLen := subU32 header.msgSize.toNat 8
  let data ← readRear input payloadLen
  return some (make header data)

/-- `of_message_vendor::deserialize`. -/
def deserializeVendor (input : Bytes) : Read (Option OfMessage) := do
  let some header ← MessageHeader.deserialize input | return none
  if header.msgSize.toNat != input.length then
    return none
  -- 12 bytes are copied, however many there are
  let vendor ← readU32 input 8
  let request ← if header.msgSize > 12 then slice input 12 (input.length - 12) else .ok []
  return some (.vendor header vendor request)

/-- The loop over the ports of a features reply. -/
def readPorts (input : Bytes) : Nat → Nat → Read (List OpenflowPort)
  | 0, _ => .ok []
  | n + 1, off => do
      let port ← OpenflowPort.set input off
      let ports ← readPorts input n (off + 48)
      return port :: ports

/-- `of_message_features_reply::deserialize`. -/
def deserializeFeaturesReply (input : Bytes) : Read (Option OfMessage) := do
  let some header ← MessageHeader.deserialize input | return none
  if header.msgType != Ofpt.featuresReply then
    return none
  let portDefnSize := subU32 header.msgSize.toNat 32
  if portDefnSize % 48 != 0 then
    return none
  -- the abort of `autobuf::memcpy_to`
  if 32 > input.length then
    throw .aborted
  let datapath ← slice input 8 8
  let nBuffers ← readU32 input 16
  let nTables ← readU8 input 20
  let capabilities ← readU32 input 24
  let actions ← readU32 input 28
  let switchAddr ← readVec 6 input 10
  let ports ← readPorts input (portDefnSize / 48) 32
  return some (.featuresReply header {
    -- kept as it comes, which is turned around on a little-endian machine
    datapathId := UInt64.ofNat (ofBE datapath.reverse)
    nBuffers := nBuffers
    nTables := nTables.toUInt32
    switchAddress := ⟨switchAddr⟩
    capabilities := .set capabilities
    actionsSupported := .set actions } ports)

/-- `openflow_switch_config::deserialize`. -/
def deserializeConfig (input : Bytes) : Read (Option SwitchConfig) :=
  if input.length ≠ 12 then .ok none
  else do
    let flags ← readU16 input 8
    let missSendLen ← readU16 input 10
    return if flags = 0 then some { fragNormal := true, maxMsgSendLen := missSendLen }
      else if flags = 1 then some { fragDrop := true, maxMsgSendLen := missSendLen }
      else if flags = 2 then some { fragReasm := true, maxMsgSendLen := missSendLen }
      else if flags = 3 then some { fragMask := true, maxMsgSendLen := missSendLen }
      else none

/-- `of_message_get_config_reply::deserialize`. -/
def deserializeGetConfigReply (input : Bytes) : Read (Option OfMessage) := do
  let some header ← MessageHeader.deserialize input | return none
  if header.msgType != Ofpt.getConfigReply then
    return none
  let some config ← deserializeConfig input | return none
  return some (.getConfigReply header config)

/-- `of_message_packet_in::deserialize`, which looks at no length but `total_len`. -/
def deserializePacketIn (input : Bytes) : Read (Option OfMessage) := do
  let some header ← MessageHeader.deserialize input | return none
  if header.msgType != Ofpt.packetIn then
    return none
  let bufferId ← readU32 input 8
  let actualMessageLen ← readU16 input 12
  let inPort ← readU16 input 14
  let reason ← readU8 input 16
  -- copying no bytes reads none, wherever they would have come from
  let pktData ← if actualMessageLen = 0 then .ok [] else slice input 18 actualMessageLen.toNat
  return some (.packetIn header bufferId inPort actualMessageLen
    (pktData.length != actualMessageLen.toNat) (reason == 0) (reason == 1) pktData)

/-- `of_message_flow_removed::deserialize`. -/
def deserializeFlowRemoved (input : Bytes) : Read (Option OfMessage) := do
  let some header ← MessageHeader.deserialize input | return none
  if header.msgType != Ofpt.flowRemoved || header.msgSize != 88 then
    return none
  let some criteria ← OfMatch.deserialize ((input.drop 8).take 40) | return none
  let cookie ← readU64 input 48
  let priority ← readU16 input 56
  let reason ← readU8 input 58
  let durationSec ← readU32 input 60
  let durationNsec ← readU32 input 64
  let packetCount ← readU64 input 72
  let byteCount ← readU64 input 80
  return some (.flowRemoved header criteria cookie priority (reason == 0) (reason == 1) (reason == 2)
    durationSec durationNsec packetCount byteCount)

/-- `of_message_port_status::deserialize`. -/
def deserializePortStatus (input : Bytes) : Read (Option OfMessage) := do
  let some header ← MessageHeader.deserialize input | return none
  if header.msgType != Ofpt.portStatus || header.msgSize != 64 then
    return none
  let reason ← readU8 input 8
  let description ← OpenflowPort.set input 16
  let reason := if reason = 0 then .add else if reason = 1 then .delete else .modify
  return some (.portStatus header reason description)

/-- What the decoders of statistics replies start with: the header, and the flag for more. -/
def statsHeader (type : UInt16) (minSize : Nat) (input : Bytes) :
    Read (Option (MessageHeader × Bool)) := do
  let some header ← MessageHeader.deserialize input | return none
  if header.msgType != Ofpt.statsReply || input.length < minSize then
    return none
  let hdrType ← readU16 input 8
  if hdrType != type then
    return none
  let flags ← readU16 input 10
  return some (header, flags &&& 1 > 0)

/-- `of_message_stats_reply_switch_description::deserialize`. -/
def deserializeSwitchDescription (input : Bytes) : Read (Option OfMessage) := do
  let some (header, more) ← statsHeader Ofpst.desc (12 + 1056) input | return none
  let some description ← SwitchDescription.deserialize ⟨input.drop 12, 1056⟩ | return none
  return some (.switchDescription header more description)

/-- `of_message_stats_reply_flow_stats::deserialize`. -/
def deserializeFlowStats (input : Bytes) : Read (Option OfMessage) := do
  let some (header, more) ← statsHeader Ofpst.flow 12 input | return none
  if input.length - 12 = 0 then
    return some (.flowStats header false [])
  let some (flows, _) ← (flowLoop (.ofBytes (input.drop 12))).run 0 | return none
  return some (.flowStats header more flows)

/-- `of_message_stats_reply_aggregate_stats::deserialize`. -/
def deserializeAggregateStats (input : Bytes) : Read (Option OfMessage) := do
  let some (header, more) ← statsHeader Ofpst.aggregate (12 + 24) input | return none
  let some stats ← AggregateStats.deserialize ⟨input.drop 12, 24⟩ | return none
  return some (.aggregateStats header more stats)

/-- The decoders of the replies whose records are all of one size. -/
def deserializeArray {α : Type} (type : UInt16) (size : Nat) (hsize : 0 < size)
    (deserialize : Autobuf → Read (Option α))
    (make : MessageHeader → Bool → List α → OfMessage) (input : Bytes) :
    Read (Option OfMessage) := do
  let some (header, more) ← statsHeader type 12 input | return none
  let some (stats, _) ← (fixedLoop size hsize deserialize (.ofBytes (input.drop 12))).run 0
    | return none
  return some (make header more stats)

/-- `of_message_stats_reply_table_stats::deserialize`. -/
def deserializeTableStats : Bytes → Read (Option OfMessage) :=
  deserializeArray Ofpst.table 64 (by decide) TableStats.deserialize .tableStats

/--
`of_message_stats_reply_port_stats::deserialize`. It returns early for an empty
array, for which the loop takes no turn.
-/
def deserializePortStats : Bytes → Read (Option OfMessage) :=
  deserializeArray Ofpst.port 104 (by decide) PortStats.deserialize .portStats

/-- `of_message_stats_reply_queue_stats::deserialize`. -/
def deserializeQueueStats : Bytes → Read (Option OfMessage) :=
  deserializeArray Ofpst.queue 32 (by decide) QueueStats.deserialize .queueStats

/-- `of_message_barrier_reply::deserialize`. -/
def deserializeBarrierReply (input : Bytes) : Read (Option OfMessage) := do
  let some header ← MessageHeader.deserialize input | return none
  if header.msgType != Ofpt.barrierReply then
    return none
  return some (.barrierReply header)

/-! ## `of_message_factory` -/

/-- The `switch` over the types of statistics replies. -/
def deserializeStatsReply (input : Bytes) : Read (Option OfMessage) :=
  if input.length < 12 then .error .aborted
  else do
    let type ← readU16 input 8
    if type = Ofpst.desc then deserializeSwitchDescription input
    else if type = Ofpst.flow then deserializeFlowStats input
    else if type = Ofpst.aggregate then deserializeAggregateStats input
    else if type = Ofpst.table then deserializeTableStats input
    else if type = Ofpst.port then deserializePortStats input
    else if type = Ofpst.queue then deserializeQueueStats input
    -- vendor extensions, and every other type
    else .error .aborted

/-- The `switch` over the types of messages; those that only a controller sends abort. -/
def deserializeAs (type : UInt8) (input : Bytes) : Read (Option OfMessage) :=
  if type = Ofpt.hello then deserializeHello input
  else if type = Ofpt.error then deserializeError input
  else if type = Ofpt.echoRequest then deserializeEcho .echoRequest input
  else if type = Ofpt.echoReply then deserializeEcho .echoReply input
  else if type = Ofpt.vendor then deserializeVendor input
  else if type = Ofpt.featuresRequest then .error .aborted
  else if type = Ofpt.featuresReply then deserializeFeaturesReply input
  else if type = Ofpt.getConfigRequest then .error .aborted
  else if type = Ofpt.getConfigReply then deserializeGetConfigReply input
  else if type = Ofpt.setConfig then .error .aborted
  else if type = Ofpt.packetIn then deserializePacketIn input
  else if type = Ofpt.flowRemoved then deserializeFlowRemoved input
  else if type = Ofpt.portStatus then deserializePortStatus input
  else if type = Ofpt.packetOut then .error .aborted
  -- as if they were a flow removed and a port status
  else if type = Ofpt.flowMod then deserializeFlowRemoved input
  else if type = Ofpt.portMod then deserializePortStatus input
  else if type = Ofpt.statsRequest then .error .aborted
  else if type = Ofpt.statsReply then deserializeStatsReply input
  else if type = Ofpt.barrierRequest then .error .aborted
  else if type = Ofpt.barrierReply then deserializeBarrierReply input
  else if type = Ofpt.queueGetConfigRequest then .error .aborted
  -- "incomplete implementation (review codebase)"
  else if type = Ofpt.queueGetConfigReply then .error .aborted
  else .ok none

/-- `of_message_factory::deserialize_message`; `none` is the null pointer. -/
def deserializeMessage (input : Bytes) : Read (Option OfMessage) := do
  let some header ← MessageHeader.deserialize input | return none
  deserializeAs header.msgType input

end OfMessage

end IronStack
