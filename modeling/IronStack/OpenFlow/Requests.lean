import IronStack.OpenFlow.Commands

/-!
# Everything the controller sends

The classes derived from `of_message` that are serialized, besides the two commands, and
all of them as one type. The requests for statistics of flows and of queues are written
into a buffer that is not zeroed before, field by field: with the two commands these are
the messages that carry a match, a list of actions or padding. Most others are a header
or a fixed struct; echoes and vendor messages carry bytes whose number only the header's
sixteen bits tell.
-/

namespace IronStack

open Lib OfAction

/-! ## Requests with a match or with padding -/

/-- `struct ofp_stats_request` in front of a request of a given size; no flags are defined. -/
def statsRequestHeader (version : UInt8) (xid : UInt32) (size type : UInt16) : Bytes :=
  [version, Ofpt.statsRequest] ++ (be16 size ++ (be32 xid ++ (be16 type ++ be16 0)))

/-- `of_message_stats_request_aggregate_stats`. -/
structure OfMessageStatsRequestAggregateStats where
  version : UInt8
  xid : UInt32
  fieldsToMatch : OfMatch
  allTables : Bool
  tableId : UInt8
  restrictOutPort : Bool
  outPort : UInt16
deriving DecidableEq, Repr

/-- `of_message_stats_request_aggregate_stats::serialize`, into memory that holds `junk`. The match
is written through a window; the byte behind the table is not written. -/
def OfMessageStatsRequestAggregateStats.serialize (junk : Nat → UInt8)
    (m : OfMessageStatsRequestAggregateStats) : Bytes :=
  statsRequestHeader m.version m.xid 56 Ofpst.aggregate ++ (m.fieldsToMatch.serialize ++
    ([if m.allTables then 0xff else m.tableId] ++ (untouched junk 53 1 ++
      be16 (if m.restrictOutPort then m.outPort else ofppNone))))

/-- `of_message_stats_request_queue_stats`. -/
structure OfMessageStatsRequestQueueStats where
  version : UInt8
  xid : UInt32
  allPorts : Bool
  port : UInt16
  allQueues : Bool
  queueId : UInt32
deriving DecidableEq, Repr

/-- `of_message_stats_request_queue_stats::serialize`, into memory that holds `junk`. The two bytes
behind the port are not written. -/
def OfMessageStatsRequestQueueStats.serialize (junk : Nat → UInt8)
    (m : OfMessageStatsRequestQueueStats) : Bytes :=
  statsRequestHeader m.version m.xid 20 Ofpst.queue ++
    (be16 (if m.allPorts then ofppAll else m.port) ++ (untouched junk 14 2 ++
      be32 (if m.allQueues then ofpqAll else m.queueId)))

/-- A message with a struct or a list of actions in it. -/
inductive OutgoingMessage where
  | flowMod (m : OfMessageModifyFlow)
  | packetOut (m : OfMessagePacketOut)
  | aggregateStats (m : OfMessageStatsRequestAggregateStats)
  | queueStats (m : OfMessageStatsRequestQueueStats)

/-- `serialize` of each class, into a buffer whose memory holds `junk`. -/
def OutgoingMessage.serialize (junk : Nat → UInt8) : OutgoingMessage → Read Bytes
  -- the one that zeroes the memory
  | .flowMod m => m.serialize
  | .packetOut m => m.serialize junk
  | .aggregateStats m => .ok (m.serialize junk)
  | .queueStats m => .ok (m.serialize junk)

/-! ## Flags on the wire -/

/-- The bits of a word whose flags are set. -/
def flagWord (flags : List (Bool × UInt32)) : UInt32 :=
  flags.foldr (fun flag word => (if flag.1 then flag.2 else 0) ||| word) 0

/-- `openflow_port_config::get`. -/
def OpenflowPortConfig.get (c : OpenflowPortConfig) : UInt32 :=
  flagWord [(c.portDown, (1 : UInt32) <<< 0), (c.portStpDisabled, (1 : UInt32) <<< 1),
    (c.portDropAllPktsExceptStp, (1 : UInt32) <<< 2), (c.portDropStpPkts, (1 : UInt32) <<< 3),
    (c.portExcludeFromFlooding, (1 : UInt32) <<< 4), (c.portDropAllPkts, (1 : UInt32) <<< 5),
    (c.portPktInEventsDisabled, (1 : UInt32) <<< 6)]

/-- `of_port_features::get`. -/
def OfPortFeatures.get (f : OfPortFeatures) : UInt32 :=
  flagWord [(f.bandwidth10mbHalfDuplex, (1 : UInt32) <<< 0),
    (f.bandwidth10mbFullDuplex, (1 : UInt32) <<< 1),
    (f.bandwidth100mbHalfDuplex, (1 : UInt32) <<< 2),
    (f.bandwidth100mbFullDuplex, (1 : UInt32) <<< 3),
    (f.bandwidth1gbHalfDuplex, (1 : UInt32) <<< 4), (f.bandwidth1gbFullDuplex, (1 : UInt32) <<< 5),
    (f.bandwidth10gbFullDuplex, (1 : UInt32) <<< 6), (f.mediumCopper, (1 : UInt32) <<< 7),
    (f.mediumFiber, (1 : UInt32) <<< 8), (f.autoNegotiation, (1 : UInt32) <<< 9),
    (f.pause, (1 : UInt32) <<< 10), (f.asymmetricPause, (1 : UInt32) <<< 11)]

/-! ## Messages -/

/-- `of_message::serialize`. -/
def MessageHeader.serialize (h : MessageHeader) : Bytes :=
  [h.version, h.msgType] ++ (be16 h.msgSize ++ be32 h.xid)

/-- The header of a message that says itself how long it is. -/
def messageHeader (version type : UInt8) (size : Nat) (xid : UInt32) : Bytes :=
  MessageHeader.serialize ⟨version, type, UInt16.ofNat size, xid⟩

/-- `of_message_echo_request::serialize` and `of_message_echo_reply::serialize`. -/
def serializeEcho (version type : UInt8) (xid : UInt32) (data : Bytes) : Read Bytes :=
  let sizeRequired := (8 + data.length) % 2 ^ 32
  -- the size wraps around at 4 GiB, and the header is written all the same
  if sizeRequired < 8 then .error .outOfBounds
  else do
    if data.length > 0 then
      ptrOffsetMutable sizeRequired 8
    return messageHeader version type sizeRequired xid ++ data

/-- `of_message_vendor::serialize`, which asks for the place of the request even if that is empty. -/
def serializeVendor (version : UInt8) (xid vendor : UInt32) (request : Bytes) : Read Bytes :=
  let sizeRequired := (12 + request.length) % 2 ^ 32
  if sizeRequired < 12 then .error .outOfBounds
  else do
    ptrOffsetMutable sizeRequired 12
    return messageHeader version Ofpt.vendor sizeRequired xid ++ (be32 vendor ++ request)

/-- The `flags` of `of_message_set_config::serialize`. -/
def SwitchConfig.flags (c : SwitchConfig) : UInt16 :=
  if c.fragNormal then 0
  else if c.fragDrop then 1
  else if c.fragReasm then 2
  else if c.fragMask then 3
  else 0

/-- `of_message_set_config::serialize`. -/
def SwitchConfig.serialize (version : UInt8) (xid : UInt32) (c : SwitchConfig) : Bytes :=
  messageHeader version Ofpt.setConfig 12 xid ++ (be16 c.flags ++ be16 c.maxMsgSendLen)

/-- `of_message_port_modification`. -/
structure OfMessagePortModification where
  version : UInt8
  xid : UInt32
  portNo : UInt16
  portMacAddress : MacAddress
  newConfig : OpenflowPortConfig
  changeFeatures : Bool
  features : OfPortFeatures
deriving DecidableEq, Repr

/-- `of_message_port_modification::serialize`. The four bytes behind the features are not written. -/
def OfMessagePortModification.serialize (junk : Nat → UInt8) (m : OfMessagePortModification) : Bytes :=
  messageHeader m.version Ofpt.portMod 32 m.xid ++ (be16 m.portNo ++
    (m.portMacAddress.addr.toList ++ (be32 m.newConfig.get ++ (be32 0xffffffff ++
      (be32 (if m.changeFeatures then m.features.get else 0) ++ untouched junk 28 4)))))

/-- `of_message_stats_request_flow_stats`. -/
structure OfMessageStatsRequestFlowStats where
  version : UInt8
  xid : UInt32
  fieldsToMatch : OfMatch
  allTables : Bool
  tableId : UInt8
  restrictOutPort : Bool
  outPort : UInt16
deriving DecidableEq, Repr

/-- `of_message_stats_request_flow_stats::serialize`, into memory that is zeroed first. -/
def OfMessageStatsRequestFlowStats.serialize (m : OfMessageStatsRequestFlowStats) : Bytes :=
  statsRequestHeader m.version m.xid 56 Ofpst.flow ++ (m.fieldsToMatch.serialize ++
    ([if m.allTables then 0xff else m.tableId, 0] ++
      be16 (if m.restrictOutPort then m.outPort else ofppNone)))

/--
The messages the controller sends. What `clear` puts into the header of a class and
nothing changes later, its type and size, is left to `serialize`.
-/
inductive ControllerMessage where
  | hello (version : UInt8) (xid : UInt32)
  | echoRequest (version : UInt8) (xid : UInt32) (data : Bytes)
  | echoReply (version : UInt8) (xid : UInt32) (data : Bytes)
  | vendor (version : UInt8) (xid vendor : UInt32) (request : Bytes)
  | featuresRequest (version : UInt8) (xid : UInt32)
  | getConfigRequest (version : UInt8) (xid : UInt32)
  | setConfig (version : UInt8) (xid : UInt32) (config : SwitchConfig)
  | portModification (m : OfMessagePortModification)
  | switchDescription (version : UInt8) (xid : UInt32)
  | flowStats (m : OfMessageStatsRequestFlowStats)
  | tableStats (version : UInt8) (xid : UInt32)
  | portStats (version : UInt8) (xid : UInt32) (allPorts : Bool) (port : UInt16)
  | barrierRequest (version : UInt8) (xid : UInt32)
  | queueGetConfigRequest (version : UInt8) (xid : UInt32) (port : UInt16)
  /-- With a match, actions or padding. -/
  | padded (m : OutgoingMessage)

/-- `serialize` of each class, into a buffer whose memory holds `junk`. -/
def ControllerMessage.serialize (junk : Nat → UInt8) : ControllerMessage → Read Bytes
  | .hello version xid => .ok (messageHeader version Ofpt.hello 8 xid)
  | .echoRequest version xid data => serializeEcho version Ofpt.echoRequest xid data
  | .echoReply version xid data => serializeEcho version Ofpt.echoReply xid data
  | .vendor version xid vendorId request => serializeVendor version xid vendorId request
  | .featuresRequest version xid => .ok (messageHeader version Ofpt.featuresRequest 8 xid)
  | .getConfigRequest version xid => .ok (messageHeader version Ofpt.getConfigRequest 8 xid)
  | .setConfig version xid config => .ok (config.serialize version xid)
  | .portModification m => .ok (m.serialize junk)
  | .switchDescription version xid => .ok (statsRequestHeader version xid 12 Ofpst.desc)
  | .flowStats m => .ok m.serialize
  | .tableStats version xid => .ok (statsRequestHeader version xid 12 Ofpst.table)
  | .portStats version xid allPorts port =>
      .ok (statsRequestHeader version xid 20 Ofpst.port ++
        (be16 (if allPorts then ofppNone else port) ++ [0, 0, 0, 0, 0, 0]))
  | .barrierRequest version xid => .ok (messageHeader version Ofpt.barrierRequest 8 xid)
  | .queueGetConfigRequest version xid port =>
      .ok (messageHeader version Ofpt.queueGetConfigRequest 12 xid ++
        (be16 port ++ untouched junk 10 2))
  | .padded m => m.serialize junk

/-- The bytes that a message carries in an `autobuf` of its own. -/
def ControllerMessage.payload : ControllerMessage → Bytes
  | .echoRequest _ _ data | .echoReply _ _ data => data
  | .vendor _ _ _ request => request
  | .padded (.packetOut m) => m.packetData
  | _ => []

/-- A message that was serialized. What it carries is counted by the 32 bits of an `autobuf`. -/
structure SerializedMessage where
  message : ControllerMessage
  junk : Nat → UInt8
  bytes : Bytes
  payload_lt : message.payload.length < 2 ^ 32
  serialize_eq : message.serialize junk = .ok bytes

end IronStack
