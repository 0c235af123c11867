import IronStack.Hal.Transaction
import IronStack.OpenFlow.Message

/-!
# The commands the controller sends

`of_message_modify_flow` and `of_message_packet_out` on the wire. Both put a fixed
part in front of a list of actions, which is written through a window into the same
buffer. A flow-mod can be decoded as well, but for its actions.
-/

namespace IronStack

open Lib

/-! ## `of_message_modify_flow` -/

/-- `of_message_modify_flow` with its header, whose type is always `OFPT_FLOW_MOD`. -/
structure OfMessageModifyFlow extends ModifyFlow where
  version : UInt8
  msgSize : UInt16
  xid : UInt32
deriving DecidableEq, Repr

/-- `enum ofp_flow_mod_command` on the wire. -/
def FlowModCommand.toU16 : FlowModCommand → UInt16
  | .add => 0
  | .modify => 1
  | .modifyStrict => 2
  | .delete => 3
  | .deleteStrict => 4

/-- The `switch` of `of_message_modify_flow::deserialize`. -/
def FlowModCommand.ofU16? (cmd : UInt16) : Option FlowModCommand :=
  if cmd = 0 then some .add
  else if cmd = 1 then some .modify
  else if cmd = 2 then some .modifyStrict
  else if cmd = 3 then some .delete
  else if cmd = 4 then some .deleteStrict
  else none

/-! `enum ofp_flow_mod_flags`. -/

def ofpffSendFlowRem : UInt16 := (1 : UInt16) <<< 0
def ofpffCheckOverlap : UInt16 := (1 : UInt16) <<< 1
def ofpffEmerg : UInt16 := (1 : UInt16) <<< 2

namespace OfMessageModifyFlow

/-- `sizeof(struct ofp_flow_mod)`. -/
def fixedSize : Nat := 72

def flags (m : OfMessageModifyFlow) : UInt16 :=
  (if m.flagSendFlowRemovalMessage then ofpffSendFlowRem else 0) |||
    (if m.flagCheckOverlap then ofpffCheckOverlap else 0) |||
      (if m.flagEmergencyFlow then ofpffEmerg else 0)

/-- The fixed part, for a message of a given size. -/
def serializeFixed (m : OfMessageModifyFlow) (sizeRequired : Nat) : Bytes :=
  [m.version, Ofpt.flowMod] ++ (be16 (UInt16.ofNat sizeRequired) ++ (be32 m.xid ++
    (m.flowDescription.criteria.serialize ++ (be64 m.flowDescription.cookie ++
      (be16 m.command.toU16 ++ (be16 m.idleTimeout ++ (be16 m.hardTimeout ++
        (be16 m.flowDescription.priority ++ (be32 m.bufferId ++
          (be16 (if m.useOutPort then m.outPort else ofppNone) ++ be16 m.flags))))))))))

/-- `of_message_modify_flow::serialize`, into memory that is zeroed first. -/
def serialize (m : OfMessageModifyFlow) : Read Bytes :=
  let actionListSize := m.flowDescription.actionList.getSerializationSize
  let sizeRequired := (fixedSize + actionListSize) % 2 ^ 32
  -- the size wraps around at 4 GiB, and the fixed part is written all the same
  if sizeRequired < fixedSize then .error .outOfBounds
  else if actionListSize > 0 then do
    ptrOffsetMutable sizeRequired fixedSize
    let actions ← m.flowDescription.actionList.serialize fun _ => 0
    return m.serializeFixed sizeRequired ++ actions
  else return m.serializeFixed sizeRequired

/-- `of_message_modify_flow::deserialize`, which reads no actions. -/
def deserialize (input : Bytes) : Read (Option OfMessageModifyFlow) := do
  let some header ← MessageHeader.deserialize input | return none
  -- the size asked for is that of the match inside the message
  if input.length < OfMatch.wireSize || header.msgType != Ofpt.flowMod then
    return none
  let matchStruct ← slice input 8 OfMatch.wireSize
  let some criteria ← OfMatch.deserialize matchStruct | return none
  let cookie ← slice input 48 8
  let cmd ← readU16 input 56
  let some command := FlowModCommand.ofU16? cmd | return none
  let idleTimeout ← readU16 input 58
  let hardTimeout ← readU16 input 60
  let priority ← readU16 input 62
  let bufferId ← readU32 input 64
  let outPort ← readU16 input 68
  let flags ← readU16 input 70
  return some {
    version := header.version
    msgSize := header.msgSize
    xid := header.xid
    flowDescription := {
      criteria := criteria
      actionList := .clear
      -- kept as it comes, which is turned around on a little-endian machine
      cookie := UInt64.ofNat (ofBE cookie.reverse)
      priority := priority }
    command := command
    idleTimeout := idleTimeout
    hardTimeout := hardTimeout
    bufferId := bufferId
    useOutPort := outPort != ofppNone
    outPort := outPort
    flagSendFlowRemovalMessage := flags &&& ofpffSendFlowRem > 0
    flagCheckOverlap := flags &&& ofpffCheckOverlap > 0
    flagEmergencyFlow := flags &&& ofpffEmerg > 0 }

end OfMessageModifyFlow

/-! ## `of_message_packet_out` -/

/-- `autobuf::inherit_shared`: how much the window into another buffer can hold. -/
def inheritShared (size maxSize : Nat) : Nat := if maxSize = 0 then size else maxSize

/--
`openflow_action_list::serialize` into a window. An `alloc` that finds the window
too small says so, but is not listened to.
-/
def OpenflowActionList.serializeShared (bufSize : Nat) (junk : Nat → UInt8) (l : OpenflowActionList) :
    Read Bytes :=
  if l.actions.isEmpty then .ok []
  else if l.getSerializationSize ≤ bufSize then l.serialize junk
  else .error .outOfBounds

/-- `of_message_packet_out` with its header; the defaults are those of its `clear`. -/
structure OfMessagePacketOut where
  version : UInt8
  xid : UInt32
  bufferId : UInt32 := 0xffffffff
  usePort : Bool := false
  inPort : UInt16 := 0
  actionList : OpenflowActionList := .clear
  packetData : Bytes := []
deriving DecidableEq, Repr

namespace OfMessagePacketOut

/-- `sizeof(struct ofp_packet_out)`. -/
def fixedSize : Nat := 16

/-- The fixed part, for a message and a list of actions of given sizes. -/
def serializeFixed (m : OfMessagePacketOut) (sizeRequired actionListLen : Nat) : Bytes :=
  [m.version, Ofpt.packetOut] ++ (be16 (UInt16.ofNat sizeRequired) ++ (be32 m.xid ++
    (be32 m.bufferId ++ (be16 (if m.usePort then m.inPort else ofppNone) ++
      be16 (UInt16.ofNat actionListLen)))))

/-- `of_message_packet_out::serialize`, into memory that holds `junk`. -/
def serialize (junk : Nat → UInt8) (m : OfMessagePacketOut) : Read Bytes :=
  let actionListLen := m.actionList.getSerializationSize
  let sizeRequired := (fixedSize + actionListLen + m.packetData.length) % 2 ^ 32
  -- the size wraps around at 4 GiB, and the fixed part is written all the same
  if sizeRequired < fixedSize then .error .outOfBounds
  else do
    -- asked for even if nothing is written there
    ptrOffsetMutable sizeRequired fixedSize
    let actions ← m.actionList.serializeShared (inheritShared actionListLen 0) fun i => junk (fixedSize + i)
    if m.packetData.length > 0 then
      ptrOffsetMutable sizeRequired (fixedSize + actionListLen)
      return m.serializeFixed sizeRequired actionListLen ++ actions ++ m.packetData
    else return m.serializeFixed sizeRequired actionListLen ++ actions

end OfMessagePacketOut

end IronStack
