import IronStack.Autobuf
import IronStack.Lib.Records
import IronStack.OpenFlow.Action

/-!
# `of_action` and `openflow_action_list` on the wire

Every class of action has an encoder and a decoder of its own, for one of the
records `struct ofp_action_*`. The encoders write into a buffer that is not
cleared, so that the padding of a record is whatever was there before.
-/

namespace IronStack

open Lib

/-! ## `enum ofp_action_type` -/

namespace Ofpat

def output : UInt16 := 0
def setVlanVid : UInt16 := 1
def setVlanPcp : UInt16 := 2
def stripVlan : UInt16 := 3
def setDlSrc : UInt16 := 4
def setDlDst : UInt16 := 5
def setNwSrc : UInt16 := 6
def setNwDst : UInt16 := 7
def setNwTos : UInt16 := 8
def setTpSrc : UInt16 := 9
def setTpDst : UInt16 := 10
def enqueue : UInt16 := 11
def vendor : UInt16 := 0xffff

end Ofpat

/-- `OFPP_CONTROLLER`, the port number that stands for the controller. -/
def ofppController : UInt16 := 0xfffd

namespace OfAction

/-- `of_action::action_type`. -/
inductive ActionType where
  | unknown
  | outputToPort
  | enqueue
  | setVlanId
  | setVlanPcp
  | stripVlan
  | setDlAddr
  | setNwAddr
  | setIpTos
  | setTcpudpPort
  | vendor
deriving DecidableEq, Repr

/-- The `switch` of `of_action::infer_type`. -/
def actionTypeOf (rawType : UInt16) : ActionType :=
  if rawType = Ofpat.output then .outputToPort
  else if rawType = Ofpat.enqueue then .enqueue
  else if rawType = Ofpat.setVlanVid then .setVlanId
  else if rawType = Ofpat.setVlanPcp then .setVlanPcp
  else if rawType = Ofpat.stripVlan then .stripVlan
  else if rawType = Ofpat.setDlSrc ∨ rawType = Ofpat.setDlDst then .setDlAddr
  else if rawType = Ofpat.setNwSrc ∨ rawType = Ofpat.setNwDst then .setNwAddr
  else if rawType = Ofpat.setNwTos then .setIpTos
  else if rawType = Ofpat.setTpSrc ∨ rawType = Ofpat.setTpDst then .setTcpudpPort
  else if rawType = Ofpat.vendor then .vendor
  else .unknown

/-- `of_action::infer_type`. -/
def inferType (content : Autobuf) : Read ActionType :=
  if content.size < 8 then .ok .unknown
  else do
    let rawType ← readU16 content.memory 0
    return actionTypeOf rawType

/-- `get_deserialization_size` of every class: the size of its record. -/
def getDeserializationSize : OfAction → Nat
  | .enqueue .. | .setMacAddress .. => 16
  | .vendor _ request => 8 + request.length
  | _ => 8

/-! ## Encoding -/

/-- `n` bytes of a buffer, from an offset on, that are left as they are. -/
def untouched (junk : Nat → UInt8) (off n : Nat) : Bytes := (List.range n).map fun i => junk (off + i)

/-- `serialize` of every class, into a buffer that holds `junk`. -/
def serialize (junk : Nat → UInt8) : OfAction → Read Bytes
  | .outputToPort sendToController port =>
      .ok (be16 Ofpat.output ++ (be16 8 ++
        (be16 (if sendToController then ofppController else port) ++ be16 65535)))
  | .enqueue port queueId =>
      .ok (be16 Ofpat.enqueue ++ (be16 16 ++ (be16 port ++ (untouched junk 6 6 ++ be32 queueId))))
  | .setVlanId vlanId =>
      .ok (be16 Ofpat.setVlanVid ++ (be16 8 ++ (be16 vlanId ++ untouched junk 6 2)))
  | .setVlanPcp vlanPcp =>
      .ok (be16 Ofpat.setVlanPcp ++ (be16 8 ++ ([vlanPcp] ++ untouched junk 5 3)))
  | .stripVlan =>
      .ok (be16 Ofpat.stripVlan ++ (be16 8 ++ untouched junk 4 4))
  | .setMacAddress setSrc newAddr =>
      .ok (be16 (if setSrc then Ofpat.setDlSrc else Ofpat.setDlDst) ++ (be16 16 ++
        (newAddr.addr.toList ++ untouched junk 10 6)))
  | .setIpAddress setSrc newAddr =>
      .ok (be16 (if setSrc then Ofpat.setNwSrc else Ofpat.setNwDst) ++ (be16 8 ++
        newAddr.octets.toList))
  | .setIpTypeOfService typeOfService =>
      .ok (be16 Ofpat.setNwTos ++ (be16 8 ++ ([typeOfService] ++ untouched junk 5 3)))
  | .setTcpudpPort setSrcPort port =>
      .ok (be16 (if setSrcPort then Ofpat.setTpSrc else Ofpat.setTpDst) ++ (be16 8 ++
        (be16 port ++ untouched junk 6 2)))
  -- "not implemented"
  | .vendor _ _ => .error .aborted

end OfAction

namespace OpenflowActionList

/-- `openflow_action_list::get_serialization_size`. -/
def getSerializationSize (l : OpenflowActionList) : Nat :=
  (l.actions.map OfAction.getDeserializationSize).sum % 2 ^ 32

/-- The loop of `openflow_action_list::serialize`: each action into its part of one buffer. -/
def serializeAt (junk : Nat → UInt8) (contentSize : Nat) : Nat → List OfAction → Read Bytes
  | _, [] => .ok []
  | offset, action :: actions => do
      ptrOffsetMutable contentSize offset
      let record ← action.serialize fun i => junk (offset + i)
      let rest ← serializeAt junk contentSize (offset + action.getDeserializationSize) actions
      return record ++ rest

/-- `openflow_action_list::serialize`. -/
def serialize (junk : Nat → UInt8) (l : OpenflowActionList) : Read Bytes :=
  if l.actions.isEmpty then .ok [] else serializeAt junk l.getSerializationSize 0 l.actions

end OpenflowActionList

/-! ## Decoding -/

namespace OfAction

/--
What the decoders share. The size is compared with `sizeof(hdr)`, where `hdr` is a
pointer: 8 bytes, whatever the record.
-/
def deserializeRecord (content : Autobuf) (accepts : UInt16 → Bool) (size : Nat)
    (fields : Bytes → Read OfAction) : Read (Option OfAction) :=
  if content.size < 8 then .ok none
  else do
    let hdrType ← readU16 content.memory 0
    let hdrLen ← readU16 content.memory 2
    if !accepts hdrType || hdrLen.toNat != size then
      return none
    return some (← fields content.memory)

/-- `of_action_output_to_port::deserialize`. -/
def deserializeOutputToPort (content : Autobuf) : Read (Option OfAction) :=
  deserializeRecord content (· == Ofpat.output) 8 fun hdr => do
    let port ← readU16 hdr 4
    return .outputToPort (port == ofppController) port

/-- `of_action_enqueue::deserialize`. -/
def deserializeEnqueue (content : Autobuf) : Read (Option OfAction) :=
  deserializeRecord content (· == Ofpat.enqueue) 16 fun hdr => do
    let port ← readU16 hdr 4
    let queueId ← readU32 hdr 12
    return .enqueue port queueId

/-- `of_action_set_vlan_id::deserialize`. -/
def deserializeSetVlanId (content : Autobuf) : Read (Option OfAction) :=
  deserializeRecord content (· == Ofpat.setVlanVid) 8 fun hdr => do
    return .setVlanId (← readU16 hdr 4)

/-- `of_action_set_vlan_pcp::deserialize`. -/
def deserializeSetVlanPcp (content : Autobuf) : Read (Option OfAction) :=
  deserializeRecord content (· == Ofpat.setVlanPcp) 8 fun hdr => do
    return .setVlanPcp (← readU8 hdr 4)

/-- `of_action_strip_vlan::deserialize`. -/
def deserializeStripVlan (content : Autobuf) : Read (Option OfAction) :=
  deserializeRecord content (· == Ofpat.stripVlan) 8 fun _ => return .stripVlan

/-- `of_action_set_mac_address::deserialize`. -/
def deserializeSetMacAddress (content : Autobuf) : Read (Option OfAction) :=
  deserializeRecord content (fun t => t == Ofpat.setDlSrc || t == Ofpat.setDlDst) 16 fun hdr => do
    let hdrType ← readU16 hdr 0
    return .setMacAddress (hdrType == Ofpat.setDlSrc) ⟨← readVec 6 hdr 4⟩

/-- `src && hdr_type != dst` as the number that `hdr_type` is compared with. -/
def srcAndNotDst (src dst hdrType : UInt16) : UInt16 := if src ≠ 0 ∧ hdrType ≠ dst then 1 else 0

/--
`of_action_set_ip_address::deserialize`. The address goes through `ntohl`, which
turns its octets around, and is then set as if it were in network order.
-/
def deserializeSetIpAddress (content : Autobuf) : Read (Option OfAction) :=
  -- a parenthesis is in the wrong place: `hdr_type != (SRC && hdr_type != DST)`
  deserializeRecord content (fun t => t == srcAndNotDst Ofpat.setNwSrc Ofpat.setNwDst t) 8 fun hdr => do
    let hdrType ← readU16 hdr 0
    return .setIpAddress (hdrType == Ofpat.setNwSrc) ⟨(← readVec 4 hdr 4).reverse⟩

/-- `of_action_set_ip_type_of_service::deserialize`. -/
def deserializeSetIpTypeOfService (content : Autobuf) : Read (Option OfAction) :=
  deserializeRecord content (· == Ofpat.setNwTos) 8 fun hdr => do
    return .setIpTypeOfService (← readU8 hdr 4)

/-- `of_action_set_tcpudp_port::deserialize`, with the same parenthesis in the wrong place. -/
def deserializeSetTcpudpPort (content : Autobuf) : Read (Option OfAction) :=
  deserializeRecord content (fun t => t == srcAndNotDst Ofpat.setTpSrc Ofpat.setTpDst t) 8 fun hdr => do
    let port ← readU16 hdr 4
    let hdrType ← readU16 hdr 0
    return .setTcpudpPort (hdrType == Ofpat.setTpSrc) port

/-- The decoder that the `switch` of `openflow_action_list::deserialize` picks. -/
def deserializeAs (type : ActionType) (content : Autobuf) : Read (Option OfAction) :=
  match type with
  | .outputToPort => deserializeOutputToPort content
  | .enqueue => deserializeEnqueue content
  | .setVlanId => deserializeSetVlanId content
  | .setVlanPcp => deserializeSetVlanPcp content
  | .stripVlan => deserializeStripVlan content
  | .setDlAddr => deserializeSetMacAddress content
  | .setNwAddr => deserializeSetIpAddress content
  | .setIpTos => deserializeSetIpTypeOfService content
  | .setTcpudpPort => deserializeSetTcpudpPort content
  -- "not implemented"
  | .vendor => .error .aborted
  | .unknown => .ok none

/-- One record, of whatever type, at the start of what is left of a list. -/
def deserialize (content : Autobuf) : Read (Option OfAction) := do
  let type ← inferType ⟨content.memory, 8⟩
  deserializeAs type content

theorem getDeserializationSize_pos (a : OfAction) : 0 < a.getDeserializationSize := by
  cases a <;> simp [getDeserializationSize]

end OfAction

namespace OpenflowActionList

/-- One turn of the loop of `openflow_action_list::deserialize`. -/
def deserializeOne (input : Autobuf) (offset : Nat) : Read (Option (OfAction × Nat)) := do
  let content ← input.ptrOffsetConst offset
  let action ← OfAction.deserialize ⟨content, input.size - offset⟩
  return action.map fun action => (action, action.getDeserializationSize)

/-- The loop of `openflow_action_list::deserialize`. -/
def deserializeLoop (input : Autobuf) : RecordLoop OfAction where
  more offset := decide (offset + 8 ≤ input.size)
  one := deserializeOne input
  limit := input.size
  lt_limit h := by
    have hle := of_decide_eq_true h
    omega
  moves h := by
    obtain ⟨_, _, h⟩ := bind_eq_ok.mp h
    obtain ⟨action, _, h⟩ := bind_eq_ok.mp h
    cases action with
    | none => cases h
    | some action =>
        cases h
        exact OfAction.getDeserializationSize_pos _

/--
`openflow_action_list::deserialize`; `none` is the false it returns. With the
actions goes the offset at which the loop stopped.
-/
def deserialize (input : Autobuf) : Read (Option (OpenflowActionList × Nat)) :=
  if input.size = 0 then .ok (some (⟨[]⟩, 0))
  else if input.size < 8 then .ok none
  else ((deserializeLoop input).run 0).map (Option.map fun r => (⟨r.1⟩, r.2))

end OpenflowActionList

end IronStack
