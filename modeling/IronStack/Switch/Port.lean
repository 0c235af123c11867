import IronStack.Common

/-!
# Ports

`openflow_port`, the description of a port as the switch sends it, and
`openflow_vlan_port`, the controller's record of one with its VLANs.
-/

namespace IronStack

open Std

/-- `openflow_port_config`; the defaults are those of its `clear`. -/
structure OpenflowPortConfig where
  portDown : Bool := false
  portStpDisabled : Bool := false
  portDropAllPktsExceptStp : Bool := false
  portDropStpPkts : Bool := false
  portExcludeFromFlooding : Bool := false
  portDropAllPkts : Bool := false
  portPktInEventsDisabled : Bool := false
deriving DecidableEq, Repr

/-- `of_port_state`; the defaults are those of its `clear`. -/
structure OfPortState where
  portLinkDown : Bool := false
  portStpListen : Bool := false
  portStpLearn : Bool := false
  portStpForward : Bool := false
  portStpBlock : Bool := false
  portStpMask : Bool := false
deriving DecidableEq, Repr

/-- `of_port_features`; the defaults are those of its `clear`. -/
structure OfPortFeatures where
  bandwidth10mbHalfDuplex : Bool := false
  bandwidth10mbFullDuplex : Bool := false
  bandwidth100mbHalfDuplex : Bool := false
  bandwidth100mbFullDuplex : Bool := false
  bandwidth1gbHalfDuplex : Bool := false
  bandwidth1gbFullDuplex : Bool := false
  bandwidth10gbFullDuplex : Bool := false
  mediumCopper : Bool := false
  mediumFiber : Bool := false
  autoNegotiation : Bool := false
  pause : Bool := false
  asymmetricPause : Bool := false
deriving DecidableEq, Repr

/-- `openflow_port`; the defaults are those of its `clear`. -/
structure OpenflowPort where
  portNumber : UInt16 := 0
  dlAddr : MacAddress := MacAddress.nil
  name : String := ""
  config : OpenflowPortConfig := {}
  state : OfPortState := {}
  currentFeatures : OfPortFeatures := {}
  advertisedFeatures : OfPortFeatures := {}
  supportedFeatures : OfPortFeatures := {}
  peerFeatures : OfPortFeatures := {}
deriving DecidableEq, Repr

/-- `openflow_port::is_up`. -/
def OpenflowPort.isUp (p : OpenflowPort) : Bool :=
  !p.state.portLinkDown && !p.config.portDown

/-- Ports from here on are not physical: the reserved numbers of OpenFlow. -/
def firstReservedPort : UInt16 := 0xff00

/-- `openflow_vlan_port`; by default an invalid, untagged port on no VLAN. -/
structure OpenflowVlanPort where
  valid : Bool := false
  tagged : Bool := false
  vlanFloodPortMembership : ExtTreeSet UInt16 := ∅
  vlanStpMembership : ExtTreeSet UInt16 := ∅
  vlanMembership : ExtTreeSet UInt16 := ∅
  port : OpenflowPort := {}

namespace OpenflowVlanPort

/-- `openflow_vlan_port::is_member_of_vlan`. -/
def isMemberOfVlan (p : OpenflowVlanPort) (vlanId : UInt16) : Bool :=
  p.vlanMembership.contains vlanId

/-- `openflow_vlan_port::set_valid`. -/
def setValid (p : OpenflowVlanPort) (state : Bool) : OpenflowVlanPort :=
  { p with valid := state }

/-- `openflow_vlan_port::set_openflow_port`. -/
def setOpenflowPort (p : OpenflowVlanPort) (port : OpenflowPort) : OpenflowVlanPort :=
  { p with port := port }

/-- The abort of `openflow_vlan_port` on an untagged port on more than one VLAN. -/
def checkTagging (p : OpenflowVlanPort) : Option OpenflowVlanPort :=
  if !p.tagged && p.vlanMembership.size > 1 then none else some p

/-- `openflow_vlan_port::set_vlan_tagging`. -/
def setVlanTagging (p : OpenflowVlanPort) (state : Bool) : Option OpenflowVlanPort :=
  { p with tagged := state }.checkTagging

/-- `openflow_vlan_port::add_to_vlan_membership`. -/
def addToVlanMembership (p : OpenflowVlanPort) (vlanId : UInt16) : Option OpenflowVlanPort :=
  { p with vlanMembership := p.vlanMembership.insert vlanId }.checkTagging

/-- `openflow_vlan_port::add_as_flood_port_for_vlan`. -/
def addAsFloodPortForVlan (p : OpenflowVlanPort) (vlanId : UInt16) : Option OpenflowVlanPort :=
  { p with vlanFloodPortMembership := p.vlanFloodPortMembership.insert vlanId }.addToVlanMembership
    vlanId

end OpenflowVlanPort

end IronStack
