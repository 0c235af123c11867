import IronStack.Net.PacketInProcessor
import IronStack.Net.PacketUtils
import IronStack.OpenFlow.Action

/-!
# `net_utils::flood_packet`

A frame goes out of the ports of a VLAN in two groups, those that are tagged and
those that are not. Each group is one packet-out message, with an action for every
port of it.
-/

namespace IronStack

open Std Lib

/-- `openflow_action_list::add_action`, which makes no duplicates. -/
def OpenflowActionList.addAction (l : OpenflowActionList) (action : OfAction) : OpenflowActionList :=
  if l.actions.any (· == action) then l else ⟨l.actions ++ [action]⟩

/-- `of_message_packet_out`, of a packet that comes from no port and no buffer. -/
structure PacketOut where
  packetData : Bytes
  actionList : OpenflowActionList

/-- `hal`, as far as it sends packets. -/
structure PacketHal where
  switchReady : Bool
  pendingTransactions : List PacketOut := []

namespace PacketHal

/-- `hal::send_packet` to a set of ports. -/
def sendPacket (controller : PacketHal) (packet : Bytes) (phyPorts : ExtTreeSet UInt16) :
    PacketHal × Bool :=
  if !controller.switchReady then (controller, false)
  else
    let actionList := phyPorts.toList.foldl (fun l port => l.addAction (.outputToPort false port)) .clear
    ({ controller with
        pendingTransactions := controller.pendingTransactions ++ [⟨packet, actionList⟩] }, true)

/-- A group of ports, unless it is empty, is sent a frame that is made for it. -/
def sendToGroup (controller : PacketHal) (packet : Read Bytes) (ports : ExtTreeSet UInt16) :
    Read PacketHal :=
  if ports.isEmpty then .ok controller
  else do
    let packet ← packet
    return (controller.sendPacket packet ports).1

end PacketHal

namespace NetUtils

open StdPacketUtils

/-- The packet that `set_vlan_tag` leaves in a new buffer. -/
def taggedPacket (junk : Nat → UInt8) (packet : Bytes) (vlan : UInt16) : Read Bytes :=
  (setVlanTag junk packet {} vlan).map fun result => result.2.content

/-- The packet that `strip_vlan_tag` leaves in a new buffer. -/
def untaggedPacket (junk : Nat → UInt8) (packet : Bytes) : Read Bytes :=
  (stripVlanTag junk packet {}).map fun result => result.2.content

/-- `net_utils::get_vlan_from_packet`. -/
def getVlanFromPacket (switchState : SwitchState) (packet : PacketIn) (rawPkt : RawPacket) :
    Int × SwitchState :=
  if rawPkt.hasVlanTag then (rawPkt.getVlanId.toNat, switchState)
  else
    let ((status, vlanPort), switchState) := switchState.getSwitchPort packet.inPort
    if !status then (-1, switchState)
    else if vlanPort.tagged then (-1, switchState)
    else
      match vlanPort.vlanMembership.toList with
      | [vlan] => (vlan.toNat, switchState)
      | _ => (-1, switchState)

/-- `net_utils::flood_packet` for a packet from the switch. -/
def floodPacket (junk : Nat → UInt8) (controller : PacketHal) (packet : PacketIn) (rawPkt : RawPacket)
    (switchState : SwitchState) : Read (PacketHal × SwitchState) :=
  let pktVlanId := rawPkt.getVlanId
  let ((status, vlanPortInfo), switchState) := switchState.getSwitchPort packet.inPort
  if !status then .ok (controller, switchState)
  else
    let portVlans := vlanPortInfo.vlanMembership
    if rawPkt.hasVlanTag && !portVlans.contains pktVlanId then .ok (controller, switchState)
    else if !rawPkt.hasVlanTag && vlanPortInfo.tagged then .ok (controller, switchState)
    else if !rawPkt.hasVlanTag && portVlans.isEmpty then .ok (controller, switchState)
    else
      let actualVlan := if rawPkt.hasVlanTag then pktVlanId else portVlans.min?.getD 0
      let untaggedPorts := (switchState.getUntaggedPorts actualVlan).erase packet.inPort
      let taggedPorts := (switchState.getTaggedPorts actualVlan).erase packet.inPort
      if !rawPkt.hasVlanTag then do
        let controller ← controller.sendToGroup (.ok packet.pktData) untaggedPorts
        let controller ← controller.sendToGroup (taggedPacket junk packet.pktData actualVlan) taggedPorts
        return (controller, switchState)
      else do
        let controller ← controller.sendToGroup (untaggedPacket junk packet.pktData) untaggedPorts
        let controller ← controller.sendToGroup (.ok packet.pktData) taggedPorts
        return (controller, switchState)

/-- `net_utils::flood_packet` for a packet of the controller, on a VLAN. -/
def floodPacketOnVlan (junk : Nat → UInt8) (controller : PacketHal) (switchState : SwitchState)
    (contents : Bytes) (vlanId : UInt16) : Read PacketHal := do
  let taggedPorts := switchState.getTaggedPorts vlanId
  let untaggedPorts := switchState.getUntaggedPorts vlanId
  let controller ← controller.sendToGroup (taggedPacket junk contents vlanId) taggedPorts
  controller.sendToGroup (.ok contents) untaggedPorts

end NetUtils

end IronStack
