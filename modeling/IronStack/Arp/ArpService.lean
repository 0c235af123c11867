import IronStack.Arp.ArpPacket
import IronStack.Arp.ArpTable
import IronStack.Net.Flooding
import IronStack.Net.IpPacket

/-!
# `arp`

The ARP service: it learns the addresses in the ARP packets it sees, answers the
requests for the controller's own address, and sends requests of its own. The
switch state is online.
-/

namespace IronStack

open Std Lib NetUtils

/-- `arp`, with what it asks for and what it gives to other services. -/
structure ArpService where
  initialized : Bool := false
  arpTables : ExtTreeMap UInt16 ArpTable := ∅
  requestsMade : UInt32 := 0
  requestsServiced : UInt32 := 0
  /-- `get_switch_mac` of the switch state. -/
  switchMac : MacAddress := MacAddress.nil
  switchState : SwitchState := {}
  controller : PacketHal
  /-- The replies handed to whoever waits for them. -/
  completed : List (IpAddress × MacAddress) := []
  /-- The calls of `accelerate_flow` of the flow policy checker. -/
  accelerated : List (MacAddress × UInt16 × UInt16) := []
  /-- The calls of its `forward_packet`. -/
  forwarded : List (PacketIn × RawPacket) := []

namespace ArpService

/-- `arp::insert`; the search for a free slot in the table may not end. -/
def insert (s : ArpService) (fuel now : Nat) (dlAddress : MacAddress) (nwAddress : IpAddress)
    (vlanId : UInt16) : Option ArpService :=
  match s.arpTables[vlanId]? with
  | none => some s
  | some t =>
      (t.insert fuel now dlAddress nwAddress).map fun result =>
        { s with arpTables := s.arpTables.insert vlanId result.2 }

/-- `arp::lookup_mac_for`. -/
def lookupMacFor (s : ArpService) (now : Nat) (nwAddress : IpAddress) (vlanId : UInt16) :
    MacAddress × ArpService :=
  match s.arpTables[vlanId]? with
  | none => (MacAddress.nil, s)
  | some t =>
      let (mac, t) := t.lookupMacFor now nwAddress
      (mac, { s with arpTables := s.arpTables.insert vlanId t })

/-- `get_vlan_from_packet`, which asks the switch state. -/
def vlanFromPacket (s : ArpService) (packet : PacketIn) (rawPkt : RawPacket) : Int × ArpService :=
  let (vlanId, switchState) := getVlanFromPacket s.switchState packet rawPkt
  (vlanId, { s with switchState })

/-- The query of `send_arp_query`. -/
def query (s : ArpService) (dest : IpAddress) : ArpPacket where
  srcMac := s.switchMac
  senderMac := s.switchMac
  destMac := MacAddress.broadcast
  receiverMac := MacAddress.nil
  arpRequest := true
  srcIp := s.switchState.switchIpAddress
  destIp := dest

/-- `arp::send_arp_query`. -/
def sendArpQuery (junk : Nat → UInt8) (s : ArpService) (dest : IpAddress) (vlanId : UInt16) :
    Read ArpService :=
  if !s.initialized then .ok s
  else if dest.isBroadcast then .ok s
  else if dest.isNil then .ok s
  else if dest = s.switchState.switchIpAddress then .ok s
  else do
    let serializedQuery ← (s.query dest).serialize
    let controller ← floodPacketOnVlan junk s.controller s.switchState serializedQuery vlanId
    return { s with controller, requestsMade := s.requestsMade + 1 }

/-- The response of `filter_packet` to a request for the controller. It is always tagged. -/
def response (s : ArpService) (arpPkt : ArpPacket) (vlanId : UInt16) : ArpPacket where
  hasVlanTag := true
  vlanId := vlanId
  srcMac := s.switchMac
  destMac := arpPkt.srcMac
  senderMac := s.switchMac
  receiverMac := arpPkt.srcMac
  arpRequest := false
  srcIp := s.switchState.switchIpAddress
  destIp := arpPkt.srcIp

/-- A packet that is not of ARP: its destination is asked for, unless it is known. -/
def filterOther (junk : Nat → UInt8) (now : Nat) (s : ArpService) (packet : PacketIn)
    (rawPkt : RawPacket) : Option (Bool × ArpService) := do
  let destIp ← (IpPacket.destIpOf rawPkt.packetType packet.pktData).toOption
  if destIp.isNil then return (false, s)
  let (vlanId, s) := s.vlanFromPacket packet rawPkt
  if vlanId = -1 then return (false, s)
  let (mac, s) := s.lookupMacFor now destIp (UInt16.ofInt vlanId)
  if !mac.isNil then return (false, s)
  let s ← (s.sendArpQuery junk destIp (UInt16.ofInt vlanId)).toOption
  return (false, s)

/-- An ARP packet that is not for the controller: the sender is learned, and the packet passed on. -/
def snoop (s : ArpService) (fuel now : Nat) (packet : PacketIn) (rawPkt : RawPacket)
    (arpPkt : ArpPacket) : Option (Bool × ArpService) := do
  let (vlanId, s) := s.vlanFromPacket packet rawPkt
  if vlanId = -1 ∨ vlanId = 0 then return (false, s)
  let s ← s.insert fuel now arpPkt.srcMac arpPkt.srcIp (UInt16.ofInt vlanId)
  return (true, { s with
    accelerated := s.accelerated ++ [(arpPkt.srcMac, UInt16.ofInt vlanId, packet.inPort)]
    forwarded := s.forwarded ++ [(packet, rawPkt)] })

/-- A reply to the controller. -/
def handleReply (s : ArpService) (fuel now : Nat) (packet : PacketIn) (rawPkt : RawPacket)
    (arpPkt : ArpPacket) : Option (Bool × ArpService) := do
  let (vlanId, s) := s.vlanFromPacket packet rawPkt
  if vlanId = -1 then return (false, s)
  let s ← s.insert fuel now arpPkt.srcMac arpPkt.srcIp (UInt16.ofInt vlanId)
  return (true, { s with
    completed := s.completed ++ [(arpPkt.srcIp, arpPkt.srcMac)]
    accelerated := s.accelerated ++ [(arpPkt.srcMac, UInt16.ofInt vlanId, packet.inPort)] })

/-- A request for the controller. -/
def handleRequest (s : ArpService) (fuel now : Nat) (packet : PacketIn) (rawPkt : RawPacket)
    (arpPkt : ArpPacket) : Option (Bool × ArpService) := do
  let (vlanId, s) := s.vlanFromPacket packet rawPkt
  if vlanId = -1 then return (true, s)
  let s ← s.insert fuel now arpPkt.srcMac arpPkt.srcIp (UInt16.ofInt vlanId)
  let serializedResponse ← (s.response arpPkt (UInt16.ofInt vlanId)).serialize.toOption
  let controller := (s.controller.sendPacket serializedResponse (ExtTreeSet.ofList [packet.inPort])).1
  return (true, { s with
    controller
    requestsServiced := s.requestsServiced + 1
    accelerated := s.accelerated ++ [(arpPkt.srcMac, UInt16.ofInt vlanId, packet.inPort)] })

/-- An ARP packet from the controller itself. -/
def isLooped (s : ArpService) (arpPkt : ArpPacket) : Bool :=
  (!s.switchState.switchIpAddress.isNil && arpPkt.srcIp == s.switchState.switchIpAddress)
    || (!s.switchMac.isNil && arpPkt.srcMac == s.switchMac)

/--
`arp::filter_packet`, and whether the packet is done with. It has no result where the
controller reads beyond the packet or the search for a free slot does not end.
-/
def filterPacket (junk : Nat → UInt8) (fuel now : Nat) (s : ArpService) (packet : PacketIn)
    (rawPkt : RawPacket) : Option (Bool × ArpService) :=
  if !s.initialized then some (false, s)
  else if rawPkt.packetType ≠ .arp then s.filterOther junk now packet rawPkt
  else do
    let some arpPkt ← (ArpPacket.deserialize packet.pktData).toOption | return (false, s)
    if arpPkt.destIp.isNil then return (false, s)
    else if s.isLooped arpPkt then return (true, s)
    else if arpPkt.destIp ≠ s.switchState.switchIpAddress then s.snoop fuel now packet rawPkt arpPkt
    else if !arpPkt.arpRequest then s.handleReply fuel now packet rawPkt arpPkt
    else s.handleRequest fuel now packet rawPkt arpPkt

end ArpService

/-- What makes the service send. -/
inductive ArpServiceInput where
  | query (dest : IpAddress) (vlanId : UInt16)
  | packet (fuel now : Nat) (packet : PacketIn) (rawPkt : RawPacket)

/-- The service afterwards, if it comes back. -/
def ArpService.step (junk : Nat → UInt8) (s : ArpService) : ArpServiceInput → Option ArpService
  | .query dest vlanId => (s.sendArpQuery junk dest vlanId).toOption
  | .packet fuel now packet rawPkt => (s.filterPacket junk fuel now packet rawPkt).map Prod.snd

end IronStack
