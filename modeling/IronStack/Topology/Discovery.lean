import IronStack.Topology.Live

/-!
# `discovery_service`

Updates of the topology travel in UDP packets that no host is addressed by. A switch
sends its own to its neighbours, and passes on those of others that it sees for the
first time. A cleanup forgets the switches of which the last update is old.
-/

namespace IronStack

open Std Lib

/-- `udp_packet`, as far as the service reads and sets it. -/
structure UdpPacket where
  inPort : UInt16 := 0
  srcMac : MacAddress := MacAddress.nil
  destMac : MacAddress := MacAddress.nil
  srcIp : IpAddress := IpAddress.nil
  destIp : IpAddress := IpAddress.nil
  srcPort : UInt16 := 0
  destPort : UInt16 := 0
  udpPayload : Autobuf

/-- `discovery_packet`. -/
structure DiscoveryPacket where
  srcMac : MacAddress := MacAddress.nil
  srcIp : IpAddress := IpAddress.nil
  timestamp : UInt32 := 0
  seqNum : UInt8 := 0
  name : String := ""
  data : Bytes := []

namespace DiscoveryPacket

/-- `sizeof(discovery_packet_hdr)` -/
def hdrSize : Nat := 55

/-- `discovery_packet::serialize`. -/
def serialize (p : DiscoveryPacket) : Bytes :=
  p.srcMac.addr.toList ++ p.srcIp.octets.toList ++ be32 p.timestamp ++ [p.seqNum] ++ nameField p.name ++
    p.data

/-- `discovery_packet::deserialize`. -/
def deserialize (input : Autobuf) : Read (Option DiscoveryPacket) :=
  if input.size < hdrSize then .ok none
  else do
    let srcMac ← readVec 6 input.memory 0
    let srcIp ← readVec 4 input.memory 6
    let timestamp ← readU32 input.memory 10
    let seqNum ← readU8 input.memory 14
    let name ← readCString input.memory 15
    let data ← slice input.memory hdrSize (input.size - hdrSize)
    return some { srcMac := ⟨srcMac⟩, srcIp := ⟨srcIp⟩, timestamp, seqNum, name, data }

end DiscoveryPacket

/-- `discovery_service`, with what it asks the switch state for and what it has sent. -/
structure DiscoveryService where
  switchMac : MacAddress
  switchIp : IpAddress
  switchPorts : List OpenflowPort
  topology : LiveTopology
  lastTimestamp : UInt32 := 0
  nextSeqNum : UInt8 := 0
  broadcastsSeen : ExtTreeMap MacAddress (UInt32 × UInt8) := ∅
  /-- The packets given to `send_packet`, with the port. -/
  sent : List (UInt16 × UdpPacket) := []

/-- What the clock shows each time that a packet in hand makes the service look at it. -/
structure ClockReadings where
  heard : Nat
  refreshed : Nat
  updated : Nat
  stamped : Nat

namespace DiscoveryService

def neighborUpdatePort : UInt16 := 100

def topologyUpdatePort : UInt16 := 102

/-- `STALE_BROADCASTS_SEEN_INTERVAL`, in milliseconds. -/
def staleBroadcastsSeenInterval : Nat := 10000

/-- Whether a broadcast is so old that `clean_broadcasts_seen` forgets it. -/
def isForgotten (time timestamp : UInt32) : Bool :=
  time > timestamp && (time - timestamp).toNat > staleBroadcastsSeenInterval

/-- A packet is sent to ports that are not reserved. -/
def sendTo (s : DiscoveryService) (pkt : UdpPacket) (ports : List OpenflowPort) : DiscoveryService :=
  { s with sent := s.sent ++ (ports.filter (·.portNumber ≤ 0xff00)).map fun p => (p.portNumber, pkt) }

/-- `broadcast_data`. -/
def broadcastData (s : DiscoveryService) (now : Nat) (data : Bytes) : DiscoveryService :=
  let time := msSinceEpoch now
  let s := if time ≠ s.lastTimestamp then { s with nextSeqNum := 0, lastTimestamp := time } else s
  let discPkt : DiscoveryPacket :=
    { srcMac := s.switchMac, srcIp := s.switchIp, timestamp := time, seqNum := s.nextSeqNum, data := data }
  let udpPkt : UdpPacket :=
    { srcPort := neighborUpdatePort, destPort := neighborUpdatePort,
      udpPayload := .ofBytes discPkt.serialize }
  { s with nextSeqNum := s.nextSeqNum + 1 }.sendTo udpPkt s.switchPorts

/-- `fwd_broadcast_same_udp_port`. -/
def fwdBroadcastSameUdpPort (s : DiscoveryService) (pkt : UdpPacket) : DiscoveryService :=
  s.sendTo pkt (s.switchPorts.filter (·.portNumber ≠ pkt.inPort))

/-- `fwd_broadcast_change_udp_port`. -/
def fwdBroadcastChangeUdpPort (s : DiscoveryService) (pkt : UdpPacket) (port : UInt16) : DiscoveryService :=
  s.fwdBroadcastSameUdpPort
    { srcPort := port, destPort := port, inPort := pkt.inPort, udpPayload := pkt.udpPayload }

/-- `broadcasts_seen[disc_pkt.src_mac] = …` -/
def remember (s : DiscoveryService) (discPkt : DiscoveryPacket) : DiscoveryService :=
  { s with broadcastsSeen := s.broadcastsSeen.insert discPkt.srcMac (discPkt.timestamp, discPkt.seqNum) }

/-- `first_time_seen`. -/
def firstTimeSeen (s : DiscoveryService) (discPkt : DiscoveryPacket) : DiscoveryService × Bool :=
  if discPkt.srcMac = s.switchMac then (s, false)
  else
    match s.broadcastsSeen[discPkt.srcMac]? with
    | some (timestamp, seqNum) =>
        if discPkt.timestamp > timestamp then (s.remember discPkt, true)
        else if discPkt.timestamp = timestamp ∧ discPkt.seqNum > seqNum then (s.remember discPkt, true)
        else (s, false)
    | none => (s.remember discPkt, true)

/-- `clean_broadcasts_seen`. -/
def cleanBroadcastsSeen (s : DiscoveryService) (now : Nat) : DiscoveryService :=
  { s with broadcastsSeen := s.broadcastsSeen.filter fun _ seen => !isForgotten (msSinceEpoch now) seen.1 }

/-- An update that the topology sends, if it does. -/
def withTopology (s : DiscoveryService) (topology : LiveTopology) (now : Nat) (data : Option Bytes) :
    DiscoveryService :=
  let s := { s with topology := topology }
  match data with
  | none => s
  | some data => s.broadcastData now data

/-- Whether a packet is one of the service. -/
def isDiscovery (pkt : UdpPacket) : Bool :=
  pkt.destMac.isNil && pkt.destIp.isNil &&
    (pkt.destPort == neighborUpdatePort || pkt.destPort == topologyUpdatePort)

/--
`udp_callback`, and whether the packet was one for the service. The data is copied
into a buffer whose memory goes on behind it.
-/
def udpCallback (s : DiscoveryService) (t : ClockReadings) (behind : Bytes) (pkt : UdpPacket) :
    Read (DiscoveryService × Bool) :=
  if !isDiscovery pkt then .ok (s, false)
  else do
    match ← DiscoveryPacket.deserialize pkt.udpPayload with
    | none => return (s, false)
    | some discPkt =>
        let data : Autobuf := ⟨discPkt.data ++ behind, discPkt.data.length⟩
        let (s, isNew) := s.firstTimeSeen discPkt
        if pkt.destPort = neighborUpdatePort then
          let s := if isNew then s.fwdBroadcastChangeUdpPort pkt topologyUpdatePort else s
          let (topology, update) ←
            s.topology.updateNeighbor t.heard t.refreshed t.updated pkt.inPort discPkt.srcMac data
          return (s.withTopology topology t.stamped update, true)
        else if isNew then
          let s := s.fwdBroadcastSameUdpPort pkt
          let topology ← s.topology.updateTopology t.refreshed discPkt.srcMac data
          return ({ s with topology := topology }, true)
        else return (s, true)

/-- `discovery_port_handler`. -/
def discoveryPortHandler (s : DiscoveryService) (updated stamped : Nat) (phyPort : UInt16) :
    DiscoveryService :=
  if phyPort > 0xff00 then s
  else
    match s.switchPorts.find? (·.portNumber = phyPort) with
    | none => s
    | some modifiedPort =>
        let (topology, update) := s.topology.updateLocalPort updated modifiedPort
        s.withTopology topology stamped update

end DiscoveryService

/-- What happens to the service. -/
inductive DiscoveryInput where
  | receive (t : ClockReadings) (behind : Bytes) (pkt : UdpPacket)
  | clean (now : Nat)
  /-- The ports of the switch are others now, one of which is reported. -/
  | portModified (switchPorts : List OpenflowPort) (updated stamped : Nat) (phyPort : UInt16)
  | heartbeat (now updated stamped : Nat)
  | sweep (now : Nat)

def DiscoveryService.step (s : DiscoveryService) : DiscoveryInput → Option DiscoveryService
  | .receive t behind pkt =>
      match s.udpCallback t behind pkt with
      | .error _ => none
      | .ok (s, _) => some s
  | .clean now => some (s.cleanBroadcastsSeen now)
  | .portModified switchPorts updated stamped phyPort =>
      some ({ s with switchPorts := switchPorts }.discoveryPortHandler updated stamped phyPort)
  | .heartbeat now updated stamped =>
      let (topology, update) := s.topology.heartbeat now updated
      some (s.withTopology topology stamped (some update))
  | .sweep now => some { s with topology := s.topology.sweep now }

end IronStack
