import IronStack.Common
import IronStack.Autobuf

/-!
# `raw_packet`

The Ethernet header of a packet, and the type of packet behind it. The parser
works on an object that may have held another packet.
-/

namespace IronStack

open Lib

/-- `raw_packet::packet_t`. -/
inductive PacketType where
  | arp
  | icmp
  | tcp
  | udp
  | dhcp
  | unknown
  | ipv6
  | drop
deriving DecidableEq, Repr

/-- `raw_packet`; the defaults are those of its constructor. -/
structure RawPacket where
  inPort : UInt16 := 0xffff
  packetType : PacketType := .unknown
  ethertype : UInt16 := 0
  hasVlanTag : Bool := false
  vlanPcp : UInt8 := 0
  dei : Bool := false
  vlanId : UInt16 := 1
  srcMac : MacAddress := MacAddress.nil
  destMac : MacAddress := MacAddress.nil
deriving DecidableEq, Repr

namespace RawPacket

/-- `sizeof(untagged_ethernet_hdr_t)` -/
def untaggedHdrSize : Nat := 14

/-- `sizeof(tagged_ethernet_hdr_t)` -/
def taggedHdrSize : Nat := 18

/-- `raw_packet::get_vlan_id`. -/
def getVlanId (raw : RawPacket) : UInt16 := if raw.hasVlanTag then raw.vlanId else 1

/-- The type of an IPv4 packet, by the protocol in its header. -/
def ipPacketType (protocol : UInt8) : PacketType :=
  if protocol = 0x01 then .icmp
  else if protocol = 0x06 then .tcp
  else if protocol = 0x11 then .udp
  else .unknown

/-- The type of packet behind a header of a given size. -/
def packetTypeOf (ethertype : UInt16) (pktData : Bytes) (actualHdrLen : Nat) : Read PacketType :=
  if ethertype = 0x0806 then .ok .arp
  else if ethertype = 0x0800 then
    if pktData.length < actualHdrLen + 20 then .ok .unknown
    else (readU8 pktData (actualHdrLen + 9)).map ipPacketType
  else if ethertype = 0x86dd then .ok .ipv6
  else .ok .unknown

/-- The end of `raw_packet::deserialize`. -/
def setPacketType (raw : RawPacket) (pktData : Bytes) (actualHdrLen : Nat) : Read (Bool × RawPacket) := do
  let packetType ← packetTypeOf raw.ethertype pktData actualHdrLen
  return (packetType != .unknown, { raw with packetType })

/-- The fields that are packed with a VLAN id: its priority, then the drop eligibility. -/
def setVlanTag (raw : RawPacket) (pcpDeiId ethertype : UInt16) : RawPacket :=
  { raw with
    hasVlanTag := true
    vlanPcp := (pcpDeiId >>> 13).toUInt8
    dei := (pcpDeiId >>> 12) &&& 1 > 0
    vlanId := pcpDeiId &&& 0x0fff
    ethertype }

def clearVlanTag (raw : RawPacket) : RawPacket :=
  { raw with hasVlanTag := false, vlanPcp := 0, dei := false, vlanId := 1 }

/-- `raw_packet::deserialize`. What it does not come to stays as it was. -/
def deserialize (raw : RawPacket) (pktData : Bytes) : Read (Bool × RawPacket) :=
  if pktData.length < untaggedHdrSize then .ok (false, raw)
  else do
    let destMac ← readVec 6 pktData 0
    let srcMac ← readVec 6 pktData 6
    let ethertype ← readU16 pktData 12
    let raw := { raw with destMac := ⟨destMac⟩, srcMac := ⟨srcMac⟩, ethertype }
    if ethertype = 0x8100 then
      if pktData.length < taggedHdrSize then return (false, raw)
      else
        let pcpDeiId ← readU16 pktData 14
        let ethertype ← readU16 pktData 16
        (raw.setVlanTag pcpDeiId ethertype).setPacketType pktData taggedHdrSize
    else raw.clearVlanTag.setPacketType pktData untaggedHdrSize

/-- The type that `raw_packet::serialize` packs. It asserts that there is one. -/
def ethertypeToPack (raw : RawPacket) : Read UInt16 :=
  if raw.ethertype ≠ 0 then .ok raw.ethertype
  else
    match raw.packetType with
    | .arp => .ok 0x0806
    | .tcp | .udp | .dhcp | .icmp => .ok 0x0800
    | .ipv6 => .ok 0x86dd
    | .unknown | .drop => .error .aborted

/-- The word of the tag: priority, drop eligibility and VLAN. -/
def pcpDeiId (raw : RawPacket) : UInt16 :=
  ((raw.vlanPcp &&& 0x07).toUInt16 <<< 13) ||| (if raw.dei then 0x1000 else 0) ||| (raw.vlanId &&& 0x0fff)

/-- `raw_packet::serialize`. -/
def serialize (raw : RawPacket) : Read Bytes := do
  let ethertype ← raw.ethertypeToPack
  let addresses := raw.destMac.addr.toList ++ raw.srcMac.addr.toList
  if raw.hasVlanTag then return addresses ++ (be16 0x8100 ++ (be16 raw.pcpDeiId ++ be16 ethertype))
  else return addresses ++ be16 ethertype

/-- The size of the header that a packet was parsed from. -/
def ethHdrLen (raw : RawPacket) : Nat := if raw.hasVlanTag then taggedHdrSize else untaggedHdrSize

end RawPacket

end IronStack
