import IronStack.Net.RawPacket

/-!
# `arp_packet`

An ARP packet for IPv4 over Ethernet: 28 bytes behind the Ethernet header.
-/

namespace IronStack

open Lib

/-- `arp_packet`; the defaults are those of its `clear`. -/
structure ArpPacket extends RawPacket where
  packetType := .arp
  senderMac : MacAddress := MacAddress.nil
  receiverMac : MacAddress := MacAddress.nil
  arpRequest : Bool := true
  srcIp : IpAddress := IpAddress.nil
  destIp : IpAddress := IpAddress.nil

namespace ArpPacket

/-- `sizeof(arp_hdr_t)` -/
def hdrSize : Nat := 28

/-- The `arp_hdr_t` that `arp_packet::serialize` fills in. -/
def serializeHdr (p : ArpPacket) : Bytes :=
  be16 1 ++ be16 0x0800 ++ [6, 4] ++ be16 (if p.arpRequest then 1 else 2) ++ p.senderMac.addr.toList ++
    p.srcIp.octets.toList ++ p.receiverMac.addr.toList ++ p.destIp.octets.toList

theorem length_serializeHdr (p : ArpPacket) : p.serializeHdr.length = hdrSize := by
  simp [serializeHdr, hdrSize]

/-- `arp_packet::serialize`. -/
def serialize (p : ArpPacket) : Read Bytes := do
  let header ← p.toRawPacket.serialize
  return header ++ p.serializeHdr

/-- `arp_packet::deserialize` of a new packet. -/
def deserialize (pktData : Bytes) : Read (Option ArpPacket) := do
  let (status, raw) ← ({} : ArpPacket).toRawPacket.deserialize pktData
  if !status then return none
  let hdr := raw.ethHdrLen
  if pktData.length < hdr + hdrSize then return none
  let hardwareType ← readU16 pktData hdr
  let protocolType ← readU16 pktData (hdr + 2)
  let hardwareAddressLen ← readU8 pktData (hdr + 4)
  let protocolAddressLen ← readU8 pktData (hdr + 5)
  let opType ← readU16 pktData (hdr + 6)
  if hardwareType ≠ 1 || protocolType ≠ 0x0800 || hardwareAddressLen ≠ 6 || protocolAddressLen ≠ 4
      || opType < 1 || opType > 2 then
    return none
  let senderMac ← readVec 6 pktData (hdr + 8)
  let srcIp ← readVec 4 pktData (hdr + 14)
  let receiverMac ← readVec 6 pktData (hdr + 18)
  let destIp ← readVec 4 pktData (hdr + 24)
  return some { raw with
    senderMac := ⟨senderMac⟩
    receiverMac := ⟨receiverMac⟩
    arpRequest := opType == 1
    srcIp := ⟨srcIp⟩
    destIp := ⟨destIp⟩ }

end ArpPacket

end IronStack
