import IronStack.Net.RawPacket

/-!
# `ip_packet` and what is in it

As far as the address goes that a packet is for. The checks of the packets inside
come after it has been read, and a packet that fails them is not looked at.
-/

namespace IronStack

open Lib

/-- `ip_packet`: the address it is for, and the payload in the memory behind its header. -/
structure IpPacket where
  destIp : IpAddress
  ipPayload : Autobuf

namespace IpPacket

/-- `ip_packet::deserialize` of a new packet. The payload may be longer than there are bytes. -/
def deserialize (input : Bytes) : Read (Option IpPacket) := do
  let (status, raw) ← ({} : RawPacket).deserialize input
  if !status then return none
  let hdr := raw.ethHdrLen
  let versionIhl ← readU8 input hdr
  if versionIhl >>> 4 ≠ 4 then return none
  if versionIhl &&& 0x0f ≠ 5 then return none
  let totalLen ← readU16 input (hdr + 2)
  if totalLen.toNat > subU32 input.length hdr then return none
  let flags ← readU8 input (hdr + 6)
  if flags >>> 7 ≠ 0 then return none
  let destIp ← readVec 4 input (hdr + 16)
  return some ⟨⟨destIp⟩, ⟨input.drop (hdr + 20), subU32 totalLen.toNat 20⟩⟩

/-- `tcp_packet::deserialize`, of which the header has to be there. -/
def deserializeTcp (input : Bytes) : Read (Option IpPacket) := do
  let some ip ← deserialize input | return none
  if ip.ipPayload.size < 20 then return none
  let _ ← slice ip.ipPayload.memory 0 20
  return some ip

/-- `udp_packet::deserialize`, with a length that has to be that of the payload. -/
def deserializeUdp (input : Bytes) : Read (Option IpPacket) := do
  let some ip ← deserialize input | return none
  if ip.ipPayload.size < 8 then return none
  let _ ← slice ip.ipPayload.memory 0 8
  let udpHdrLen ← readU16 ip.ipPayload.memory 4
  if udpHdrLen.toNat ≠ ip.ipPayload.size then return none
  return some ip

/-- `icmp_packet::deserialize`. -/
def deserializeIcmp (input : Bytes) : Read (Option IpPacket) := do
  let some ip ← deserialize input | return none
  if ip.ipPayload.size < 8 then return none
  let _ ← slice ip.ipPayload.memory 0 8
  return some ip

/-- The address that a packet of some type is for, or nil. -/
def destIpOf (packetType : PacketType) (input : Bytes) : Read IpAddress :=
  match packetType with
  | .icmp => (deserializeIcmp input).map fun ip => (ip.map destIp).getD IpAddress.nil
  | .tcp => (deserializeTcp input).map fun ip => (ip.map destIp).getD IpAddress.nil
  | .udp => (deserializeUdp input).map fun ip => (ip.map destIp).getD IpAddress.nil
  | _ => .ok IpAddress.nil

end IpPacket

end IronStack
