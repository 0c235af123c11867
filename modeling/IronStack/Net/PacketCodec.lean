import IronStack.Net.IpPacket

/-!
# The codecs of `ip_packet`, `tcp_packet`, `udp_packet` and `icmp_packet`

With every field of the headers, as it is packed and as it is parsed. A packet is
parsed into a new object; what the parser leaves alone has the value of the
constructor. Its buffers refer to the memory of the frame, and may be longer.
-/

namespace IronStack

open Lib

namespace Autobuf

/-- A buffer with nothing in it. -/
def empty : Autobuf := ⟨[], 0⟩

/-- The bytes of a buffer, which have to be there. -/
def content (buf : Autobuf) : Read Bytes := slice buf.memory 0 buf.size

end Autobuf

namespace Codec

/-! ## Checksums -/

/-- The sum of 16-bit words, most significant byte first. A last odd byte is not in it. -/
def sumWords : Bytes → UInt32
  | x :: y :: rest => (x.toUInt32 <<< 8 ||| y.toUInt32) + sumWords rest
  | _ => 0

/-- The sum of 16-bit words as the machine has them, least significant byte first. -/
def sumNativeWords : Bytes → UInt32
  | x :: y :: rest => (y.toUInt32 <<< 8 ||| x.toUInt32) + sumNativeWords rest
  | _ => 0

/-- The end of each checksum: the carries are added, twice, and the sum is complemented. -/
def onesComplement (sum : UInt32) : UInt16 :=
  let once := (sum &&& (0xffff : UInt32)) + (sum >>> 16)
  let twice := (once &&& (0xffff : UInt32)) + (once >>> 16)
  ~~~ twice.toUInt16

/-! ## `ip_packet` -/

/-- `ip_packet`, with all its fields; the defaults are those of its constructor. -/
structure IpPacket extends RawPacket where
  version : UInt8 := 4
  ihl : UInt8 := 5
  dscp : UInt8 := 0
  ecn : UInt8 := 0
  identification : UInt16 := 54635
  dontFragment : Bool := true
  moreFragments : Bool := false
  fragmentOffset : UInt16 := 0
  ttl : UInt8 := 64
  protocol : UInt8 := 0
  ipHdrChecksum : UInt16 := 0
  srcIp : IpAddress := IpAddress.nil
  destIp : IpAddress := IpAddress.nil
  ipOptions : Autobuf := Autobuf.empty
  ipPayload : Autobuf := Autobuf.empty

namespace IpPacket

/-- `sizeof(ip_hdr_t)` -/
def hdrSize : Nat := 20

/-- `ip_packet::checksum_ip`, of a header without a checksum. -/
def checksumIp (ipHdr : Bytes) : UInt16 := onesComplement (sumWords ipHdr)

/-- The first byte of the fragment offset, and the flags in it. -/
def flagsFragOffset (p : IpPacket) : UInt8 :=
  ((p.fragmentOffset >>> 8) &&& 0x1f).toUInt8 ||| (if p.dontFragment then 0x40 else 0) |||
    (if p.moreFragments then 0x20 else 0)

/-- The `ip_hdr_t` that is filled in for a payload of some length, with a checksum. -/
def serializeHdr (p : IpPacket) (payloadLen : Nat) (checksum : UInt16) : Bytes :=
  [(p.version <<< 4) ||| (p.ihl &&& 0x0f), (p.dscp <<< 6) ||| (p.ecn &&& 0x03)] ++
    be16 (UInt16.ofNat (hdrSize + p.ipOptions.size + payloadLen)) ++ be16 p.identification ++
    [p.flagsFragOffset, p.fragmentOffset.toUInt8, p.ttl, p.protocol] ++ be16 checksum ++
    p.srcIp.octets.toList ++ p.destIp.octets.toList

/-- What is packed in front of a payload of some length. -/
def serializeFront (p : IpPacket) (payloadLen : Nat) : Read Bytes := do
  let ethernetHdr ← p.toRawPacket.serialize
  let ipOptions ← p.ipOptions.content
  let checksum := checksumIp (p.serializeHdr payloadLen 0)
  return ethernetHdr ++ p.serializeHdr payloadLen checksum ++ ipOptions

/-- `ip_packet::serialize`. -/
def serialize (p : IpPacket) : Read Bytes := do
  let front ← p.serializeFront p.ipPayload.size
  let ipPayload ← p.ipPayload.content
  return front ++ ipPayload

/--
`ip_packet::serialize_special`, which takes 16 bits of the length of the payload and
makes room for as much. The caller puts the payload at the end of the frame.
-/
def serializeSpecial (p : IpPacket) (payload : Bytes) : Read Bytes := do
  let front ← p.serializeFront (payload.length % 2 ^ 16)
  let fullSize := front.length + payload.length % 2 ^ 16
  ptrOffsetMutable fullSize (subU32 fullSize payload.length)
  if payload.length < 2 ^ 16 then return front ++ payload else .error .outOfBounds

/-- `ip_packet::deserialize` of a new packet. -/
def deserialize (input : Bytes) : Read (Option IpPacket) := do
  let (status, raw) ← ({} : RawPacket).deserialize input
  if !status then return none
  let hdr := raw.ethHdrLen
  let versionIhl ← readU8 input hdr
  if versionIhl >>> 4 ≠ 4 then return none
  if versionIhl &&& 0x0f ≠ 5 then return none
  let dscpEcn ← readU8 input (hdr + 1)
  let totalLen ← readU16 input (hdr + 2)
  if totalLen.toNat > subU32 input.length hdr then return none
  -- it goes to a local variable that has the name of the field
  let _identification ← readU16 input (hdr + 4)
  let flagsFragOffset ← readU8 input (hdr + 6)
  if flagsFragOffset >>> 7 ≠ 0 then return none
  let fragOffset ← readU8 input (hdr + 7)
  let ttl ← readU8 input (hdr + 8)
  let protocol ← readU8 input (hdr + 9)
  let ipHdrChecksum ← readU16 input (hdr + 10)
  let srcIp ← readVec 4 input (hdr + 12)
  let destIp ← readVec 4 input (hdr + 16)
  return some { raw with
    version := versionIhl >>> 4
    ihl := versionIhl &&& 0x0f
    dscp := dscpEcn >>> 2
    ecn := dscpEcn &&& 0x03
    dontFragment := (flagsFragOffset >>> 6) &&& 1 != 0
    moreFragments := (flagsFragOffset >>> 5) &&& 1 != 0
    fragmentOffset := (fragOffset.toUInt16 <<< 8) + (flagsFragOffset &&& 0x1f).toUInt16
    ttl
    protocol
    ipHdrChecksum
    srcIp := ⟨srcIp⟩
    destIp := ⟨destIp⟩
    ipPayload := ⟨input.drop (hdr + hdrSize), subU32 totalLen.toNat hdrSize⟩ }

end IpPacket

/-! ## `tcp_packet` -/

/-- `tcp_packet`; the defaults are those of its `clear`. -/
structure TcpPacket extends IpPacket where
  packetType := .tcp
  protocol := 6
  srcPort : UInt16 := 0
  destPort : UInt16 := 0
  seq : UInt32 := 0
  ack : UInt32 := 0
  nsFlag : Bool := false
  cwrFlag : Bool := false
  eceFlag : Bool := false
  urgFlag : Bool := false
  ackFlag : Bool := false
  pshFlag : Bool := false
  rstFlag : Bool := false
  synFlag : Bool := false
  finFlag : Bool := false
  windowSize : UInt16 := 14600
  tcpChecksum : UInt16 := 0
  urgentPtr : UInt16 := 0
  options : Autobuf := Autobuf.empty
  payload : Autobuf := Autobuf.empty

namespace TcpPacket

/-- `sizeof(tcp_hdr_t)` -/
def hdrSize : Nat := 20

/-- `sizeof(tcp_hdr)`, where `tcp_hdr` is a pointer. -/
def sizeofPtr : Nat := 8

def dataOffsetReserved (p : TcpPacket) : UInt8 :=
  (UInt8.ofNat (5 + p.options.size / 4) <<< 4) ||| (if p.nsFlag then 1 else 0)

/-- The flags but URG, which is ignored. -/
def flags (p : TcpPacket) : UInt8 :=
  (if p.cwrFlag then 0x80 else 0) ||| (if p.eceFlag then 0x40 else 0) ||| (if p.ackFlag then 0x10 else 0) |||
    (if p.pshFlag then 0x08 else 0) ||| (if p.rstFlag then 0x04 else 0) |||
    (if p.synFlag then 0x02 else 0) ||| (if p.finFlag then 0x01 else 0)

/-- The `tcp_hdr_t` that is filled in, with a checksum. -/
def serializeHdr (p : TcpPacket) (checksum : UInt16) : Bytes :=
  be16 p.srcPort ++ be16 p.destPort ++ be32 p.seq ++ be32 p.ack ++ [p.dataOffsetReserved, p.flags] ++
    be16 p.windowSize ++ be16 checksum ++ be16 0

/-- `tcp_packet::checksum_tcp`. The last byte of an odd payload is added as it is. -/
def checksumTcp (srcIp destIp : IpAddress) (tcpHdr tcpPayload : Bytes) : UInt16 :=
  let checksumHdr := srcIp.octets.toList ++ destIp.octets.toList ++ [0, 6] ++
    be16 (UInt16.ofNat (hdrSize + tcpPayload.length)) ++ tcpHdr
  let last := if tcpPayload.length % 2 = 1 then (tcpPayload.getLastD 0).toUInt32 else 0
  onesComplement (sumWords checksumHdr + sumWords tcpPayload + last)

/-- `tcp_packet::serialize`. The checksum is put 36 bytes behind the Ethernet header. -/
def serialize (p : TcpPacket) : Read Bytes := do
  let options ← p.options.content
  let payload ← p.payload.content
  let frame ← p.toIpPacket.serializeSpecial (p.serializeHdr 0 ++ (options ++ payload))
  let checksum := checksumTcp p.srcIp p.destIp (p.serializeHdr 0) (options ++ payload)
  overwrite frame (p.ethHdrLen + 36) (be16 checksum)

/-- `tcp_packet::deserialize` of a new packet. -/
def deserialize (input : Bytes) : Read (Option TcpPacket) := do
  let some ip ← IpPacket.deserialize input | return none
  if ip.ipPayload.size < hdrSize then return none
  let tcpHdr := ip.ipPayload.memory
  let srcPort ← readU16 tcpHdr 0
  let destPort ← readU16 tcpHdr 2
  let seq ← readU32 tcpHdr 4
  let ack ← readU32 tcpHdr 8
  let dataOffsetReserved ← readU8 tcpHdr 12
  let flags ← readU8 tcpHdr 13
  let windowSize ← readU16 tcpHdr 14
  let tcpChecksum ← readU16 tcpHdr 16
  let urgentPtr ← readU16 tcpHdr 18
  let dataOffset := (dataOffsetReserved >>> 4).toNat
  -- the options are looked for at the size of a pointer, not of the header
  let options := if dataOffset > 5 then ⟨tcpHdr.drop sizeofPtr, (dataOffset - 5) * 4⟩ else Autobuf.empty
  let payload := if ip.ipPayload.size > dataOffset * 4 then
      ⟨tcpHdr.drop (dataOffset * 4), subU32 (subU32 ip.ipPayload.size options.size) hdrSize⟩
    else Autobuf.empty
  return some { ip with
    srcPort
    destPort
    seq
    ack
    nsFlag := dataOffsetReserved &&& 0x01 != 0
    cwrFlag := flags &&& 0x80 != 0
    eceFlag := flags &&& 0x40 != 0
    urgFlag := flags &&& 0x20 != 0
    ackFlag := flags &&& 0x10 != 0
    pshFlag := flags &&& 0x08 != 0
    rstFlag := flags &&& 0x04 != 0
    synFlag := flags &&& 0x02 != 0
    finFlag := flags &&& 0x01 != 0
    windowSize
    tcpChecksum
    urgentPtr
    options
    payload }

end TcpPacket

/-! ## `udp_packet` -/

/-- `udp_packet`; the defaults are those of its `clear`. -/
structure UdpPacket extends IpPacket where
  packetType := .udp
  protocol := 17
  srcPort : UInt16 := 0
  destPort : UInt16 := 0
  udpChecksum : UInt16 := 0
  udpPayload : Autobuf := Autobuf.empty

namespace UdpPacket

/-- `sizeof(udp_hdr_t)`, and `sizeof(udp_hdr)`, where `udp_hdr` is a pointer. -/
def hdrSize : Nat := 8

/-- The `udp_hdr_t` that is filled in. There is no checksum. -/
def serializeHdr (p : UdpPacket) : Bytes :=
  be16 p.srcPort ++ be16 p.destPort ++ be16 (UInt16.ofNat (hdrSize + p.udpPayload.size)) ++ be16 0

/-- `udp_packet::serialize`. -/
def serialize (p : UdpPacket) : Read Bytes := do
  let udpPayload ← p.udpPayload.content
  p.toIpPacket.serializeSpecial (p.serializeHdr ++ udpPayload)

/-- `udp_packet::deserialize` of a new packet. -/
def deserialize (input : Bytes) : Read (Option UdpPacket) := do
  let some ip ← IpPacket.deserialize input | return none
  if ip.ipPayload.size < hdrSize then return none
  let udpHdr := ip.ipPayload.memory
  let srcPort ← readU16 udpHdr 0
  let destPort ← readU16 udpHdr 2
  let udpChecksum ← readU16 udpHdr 6
  let udpHdrLen ← readU16 udpHdr 4
  if udpHdrLen.toNat ≠ ip.ipPayload.size then return none
  return some { ip with
    srcPort
    destPort
    udpChecksum
    udpPayload := if ip.ipPayload.size > hdrSize then ⟨udpHdr.drop hdrSize, ip.ipPayload.size - hdrSize⟩
      else Autobuf.empty }

end UdpPacket

/-! ## `icmp_packet` -/

/-- `icmp_packet`; the defaults are those of its `clear`. -/
structure IcmpPacket extends IpPacket where
  packetType := .icmp
  protocol := 1
  icmpPktType : UInt8 := 0
  code : UInt8 := 0
  checksum : UInt16 := 0
  icmpHdrRest : UInt32 := 0
  data : Autobuf := Autobuf.empty

namespace IcmpPacket

/-- `sizeof(icmp_hdr_t)`, and `sizeof(icmp_hdr)`, where `icmp_hdr` is a pointer. -/
def hdrSize : Nat := 8

/-- The `icmp_hdr_t` that is filled in, with a checksum. -/
def serializeHdr (p : IcmpPacket) (checksum : UInt16) : Bytes :=
  [p.icmpPktType, p.code] ++ be16 checksum ++ be32 p.icmpHdrRest

/-- `icmp_packet::checksum_icmp`, of a header without a checksum and the data behind it. -/
def checksumIcmp (icmpHdr : Bytes) : UInt16 :=
  let last := if icmpHdr.length % 2 = 1 then (icmpHdr.getLastD 0).toUInt32 <<< 8 else 0
  onesComplement (sumNativeWords icmpHdr + last)

/-- `icmp_packet::serialize`. The checksum is put in as the machine has it, low byte first. -/
def serialize (p : IcmpPacket) : Read Bytes := do
  let data ← p.data.content
  let frame ← p.toIpPacket.serializeSpecial (p.serializeHdr 0 ++ data)
  let checksum := checksumIcmp (p.serializeHdr 0 ++ data)
  overwrite frame (frame.length - p.data.size - 6) [checksum.toUInt8, (checksum >>> 8).toUInt8]

/-- `icmp_packet::deserialize` of a new packet. -/
def deserialize (input : Bytes) : Read (Option IcmpPacket) := do
  let some ip ← IpPacket.deserialize input | return none
  if ip.ipPayload.size < hdrSize then return none
  let icmpHdr := ip.ipPayload.memory
  let icmpPktType ← readU8 icmpHdr 0
  let code ← readU8 icmpHdr 1
  let checksum ← readU16 icmpHdr 2
  let icmpHdrRest ← readU32 icmpHdr 4
  return some { ip with
    icmpPktType
    code
    checksum
    icmpHdrRest
    data := if ip.ipPayload.size > hdrSize then ⟨icmpHdr.drop hdrSize, ip.ipPayload.size - hdrSize⟩
      else Autobuf.empty }

end IcmpPacket

end Codec

end IronStack
