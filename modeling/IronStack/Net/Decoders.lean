import IronStack.Arp.ArpPacket
import IronStack.Net.PacketCodec

/-!
# The decoders

All that can be asked about a frame, with what it returns. A decoder that turns a
frame down writes a text about it to the log, with a dump of the frame; of these
texts, one asks for a conversion that C does not have.
-/

namespace IronStack

open Lib

namespace Codec

/-- The length that a UDP header has for its packet, and the one that the IP header has for it. -/
def UdpPacket.lengths (input : Bytes) : Read (Option (Nat × Nat)) := do
  let some ip ← IpPacket.deserialize input | return none
  if ip.ipPayload.size < hdrSize then return none
  let udpHdrLen ← readU16 ip.ipPayload.memory 4
  return some (udpHdrLen.toNat, ip.ipPayload.size)

/--
The text about lengths that differ has `% b` in it, by a slip. What `vsnprintf` does then is up
to the library: it prints a number, or goes on to take the number for the address of a string.
-/
def UdpPacket.log (vsnprintf : Read Unit) (input : Bytes) : Read Unit := do
  let some (expected, actual) ← UdpPacket.lengths input | return ()
  if expected ≠ actual then vsnprintf

end Codec

inductive Decoder where
  | raw
  | arp
  | ip
  | tcp
  | udp
  | icmp
deriving DecidableEq, Repr

/-- What a decoder returns. -/
def Decoder.decode (vsnprintf : Read Unit) (input : Bytes) : Decoder → Read Bool
  | .raw => (({} : RawPacket).deserialize input).map Prod.fst
  | .arp => (ArpPacket.deserialize input).map Option.isSome
  | .ip => (Codec.IpPacket.deserialize input).map Option.isSome
  | .tcp => (Codec.TcpPacket.deserialize input).map Option.isSome
  | .udp => do
      let packet ← Codec.UdpPacket.deserialize input
      Codec.UdpPacket.log vsnprintf input
      return packet.isSome
  | .icmp => (Codec.IcmpPacket.deserialize input).map Option.isSome

end IronStack
