import IronStack.Net.RawPacket

/-!
# `std_packet_utils`

A VLAN tag is put into the bytes of a frame, or taken out of them.
-/

namespace IronStack

open Lib RawPacket

namespace StdPacketUtils

/-- The word of a tag, from the four high bits of its first byte and the VLAN. -/
def tagBytes (high : UInt8) (vlan : UInt16) : Bytes :=
  [(high &&& (0xf0 : UInt8)) ||| ((vlan >>> 8) &&& 0x0f).toUInt8, (vlan &&& 0x00ff).toUInt8]

/-- `std_packet_utils::set_vlan_tag`. -/
def setVlanTag (junk : Nat → UInt8) (input : Bytes) (output : OwnedAutobuf) (vlan : UInt16) :
    Read (Bool × OwnedAutobuf) :=
  if input.length < untaggedHdrSize then .ok (false, output.clear)
  else do
    let type ← readU16 input 12
    if type = 0x8100 then
      let output ← OwnedAutobuf.fullCopyFrom junk input
      let high ← readU8 output.writeableBuf (output.beginOffset + 14)
      let memory ← overwrite output.writeableBuf (output.beginOffset + 14) (tagBytes high vlan)
      return (true, { output with writeableBuf := memory })
    else
      let size := (input.length + taggedHdrSize - untaggedHdrSize) % 2 ^ 32
      let output ← output.createEmptyBuffer junk size false
      let addresses ← slice input 0 12
      let memory ← overwrite output.writeableBuf output.beginOffset addresses
      let memory ← overwrite memory (output.beginOffset + 12) [0x81, 0x00]
      let memory ← overwrite memory (output.beginOffset + 14) (tagBytes 0 vlan)
      let ethertype ← slice input 12 2
      let memory ← overwrite memory (output.beginOffset + 16) ethertype
      ptrOffsetMutable output.contentSize taggedHdrSize
      let rest ← slice input untaggedHdrSize (input.length - untaggedHdrSize)
      let memory ← overwrite memory (output.beginOffset + taggedHdrSize) rest
      return (true, { output with writeableBuf := memory })

/--
`std_packet_utils::strip_vlan_tag`. What it looks at to see if the frame is tagged
is the type behind the tag. It takes both headers off the size.
-/
def stripVlanTag (junk : Nat → UInt8) (input : Bytes) (output : OwnedAutobuf) :
    Read (Bool × OwnedAutobuf) :=
  if input.length < untaggedHdrSize then .ok (false, output.clear)
  else do
    let ethertype ← readU16 input 16
    if ethertype ≠ 0x8100 then
      let output ← OwnedAutobuf.fullCopyFrom junk input
      return (true, output)
    else
      let size := subU32 (subU32 input.length taggedHdrSize) untaggedHdrSize
      let output ← output.createEmptyBuffer junk size false
      let addresses ← slice input 0 12
      let memory ← overwrite output.writeableBuf output.beginOffset addresses
      let ethertype ← slice input 16 2
      let memory ← overwrite memory (output.beginOffset + 12) ethertype
      ptrOffsetMutable output.contentSize untaggedHdrSize
      let rest ← slice input taggedHdrSize (input.length - taggedHdrSize)
      let memory ← overwrite memory (output.beginOffset + untaggedHdrSize) rest
      return (true, { output with writeableBuf := memory })

end StdPacketUtils

end IronStack
