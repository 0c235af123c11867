import IronStack.Lib.Wire
import IronStack.OpenFlow.Match

/-!
# `of_match` on the wire

`of_match::serialize` and `of_match::deserialize`: the 40 bytes of `struct
ofp_match`. The flags and the two counts of ignored bits share one word of
wildcards, laid out by `enum ofp_flow_wildcards`.
-/

namespace IronStack

open Lib

/-! ## `enum ofp_flow_wildcards` -/

namespace Ofpfw

def inPort : UInt32 := (1 : UInt32) <<< 0
def dlVlan : UInt32 := (1 : UInt32) <<< 1
def dlSrc : UInt32 := (1 : UInt32) <<< 2
def dlDst : UInt32 := (1 : UInt32) <<< 3
def dlType : UInt32 := (1 : UInt32) <<< 4
def nwProto : UInt32 := (1 : UInt32) <<< 5
def tpSrc : UInt32 := (1 : UInt32) <<< 6
def tpDst : UInt32 := (1 : UInt32) <<< 7

def nwSrcShift : UInt32 := 8
def nwSrcBits : UInt32 := 6
def nwSrcMask : UInt32 := ((1 : UInt32) <<< nwSrcBits - 1) <<< nwSrcShift
def nwSrcAll : UInt32 := (32 : UInt32) <<< nwSrcShift

def nwDstShift : UInt32 := 14
def nwDstBits : UInt32 := 6
def nwDstMask : UInt32 := ((1 : UInt32) <<< nwDstBits - 1) <<< nwDstShift
def nwDstAll : UInt32 := (32 : UInt32) <<< nwDstShift

def dlVlanPcp : UInt32 := (1 : UInt32) <<< 20
def nwTos : UInt32 := (1 : UInt32) <<< 21

end Ofpfw

namespace OfMatch

/-- `sizeof(struct ofp_match)`. -/
def wireSize : Nat := 40

/-- The number of ignored bits that goes into the wildcards: at most all 32. -/
def lsbsToWildcard (count : UInt8) : UInt32 := if count > 32 then 32 else count.toUInt32

/-- `wildcard |= flag ? bit : 0`. -/
def addFlag (wildcard : UInt32) (flag : Bool) (bit : UInt32) : UInt32 :=
  wildcard ||| if flag then bit else 0

/-- The wildcard word of `of_match::serialize`, put together in its order. -/
def wildcards (m : OfMatch) : UInt32 :=
  let w := addFlag 0 m.wildcardInPort Ofpfw.inPort
  let w := addFlag w m.wildcardEthernetSrc Ofpfw.dlSrc
  let w := addFlag w m.wildcardEthernetDest Ofpfw.dlDst
  let w := addFlag w m.wildcardVlanId Ofpfw.dlVlan
  let w := addFlag w m.wildcardVlanPcp Ofpfw.dlVlanPcp
  let w := addFlag w m.wildcardEthernetFrameType Ofpfw.dlType
  let w := addFlag w m.wildcardIpTypeOfService Ofpfw.nwTos
  let w := addFlag w m.wildcardIpProtocol Ofpfw.nwProto
  let w := w ||| ((lsbsToWildcard m.wildcardIpSrcLsbCount <<< Ofpfw.nwSrcShift) &&& Ofpfw.nwSrcMask)
  let w := w ||| ((lsbsToWildcard m.wildcardIpDestLsbCount <<< Ofpfw.nwDstShift) &&& Ofpfw.nwDstMask)
  let w := addFlag w m.wildcardTcpudpSrcPort Ofpfw.tpSrc
  addFlag w m.wildcardTcpudpDestPort Ofpfw.tpDst

/-- `of_match::serialize`. Every byte of the record is written, the padding too. -/
def serialize (m : OfMatch) : Bytes :=
  be32 m.wildcards ++ (be16 m.inPort ++ (m.ethernetSrc.addr.toList ++ (m.ethernetDest.addr.toList ++
    (be16 m.vlanId ++ ([m.vlanPcp] ++ ([0] ++ (be16 m.ethernetFrameType ++
      ([m.ipTypeOfService] ++ ([m.ipProtocol] ++ ([0, 0] ++ (m.ipSrcAddress.octets.toList ++
        (m.ipDestAddress.octets.toList ++ (be16 m.tcpudpSrcPort ++ be16 m.tcpudpDestPort)))))))))))))

/-- A flag of the wildcard word. -/
def hasFlag (wildcards bit : UInt32) : Bool := wildcards &&& bit > 0

/-- The number of ignored bits `of_match::deserialize` reads off the wildcard word. -/
def lsbCount (wildcards all mask bits : UInt32) : UInt8 :=
  if wildcards &&& all ≠ 0 then 32 else ((wildcards &&& mask) >>> bits).toUInt8

/-- `of_match::deserialize`; `none` is the false it returns for an input that is too short. -/
def deserialize (input : Bytes) : Read (Option OfMatch) :=
  if input.length < wireSize then .ok none
  else do
    let inPort ← readU16 input 4
    let ethernetSrc ← readVec 6 input 6
    let ethernetDest ← readVec 6 input 12
    let vlanId ← readU16 input 18
    let vlanPcp ← readU8 input 20
    let ethernetFrameType ← readU16 input 22
    let ipTypeOfService ← readU8 input 24
    let ipProtocol ← readU8 input 25
    let ipSrcAddress ← readVec 4 input 28
    let ipDestAddress ← readVec 4 input 32
    let tcpudpSrcPort ← readU16 input 36
    let tcpudpDestPort ← readU16 input 38
    let wildcards ← readU32 input 0
    return some {
      wildcardInPort := hasFlag wildcards Ofpfw.inPort
      wildcardEthernetSrc := hasFlag wildcards Ofpfw.dlSrc
      wildcardEthernetDest := hasFlag wildcards Ofpfw.dlDst
      wildcardVlanId := hasFlag wildcards Ofpfw.dlVlan
      wildcardVlanPcp := hasFlag wildcards Ofpfw.dlVlanPcp
      wildcardEthernetFrameType := hasFlag wildcards Ofpfw.dlType
      wildcardIpTypeOfService := hasFlag wildcards Ofpfw.nwTos
      wildcardIpProtocol := hasFlag wildcards Ofpfw.nwProto
      -- the shift is by the width of the count, not by its place
      wildcardIpSrcLsbCount :=
        lsbCount wildcards Ofpfw.nwSrcAll Ofpfw.nwSrcMask Ofpfw.nwSrcBits
      wildcardIpDestLsbCount :=
        lsbCount wildcards Ofpfw.nwDstAll Ofpfw.nwDstMask Ofpfw.nwDstBits
      wildcardTcpudpSrcPort := hasFlag wildcards Ofpfw.tpSrc
      wildcardTcpudpDestPort := hasFlag wildcards Ofpfw.tpDst
      inPort := inPort
      ethernetSrc := ⟨ethernetSrc⟩
      ethernetDest := ⟨ethernetDest⟩
      vlanId := vlanId
      vlanPcp := vlanPcp
      ethernetFrameType := ethernetFrameType
      ipTypeOfService := ipTypeOfService
      ipProtocol := ipProtocol
      ipSrcAddress := ⟨ipSrcAddress⟩
      ipDestAddress := ⟨ipDestAddress⟩
      tcpudpSrcPort := tcpudpSrcPort
      tcpudpDestPort := tcpudpDestPort }

end OfMatch

end IronStack
