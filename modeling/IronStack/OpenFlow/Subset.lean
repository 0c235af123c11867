import IronStack.Lib.Wire
import IronStack.OpenFlow.Match

/-!
# The subset order on `of_match`

`of_match::operator<`: is everything this match criteria accepts accepted by the
other? The flags and values are compared field by field; of an IP address, the
code compares bits one by one, in an order of its own.
-/

namespace IronStack

open Lib

namespace OfMatch

/--
One clause of `of_match::operator<`: the other criteria wildcards the field, or
neither does and the values agree.
-/
def fieldSubset {α : Type} [BEq α] (w w' : Bool) (v v' : α) : Bool :=
  !(!w' && (w || v != v'))

/-- The bit of an address the loop of `operator<` looks at: the low bit of an octet comes first. -/
def addressBit (addr : Bytes) (counter : Nat) : Read UInt8 := do
  let octet ← readU8 addr (counter / 8)
  return octet &&& ((1 : UInt8) <<< UInt8.ofNat (counter % 8))

/-- The loop of `operator<` over these bits of two addresses. -/
def sameBits (addr1 addr2 : Bytes) : List Nat → Read Bool
  | [] => .ok true
  | counter :: rest => do
      let bit1 ← addressBit addr1 counter
      let bit2 ← addressBit addr2 counter
      if bit1 ≠ bit2 then return false else sameBits addr1 addr2 rest

/-- The clause for an IP address. Nothing is compared if the other ignores fewer bits. -/
def ipSubset (n n' : UInt8) (a a' : IpAddress) : Read Bool :=
  if n' ≥ n then
    let prefixSize : UInt8 := 32 - n
    sameBits a.octets.toList a'.octets.toList (List.range prefixSize.toNat)
  else return true

/-- The clauses of `operator<` that come before the addresses. -/
def linkSubset (m other : OfMatch) : Bool :=
  fieldSubset m.wildcardInPort other.wildcardInPort m.inPort other.inPort
  && fieldSubset m.wildcardEthernetSrc other.wildcardEthernetSrc m.ethernetSrc other.ethernetSrc
  && fieldSubset m.wildcardEthernetDest other.wildcardEthernetDest m.ethernetDest other.ethernetDest
  && fieldSubset m.wildcardVlanId other.wildcardVlanId m.vlanId other.vlanId
  && fieldSubset m.wildcardVlanPcp other.wildcardVlanPcp m.vlanPcp other.vlanPcp
  && fieldSubset m.wildcardEthernetFrameType other.wildcardEthernetFrameType
      m.ethernetFrameType other.ethernetFrameType
  && fieldSubset m.wildcardIpTypeOfService other.wildcardIpTypeOfService
      m.ipTypeOfService other.ipTypeOfService
  && fieldSubset m.wildcardIpProtocol other.wildcardIpProtocol m.ipProtocol other.ipProtocol

/-- The clauses of `operator<` that come after the addresses. -/
def portSubset (m other : OfMatch) : Bool :=
  fieldSubset m.wildcardTcpudpSrcPort other.wildcardTcpudpSrcPort
      m.tcpudpSrcPort other.tcpudpSrcPort
  && fieldSubset m.wildcardTcpudpDestPort other.wildcardTcpudpDestPort
      m.tcpudpDestPort other.tcpudpDestPort

/-- `of_match::operator<`. -/
def subset (m other : OfMatch) : Read Bool :=
  if !m.linkSubset other then return false
  else do
    let src ← ipSubset m.wildcardIpSrcLsbCount other.wildcardIpSrcLsbCount
      m.ipSrcAddress other.ipSrcAddress
    if !src then return false
    let dest ← ipSubset m.wildcardIpDestLsbCount other.wildcardIpDestLsbCount
      m.ipDestAddress other.ipDestAddress
    if !dest then return false
    return m.portSubset other

end OfMatch

end IronStack
