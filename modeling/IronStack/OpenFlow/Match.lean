import IronStack.Common

/-!
# `of_match`

The twelve-tuple an OpenFlow 1.0 flow is matched on. Ten fields carry a wildcard
flag; the two IP addresses carry instead the number of least-significant bits to
ignore.
-/

namespace IronStack

/-- `of_match`. -/
structure OfMatch where
  wildcardInPort : Bool
  wildcardEthernetSrc : Bool
  wildcardEthernetDest : Bool
  wildcardVlanId : Bool
  wildcardVlanPcp : Bool
  wildcardEthernetFrameType : Bool
  wildcardIpTypeOfService : Bool
  wildcardIpProtocol : Bool
  wildcardIpSrcLsbCount : UInt8
  wildcardIpDestLsbCount : UInt8
  wildcardTcpudpSrcPort : Bool
  wildcardTcpudpDestPort : Bool
  inPort : UInt16
  ethernetSrc : MacAddress
  ethernetDest : MacAddress
  vlanId : UInt16
  vlanPcp : UInt8
  ethernetFrameType : UInt16
  ipTypeOfService : UInt8
  ipProtocol : UInt8
  ipSrcAddress : IpAddress
  ipDestAddress : IpAddress
  tcpudpSrcPort : UInt16
  tcpudpDestPort : UInt16
deriving DecidableEq, Repr

namespace OfMatch

/-- `of_match::clear`: every field zero and, through `wildcard_none`, no wildcards. -/
def clear : OfMatch where
  wildcardInPort := false
  wildcardEthernetSrc := false
  wildcardEthernetDest := false
  wildcardVlanId := false
  wildcardVlanPcp := false
  wildcardEthernetFrameType := false
  wildcardIpTypeOfService := false
  wildcardIpProtocol := false
  wildcardIpSrcLsbCount := 0
  wildcardIpDestLsbCount := 0
  wildcardTcpudpSrcPort := false
  wildcardTcpudpDestPort := false
  inPort := 0
  ethernetSrc := MacAddress.nil
  ethernetDest := MacAddress.nil
  vlanId := 0
  vlanPcp := 0
  ethernetFrameType := 0
  ipTypeOfService := 0
  ipProtocol := 0
  ipSrcAddress := IpAddress.nil
  ipDestAddress := IpAddress.nil
  tcpudpSrcPort := 0
  tcpudpDestPort := 0

/-- `of_match::wildcard_all`. -/
def wildcardAll (m : OfMatch) : OfMatch :=
  { m with
    wildcardInPort := true
    wildcardEthernetSrc := true
    wildcardEthernetDest := true
    wildcardVlanId := true
    wildcardVlanPcp := true
    wildcardEthernetFrameType := true
    wildcardIpTypeOfService := true
    wildcardIpProtocol := true
    wildcardIpSrcLsbCount := 32
    wildcardIpDestLsbCount := 32
    wildcardTcpudpSrcPort := true
    wildcardTcpudpDestPort := true }

/--
One clause of `of_match::operator==`: the field is wildcarded on both sides, or
on neither and then the values agree.
-/
def fieldEq {α : Type} [BEq α] (w w' : Bool) (a a' : α) : Bool :=
  w == w' && (w || a == a')

/-- The clause for an IP address: the same number of ignored bits, and if any bit is left, the
same address — all 32 bits of it. -/
def ipFieldEq (n n' : UInt8) (a a' : IpAddress) : Bool :=
  n == n' && (!(n < 32) || a == a')

/-- `of_match::operator==`. -/
protected def beq (m other : OfMatch) : Bool :=
  fieldEq m.wildcardInPort other.wildcardInPort m.inPort other.inPort
  && fieldEq m.wildcardEthernetSrc other.wildcardEthernetSrc m.ethernetSrc other.ethernetSrc
  && fieldEq m.wildcardEthernetDest other.wildcardEthernetDest m.ethernetDest other.ethernetDest
  && fieldEq m.wildcardVlanId other.wildcardVlanId m.vlanId other.vlanId
  && fieldEq m.wildcardVlanPcp other.wildcardVlanPcp m.vlanPcp other.vlanPcp
  && fieldEq m.wildcardEthernetFrameType other.wildcardEthernetFrameType
      m.ethernetFrameType other.ethernetFrameType
  && fieldEq m.wildcardIpTypeOfService other.wildcardIpTypeOfService
      m.ipTypeOfService other.ipTypeOfService
  && fieldEq m.wildcardIpProtocol other.wildcardIpProtocol m.ipProtocol other.ipProtocol
  && ipFieldEq m.wildcardIpSrcLsbCount other.wildcardIpSrcLsbCount
      m.ipSrcAddress other.ipSrcAddress
  && ipFieldEq m.wildcardIpDestLsbCount other.wildcardIpDestLsbCount
      m.ipDestAddress other.ipDestAddress
  && fieldEq m.wildcardTcpudpSrcPort other.wildcardTcpudpSrcPort
      m.tcpudpSrcPort other.tcpudpSrcPort
  && fieldEq m.wildcardTcpudpDestPort other.wildcardTcpudpDestPort
      m.tcpudpDestPort other.tcpudpDestPort

instance : BEq OfMatch := ⟨OfMatch.beq⟩

theorem fieldEq_comm {α : Type} [BEq α] [LawfulBEq α] (w w' : Bool) (a a' : α) :
    fieldEq w w' a a' = fieldEq w' w a' a := by
  rw [Bool.eq_iff_iff]
  simp only [fieldEq, Bool.and_eq_true, beq_iff_eq, Bool.or_eq_true]
  refine ⟨?_, ?_⟩
  · intro ⟨hw, h⟩
    exact ⟨hw.symm, (hw ▸ h).imp id Eq.symm⟩
  · intro ⟨hw, h⟩
    exact ⟨hw.symm, (hw ▸ h).imp id Eq.symm⟩

theorem ipFieldEq_comm (n n' : UInt8) (a a' : IpAddress) :
    ipFieldEq n n' a a' = ipFieldEq n' n a' a := by
  rw [Bool.eq_iff_iff]
  simp only [ipFieldEq, Bool.and_eq_true, beq_iff_eq, Bool.or_eq_true]
  refine ⟨?_, ?_⟩
  · intro ⟨hw, h⟩
    exact ⟨hw.symm, (hw ▸ h).imp id Eq.symm⟩
  · intro ⟨hw, h⟩
    exact ⟨hw.symm, (hw ▸ h).imp id Eq.symm⟩

/-- `of_match::operator==` is symmetric. -/
theorem beq_comm (m m' : OfMatch) : (m == m') = (m' == m) := by
  change OfMatch.beq m m' = OfMatch.beq m' m
  unfold OfMatch.beq
  rw [fieldEq_comm m.wildcardInPort, fieldEq_comm m.wildcardEthernetSrc,
    fieldEq_comm m.wildcardEthernetDest, fieldEq_comm m.wildcardVlanId,
    fieldEq_comm m.wildcardVlanPcp, fieldEq_comm m.wildcardEthernetFrameType,
    fieldEq_comm m.wildcardIpTypeOfService, fieldEq_comm m.wildcardIpProtocol,
    ipFieldEq_comm m.wildcardIpSrcLsbCount, ipFieldEq_comm m.wildcardIpDestLsbCount,
    fieldEq_comm m.wildcardTcpudpSrcPort, fieldEq_comm m.wildcardTcpudpDestPort]

end OfMatch

end IronStack
