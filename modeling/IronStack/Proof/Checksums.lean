import IronStack.Lib.OnesComplement
import IronStack.Proof.PacketCodec

/-!
# Checksums

What an IP header is packed with verifies always: the sum of its words has room for
all carries, and two folds bring them in. The same goes for TCP and ICMP, but for a
last byte without another one behind it. TCP adds it as the low byte of a word where
it is the high one; ICMP, which adds words as a little-endian machine has them, the
other way round. So a payload of odd length verifies only if it ends in 0.
-/

namespace IronStack.Proof

open Lib IronStack.Proof.RawPacket IronStack.Proof.IpCodec

namespace Checksums

open Codec

/-! ## Sums of words -/

theorem toNat_word (x y : UInt8) : (x.toUInt32 <<< 8 ||| y.toUInt32).toNat = x.toNat * 256 + y.toNat := by
  have hx := UInt8.toNat_lt x
  have hy := UInt8.toNat_lt y
  have hshift : (x.toUInt32 <<< 8).toNat = x.toNat <<< 8 := by
    rw [UInt32.toNat_shiftLeft, UInt8.toNat_toUInt32]
    have hfits : x.toNat <<< 8 < 2 ^ 32 := by
      rw [Nat.shiftLeft_eq]
      omega
    exact Nat.mod_eq_of_lt hfits
  rw [UInt32.toNat_or, hshift, UInt8.toNat_toUInt32, ← Nat.shiftLeft_add_eq_or_of_lt hy, Nat.shiftLeft_eq]

/-- **The sum that is computed** lacks the odd byte, and no carry. -/
theorem toNat_sumWords (l : Bytes) (h : (words16 l).sum < 2 ^ 32) :
    (sumWords l).toNat + 256 * (oddByte l).toNat = (words16 l).sum := by
  fun_induction words16 l with
  | case1 x y rest ih =>
      rw [List.sum_cons] at h ⊢
      have hrest := ih (by omega)
      rw [sumWords, UInt32.toNat_add, toNat_word, oddByte, Nat.mod_eq_of_lt (by omega)]
      omega
  | case2 x =>
      rw [sumWords, oddByte, List.sum_singleton, Nat.mul_comm]
      · exact Nat.zero_add _
      · intro x' y' rest' heq
        exact absurd (congrArg List.length heq) (by simp)
  | case3 => rfl

/-- A sum of words with their bytes the other way round is that of the words, a byte further up. -/
theorem toNat_sumNativeWords (l : Bytes) (h : l.length < 2 ^ 17) :
    (sumNativeWords l).toNat ≤ 65535 * (l.length / 2) ∧
      256 * (sumNativeWords l).toNat + 256 * (oddByte l).toNat ≡ (words16 l).sum [MOD 65535] ∧
        ((words16 l).sum = 0 → (sumNativeWords l).toNat = 0) := by
  fun_induction words16 l with
  | case1 x y rest ih =>
      have hx := UInt8.toNat_lt x
      have hy := UInt8.toNat_lt y
      rw [List.length_cons, List.length_cons] at h
      obtain ⟨hle, hmod, hzero⟩ := ih (by omega)
      rw [sumNativeWords, UInt32.toNat_add, toNat_word, oddByte, List.sum_cons, List.length_cons,
        List.length_cons, Nat.mod_eq_of_lt (by omega)]
      unfold Nat.ModEq at hmod ⊢
      exact ⟨by omega, by omega, by omega⟩
  | case2 x =>
      have hnone : sumNativeWords [x] = 0 := rfl
      rw [hnone, oddByte, List.sum_singleton, Nat.mul_comm]
      exact ⟨Nat.zero_le _, by rw [UInt32.toNat_zero, Nat.mul_zero, Nat.zero_add, Nat.mul_comm], fun _ => rfl⟩
  | case3 => exact ⟨Nat.zero_le _, rfl, fun _ => rfl⟩

/-! ## Complements -/

/-- The end of each checksum is the complement of the sum with its carries folded in. -/
theorem toNat_onesComplement (sum : UInt32) :
    (onesComplement sum).toNat = 65535 - foldCarry 65535 (foldCarry 65535 sum.toNat) := by
  have hsum := UInt32.toNat_lt sum
  have hfold : ∀ n : UInt32, ((n &&& (0xffff : UInt32)) + (n >>> 16)).toNat = foldCarry 65535 n.toNat := by
    intro n
    have hn := UInt32.toNat_lt n
    have hmask : (n &&& (0xffff : UInt32)).toNat = n.toNat % 65536 := by
      rw [UInt32.toNat_and]
      exact Nat.and_two_pow_sub_one_eq_mod n.toNat 16
    have hshift : (n >>> 16).toNat = n.toNat / 65536 := by
      rw [UInt32.toNat_shiftRight]
      exact Nat.shiftRight_eq_div_pow n.toNat 16
    rw [UInt32.toNat_add, hmask, hshift, Nat.mod_eq_of_lt (by omega), foldCarry]
  have htwice : foldCarry 65535 (foldCarry 65535 sum.toNat) ≤ 65535 := foldCarry_twice_le (by omega)
  rw [onesComplement, UInt16.toNat_not, UInt32.toNat_toUInt16, hfold, hfold, Nat.mod_eq_of_lt (by omega)]
  rfl

/-- A sum and its complement are all bits, or as many times more. -/
theorem add_onesComplement (sum : UInt32) : sum.toNat + (onesComplement sum).toNat ≡ 0 [MOD 65535] := by
  have hsum := UInt32.toNat_lt sum
  rw [toNat_onesComplement]
  exact add_sub_foldCarry (by omega)

/-- A record with a checksum in it, behind whole words. -/
structure HasChecksum (record : UInt16 → Bytes) (before behind : Bytes) : Prop where
  parts : ∀ checksum, record checksum = before ++ (be16 checksum ++ behind)
  even : before.length % 2 = 0

variable {record : UInt16 → Bytes} {before behind : Bytes}

/-- A checksum in a record adds to it. -/
theorem HasChecksum.sum_words16 (h : HasChecksum record before behind) (checksum : UInt16) :
    (words16 (record checksum)).sum = (words16 (record 0)).sum + checksum.toNat := by
  have hword : ∀ v : UInt16, (words16 (be16 v)).sum = v.toNat := by
    intro v
    have hv := UInt16.toNat_lt v
    have hbytes : words16 (be16 v) = [(UInt8.ofNat (v.toNat / 256 ^ 1)).toNat * 256 +
        (UInt8.ofNat (v.toNat / 256 ^ 0)).toNat] := rfl
    rw [hbytes, List.sum_singleton, UInt8.toNat_ofNat', UInt8.toNat_ofNat']
    omega
  have htwo : ∀ v : UInt16, (be16 v).length % 2 = 0 := fun v => by rw [length_be16]
  rw [h.parts, h.parts, words16_append h.even, words16_append h.even, words16_append (htwo _),
    words16_append (htwo _), List.sum_append, List.sum_append, List.sum_append, List.sum_append, hword, hword,
    UInt16.toNat_zero]
  omega

/-- Where a byte is added in the wrong place, a record verifies only if it is 0. -/
theorem HasChecksum.internetSum_iff (h : HasChecksum record before behind) (checksum : UInt16) {x : UInt8}
    (hmod : (words16 (record 0)).sum + checksum.toNat ≡ 255 * x.toNat [MOD 65535])
    (hpos : (words16 (record 0)).sum = 0 → checksum ≠ 0) :
    internetSum (record checksum) = 0xffff ↔ x = 0 := by
  have hx := UInt8.toNat_lt x
  have hsum := h.sum_words16 checksum
  rw [internetSum_eq_iff, hsum, ← UInt8.toNat_inj, UInt8.toNat_zero]
  · unfold Nat.ModEq at hmod ⊢
    omega
  · intro hzero
    refine hpos (by omega) (UInt16.toNat_inj.mp ?_)
    rw [UInt16.toNat_zero]
    omega

/-- **The complement of a sum** as a checksum, if one byte was added as the low byte of a word. -/
theorem HasChecksum.onesComplement_iff (h : HasChecksum record before behind) {sum : UInt32} {x : UInt8}
    (hsum : sum.toNat + 255 * x.toNat = (words16 (record 0)).sum) :
    internetSum (record (onesComplement sum)) = 0xffff ↔ x = 0 := by
  refine h.internetSum_iff _ ?_ ?_
  · have hadd := (add_onesComplement sum).add_right (255 * x.toNat)
    rw [Nat.zero_add, Nat.add_right_comm, hsum] at hadd
    exact hadd
  · intro hzero
    have hnone : sum = 0 := UInt32.toNat_inj.mp (by rw [UInt32.toNat_zero]; omega)
    rw [hnone]
    decide

/-! ## What is packed -/

/-- A packet with a checksum. -/
inductive Datagram where
  | ip (p : Codec.IpPacket)
  | tcp (p : Codec.TcpPacket)
  | icmp (p : Codec.IcmpPacket)

namespace Datagram

/-- The IP packet that it is. -/
def ipPacket : Datagram → Codec.IpPacket
  | .ip p => p
  | .tcp p => p.toIpPacket
  | .icmp p => p.toIpPacket

def serialize : Datagram → Read Bytes
  | .ip p => p.serialize
  | .tcp p => p.serialize
  | .icmp p => p.serialize

/-- The size of the header behind the IP header. -/
def hdrSize : Datagram → Nat
  | .ip _ => 0
  | .tcp _ => TcpPacket.hdrSize
  | .icmp _ => IcmpPacket.hdrSize

/-- The options behind that header. -/
def options : Datagram → Autobuf
  | .tcp p => p.options
  | _ => Autobuf.empty

def payload : Datagram → Autobuf
  | .ip p => p.ipPayload
  | .tcp p => p.payload
  | .icmp p => p.data

/--
A packet without IP options that has a type to pack, with TCP options in multiples of four
bytes, and with a payload that fits.
-/
structure InDomain (d : Datagram) (options payload : Bytes) : Prop where
  ipOptions : d.ipPacket.ipOptions.size = 0
  type : ∃ ethertype, d.ipPacket.ethertypeToPack = .ok ethertype
  optionsContent : d.options.content = .ok options
  aligned : options.length % 4 = 0
  payloadContent : d.payload.content = .ok payload
  fits : IpPacket.hdrSize + (d.hdrSize + options.length + payload.length) < 2 ^ 16

/-- The IP header in the frame of a packet. -/
def ipHdr (d : Datagram) (frame : Bytes) : Bytes := (frame.drop d.ipPacket.ethHdrLen).take IpPacket.hdrSize

/-- What is behind the IP header. -/
def segment (d : Datagram) (frame : Bytes) : Bytes := frame.drop (d.ipPacket.ethHdrLen + IpPacket.hdrSize)

/-- The addresses of the IP header, the protocol, and the length of the segment. -/
def pseudoHdr (d : Datagram) (frame : Bytes) : Bytes :=
  ((d.ipHdr frame).drop 12).take 8 ++ [0, 6] ++ be16 (UInt16.ofNat (d.segment frame).length)

/-- What the checksum is computed of that is behind the IP header, if there is one. -/
def checkedBehind (d : Datagram) (frame : Bytes) : List Bytes :=
  match d with
  | .ip _ => []
  | .tcp _ => [d.pseudoHdr frame ++ d.segment frame]
  | .icmp _ => [d.segment frame]

/-- The parts of a frame that have a checksum in them. -/
def checked (d : Datagram) (frame : Bytes) : List Bytes := d.ipHdr frame :: d.checkedBehind frame

/-- The packet is packed, and each of its checksums makes what it is in come to all bits. -/
def Verifies (d : Datagram) : Prop :=
  ∃ frame, d.serialize = .ok frame ∧ ∀ part ∈ d.checked frame, internetSum part = 0xffff

end Datagram

open Datagram

variable {options payload : Bytes} {ethertype : UInt16} {body : Bytes}

/-! ## The IP header -/

/-- The IP header of a frame, and what is behind it. -/
theorem frameOf_parts (d : Datagram) (ethertype : UInt16) (body : Bytes) :
    d.ipHdr (frameOf d.ipPacket ethertype body) =
      d.ipPacket.serializeHdr body.length (IpPacket.checksumIp (d.ipPacket.serializeHdr body.length 0)) ∧
    d.segment (frameOf d.ipPacket ethertype body) = body := by
  have hhdr := length_header d.ipPacket.toRawPacket ethertype
  have hip := IpCodec.length_serializeHdr d.ipPacket body.length
    (IpPacket.checksumIp (d.ipPacket.serializeHdr body.length 0))
  refine ⟨?_, ?_⟩
  · rw [ipHdr, frameOf, List.drop_left' hhdr, List.take_left' hip]
  · rw [Datagram.segment, frameOf, ← List.append_assoc,
      List.drop_left' (by rw [List.length_append, hhdr, hip])]

/-- **The IP header verifies**, whatever is in its fields. -/
theorem internetSum_ipHdr (p : Codec.IpPacket) (n : Nat) :
    internetSum (p.serializeHdr n (IpPacket.checksumIp (p.serializeHdr n 0))) = 0xffff := by
  have hrecord : HasChecksum (p.serializeHdr n)
      ([(p.version <<< 4) ||| (p.ihl &&& 0x0f), (p.dscp <<< 6) ||| (p.ecn &&& 0x03)] ++
        be16 (UInt16.ofNat (IpPacket.hdrSize + p.ipOptions.size + n)) ++ be16 p.identification ++
        [p.flagsFragOffset, p.fragmentOffset.toUInt8, p.ttl, p.protocol])
      (p.srcIp.octets.toList ++ p.destIp.octets.toList) :=
    ⟨fun checksum => by simp only [IpPacket.serializeHdr, List.append_assoc], by simp⟩
  have hlen : (p.serializeHdr n 0).length = 20 := IpCodec.length_serializeHdr p n 0
  have hbound := sum_words16_le (p.serializeHdr n 0)
  have hodd := oddByte_eq_ite (p.serializeHdr n 0)
  rw [hlen] at hbound hodd
  have hsum := toNat_sumWords (p.serializeHdr n 0) (by omega)
  rw [hodd] at hsum
  exact (hrecord.onesComplement_iff (x := 0) hsum).mpr rfl

/-! ## TCP -/

/-- The pseudo header that the checksum of a segment of some length is computed with. -/
def tcpPseudoHdr (p : Codec.TcpPacket) (n : Nat) : Bytes :=
  p.srcIp.octets.toList ++ p.destIp.octets.toList ++ [0, 6] ++ be16 (UInt16.ofNat (TcpPacket.hdrSize + n))

theorem length_tcpPseudoHdr (p : Codec.TcpPacket) (n : Nat) : (tcpPseudoHdr p n).length = 12 := by
  simp [tcpPseudoHdr]

/-- The sum that is computed for a segment has its odd byte in the wrong place, and no carry lost. -/
theorem toNat_tcpSum {hdr l : Bytes} (hhdr : hdr.length = 32) (hlen : l.length < 2 ^ 16) :
    (sumWords hdr + sumWords l + (if l.length % 2 = 1 then (l.getLastD 0).toUInt32 else 0)).toNat +
      255 * (oddByte l).toNat = (words16 (hdr ++ l)).sum := by
  have hlast : (if l.length % 2 = 1 then (l.getLastD 0).toUInt32 else 0) = (oddByte l).toUInt32 := by
    rw [oddByte_eq_ite]
    split
    · rfl
    · rfl
  have hoddHdr := oddByte_eq_ite hdr
  have hboundHdr := sum_words16_le hdr
  have hbound := sum_words16_le l
  rw [hhdr] at hoddHdr hboundHdr
  have hsumHdr := toNat_sumWords hdr (by omega)
  have hsum := toNat_sumWords l (by omega)
  have hnone : (oddByte hdr).toNat = 0 := congrArg UInt8.toNat hoddHdr
  rw [words16_append (by omega), List.sum_append, hlast, UInt32.toNat_add, UInt32.toNat_add,
    UInt8.toNat_toUInt32]
  omega

/-- **A TCP segment verifies** if no byte of its payload is left over, or it is 0. -/
theorem internetSum_segment (p : Codec.TcpPacket) (hoptions : options.length % 4 = 0)
    (hfits : 40 + options.length + payload.length < 2 ^ 16) :
    internetSum (tcpPseudoHdr p (options ++ payload).length ++ PacketCodec.Tcp.segment p options payload) =
      0xffff ↔ oddByte payload = 0 := by
  have hrecord : HasChecksum (fun checksum => tcpPseudoHdr p (options ++ payload).length ++
        (p.serializeHdr checksum ++ (options ++ payload)))
      (tcpPseudoHdr p (options ++ payload).length ++ (be16 p.srcPort ++ be16 p.destPort ++ be32 p.seq ++
        be32 p.ack ++ [p.dataOffsetReserved, p.flags] ++ be16 p.windowSize))
      (be16 0 ++ (options ++ payload)) :=
    ⟨fun checksum => by simp only [TcpPacket.serializeHdr, List.append_assoc],
      by simp [length_tcpPseudoHdr]⟩
  have hhdr : (tcpPseudoHdr p (options ++ payload).length ++ p.serializeHdr 0).length = 32 := by
    rw [List.length_append, length_tcpPseudoHdr, PacketCodec.Tcp.length_serializeHdr]
    rfl
  have hlen : (options ++ payload).length < 2 ^ 16 := by
    rw [List.length_append]
    omega
  have hsum := toNat_tcpSum hhdr hlen
  rw [oddByte_append (by omega), List.append_assoc] at hsum
  exact hrecord.onesComplement_iff hsum

/-! ## ICMP -/

/-- The sum that is computed for a message has room for all carries. -/
theorem toNat_icmpSum {l : Bytes} (hlen : l.length < 2 ^ 16) :
    (sumNativeWords l + (if l.length % 2 = 1 then (l.getLastD 0).toUInt32 <<< 8 else 0)).toNat =
      (sumNativeWords l).toNat + 256 * (oddByte l).toNat := by
  have hlast : (if l.length % 2 = 1 then (l.getLastD 0).toUInt32 <<< 8 else 0) =
      (oddByte l).toUInt32 <<< 8 ||| (0 : UInt8).toUInt32 := by
    rw [oddByte_eq_ite]
    split
    · exact UInt32.or_zero.symm
    · rfl
  have hx := UInt8.toNat_lt (oddByte l)
  obtain ⟨hbound, _⟩ := toNat_sumNativeWords l (by omega)
  rw [hlast, UInt32.toNat_add, toNat_word, UInt8.toNat_zero, Nat.mod_eq_of_lt (by omega)]
  omega

/-- **An ICMP message verifies** if no byte of its data is left over, or it is 0. -/
theorem internetSum_message (p : Codec.IcmpPacket) (hfits : 28 + payload.length < 2 ^ 16) :
    internetSum (PacketCodec.Icmp.message p payload) = 0xffff ↔ oddByte payload = 0 := by
  have hrecord : HasChecksum (fun checksum => p.serializeHdr checksum ++ payload) [p.icmpPktType, p.code]
      (be32 p.icmpHdrRest ++ payload) :=
    ⟨fun checksum => by simp only [IcmpPacket.serializeHdr, List.append_assoc],
      by rw [List.length_cons, List.length_singleton]⟩
  have hodd : oddByte (p.serializeHdr 0 ++ payload) = oddByte payload :=
    oddByte_append (by rw [PacketCodec.Icmp.length_serializeHdr, IcmpPacket.hdrSize]) payload
  have hlen : (p.serializeHdr 0 ++ payload).length < 2 ^ 16 := by
    rw [List.length_append, PacketCodec.Icmp.length_serializeHdr, IcmpPacket.hdrSize]
    omega
  have hx := UInt8.toNat_lt (oddByte payload)
  obtain ⟨_, hnative, hnone⟩ := toNat_sumNativeWords (p.serializeHdr 0 ++ payload) (by omega)
  have hsum := toNat_icmpSum hlen
  rw [hodd] at hnative hsum
  have hadd := add_onesComplement (sumNativeWords (p.serializeHdr 0 ++ payload) +
    (if (p.serializeHdr 0 ++ payload).length % 2 = 1 then
      ((p.serializeHdr 0 ++ payload).getLastD 0).toUInt32 <<< 8 else 0))
  rw [← IcmpPacket.checksumIcmp, hsum] at hadd
  have hswap := PacketCodec.Icmp.toNat_swapBytes (IcmpPacket.checksumIcmp (p.serializeHdr 0 ++ payload))
  have hchecksum := UInt16.toNat_lt (IcmpPacket.checksumIcmp (p.serializeHdr 0 ++ payload))
  -- a byte further up, the sum is that of the words in the frame
  refine hrecord.internetSum_iff (PacketCodec.Icmp.wireChecksum p payload) ?_ ?_
  · rw [PacketCodec.Icmp.wireChecksum, hswap]
    unfold Nat.ModEq at hnative hadd ⊢
    omega
  · intro hzero hwire
    have hall := congrArg UInt16.toNat hwire
    have hnative' := hnone hzero
    rw [PacketCodec.Icmp.wireChecksum, hswap, UInt16.toNat_zero] at hall
    unfold Nat.ModEq at hnative
    rw [hnative', hzero] at hnative
    -- the complement of 0 is all bits
    have hempty : sumNativeWords (p.serializeHdr 0 ++ payload) +
        (if (p.serializeHdr 0 ++ payload).length % 2 = 1 then
          ((p.serializeHdr 0 ++ payload).getLastD 0).toUInt32 <<< 8 else 0) = 0 := by
      apply UInt32.toNat_inj.mp
      rw [hsum, UInt32.toNat_zero]
      omega
    rw [IcmpPacket.checksumIcmp, hempty] at hall
    exact absurd hall (by decide)

/-! ## Any packet -/

/-- The pseudo header of a frame is the one that the checksum was computed with. -/
theorem pseudoHdr_frameOf (p : Codec.TcpPacket) (ethertype : UInt16) {n : Nat}
    (hbody : body.length = TcpPacket.hdrSize + n) :
    (Datagram.tcp p).pseudoHdr (frameOf p.toIpPacket ethertype body) = tcpPseudoHdr p n := by
  have hhdr : (Datagram.tcp p).ipHdr (frameOf p.toIpPacket ethertype body) =
      p.toIpPacket.serializeHdr body.length (IpPacket.checksumIp (p.toIpPacket.serializeHdr body.length 0)) :=
    (frameOf_parts (.tcp p) ethertype body).1
  have hsegment : (Datagram.tcp p).segment (frameOf p.toIpPacket ethertype body) = body :=
    (frameOf_parts (.tcp p) ethertype body).2
  have haddresses : ∀ checksum, ((p.toIpPacket.serializeHdr body.length checksum).drop 12).take 8 =
      p.srcIp.octets.toList ++ p.destIp.octets.toList := by
    intro checksum
    rw [IpPacket.serializeHdr, List.append_assoc, List.drop_left' (by simp)]
    exact List.take_of_length_le (by simp)
  rw [pseudoHdr, hhdr, hsegment, haddresses, hbody, tcpPseudoHdr]

/-- A packet has one frame, and the IP header in it verifies. -/
theorem verifies_iff_of_serialize {d : Datagram} (h : d.serialize = .ok (frameOf d.ipPacket ethertype body)) :
    d.Verifies ↔
      ∀ part ∈ d.checkedBehind (frameOf d.ipPacket ethertype body), internetSum part = 0xffff := by
  refine ⟨fun ⟨frame, hser, hall⟩ => ?_, fun hall => ⟨_, h, List.forall_mem_cons.mpr ⟨?_, hall⟩⟩⟩
  · rw [h] at hser
    rw [← Except.ok.inj hser] at hall
    exact (List.forall_mem_cons.mp hall).2
  · rw [(frameOf_parts d ethertype body).1]
    exact internetSum_ipHdr _ _

theorem verifies_ip {p : Codec.IpPacket} (h : InDomain (.ip p) options payload) :
    (Datagram.ip p).Verifies := by
  obtain ⟨ethertype, htype⟩ := h.type
  have hser : (Datagram.ip p).serialize = .ok (frameOf p ethertype payload) :=
    PacketCodec.Ip.serialize_eq h.ipOptions h.payloadContent htype
  exact (verifies_iff_of_serialize (d := .ip p) hser).mpr fun part hpart => absurd hpart List.not_mem_nil

theorem verifies_tcp_iff {p : Codec.TcpPacket} (h : InDomain (.tcp p) options payload) :
    (Datagram.tcp p).Verifies ↔ oddByte payload = 0 := by
  obtain ⟨ethertype, htype⟩ := h.type
  have hfits : IpPacket.hdrSize + (TcpPacket.hdrSize + options.length + payload.length) < 2 ^ 16 := h.fits
  have hser : (Datagram.tcp p).serialize = .ok (frameOf p.toIpPacket ethertype
      (PacketCodec.Tcp.segment p options payload)) :=
    PacketCodec.Tcp.serialize_eq h.ipOptions h.optionsContent h.payloadContent hfits htype
  rw [IpPacket.hdrSize, TcpPacket.hdrSize] at hfits
  have hsegment : (Datagram.tcp p).segment (frameOf p.toIpPacket ethertype
      (PacketCodec.Tcp.segment p options payload)) = PacketCodec.Tcp.segment p options payload :=
    (frameOf_parts (.tcp p) ethertype _).2
  have hpseudo : (Datagram.tcp p).pseudoHdr (frameOf p.toIpPacket ethertype
      (PacketCodec.Tcp.segment p options payload)) = tcpPseudoHdr p (options ++ payload).length :=
    pseudoHdr_frameOf p ethertype (by rw [PacketCodec.Tcp.length_segment, List.length_append, Nat.add_assoc])
  have hverifies : internetSum (tcpPseudoHdr p (options ++ payload).length ++
      PacketCodec.Tcp.segment p options payload) = 0xffff ↔ oddByte payload = 0 :=
    internetSum_segment p h.aligned (by omega)
  rw [verifies_iff_of_serialize (d := .tcp p) hser, ← hverifies, ← hpseudo, checkedBehind, ipPacket, hsegment]
  exact List.forall_mem_singleton

theorem verifies_icmp_iff {p : Codec.IcmpPacket} (h : InDomain (.icmp p) options payload) :
    (Datagram.icmp p).Verifies ↔ oddByte payload = 0 := by
  obtain ⟨ethertype, htype⟩ := h.type
  have hfits : IpPacket.hdrSize + (IcmpPacket.hdrSize + options.length + payload.length) < 2 ^ 16 := h.fits
  rw [IpPacket.hdrSize, IcmpPacket.hdrSize] at hfits
  have hser : (Datagram.icmp p).serialize = .ok (frameOf p.toIpPacket ethertype
      (PacketCodec.Icmp.message p payload)) :=
    PacketCodec.Icmp.serialize_eq h.ipOptions h.payloadContent
      (by rw [IpPacket.hdrSize, IcmpPacket.hdrSize]; omega) htype
  have hsegment : (Datagram.icmp p).segment (frameOf p.toIpPacket ethertype
      (PacketCodec.Icmp.message p payload)) = PacketCodec.Icmp.message p payload :=
    (frameOf_parts (.icmp p) ethertype _).2
  rw [verifies_iff_of_serialize (d := .icmp p) hser, ← internetSum_message p (by omega), checkedBehind,
    ipPacket, hsegment]
  exact List.forall_mem_singleton

/-- **Every checksum verifies if and only if** no payload ends in a byte that is left over and not 0. -/
theorem verifies_iff {d : Datagram} (h : d.InDomain options payload) :
    d.Verifies ↔ (∃ p, d = .ip p) ∨ payload.length % 2 = 0 ∨ payload.getLast? = some 0 := by
  rw [← oddByte_eq_zero_iff]
  cases d with
  | ip p => exact ⟨fun _ => .inl ⟨p, rfl⟩, fun _ => verifies_ip h⟩
  | tcp p =>
      rw [verifies_tcp_iff h]
      exact ⟨.inr, fun h => h.resolve_left (by simp)⟩
  | icmp p =>
      rw [verifies_icmp_iff h]
      exact ⟨.inr, fun h => h.resolve_left (by simp)⟩

/-- An echo reply with one byte of data. -/
def oddEcho : Datagram := .icmp { data := ⟨[1], 1⟩ }

theorem oddEcho_inDomain : oddEcho.InDomain [] [1] :=
  ⟨rfl, ⟨0x0800, rfl⟩, rfl, rfl, rfl, by decide⟩

theorem oddEcho_iff :
    oddEcho.Verifies ↔ (∃ p, oddEcho = .ip p) ∨ [(1 : UInt8)].length % 2 = 0 ∨
      [(1 : UInt8)].getLast? = some 0 :=
  verifies_iff oddEcho_inDomain

/-- Its checksum does not verify. -/
theorem oddEcho_fails : ¬ oddEcho.Verifies := by
  intro h
  exact absurd ((verifies_icmp_iff oddEcho_inDomain).mp h) (by decide)

end Checksums

end IronStack.Proof
