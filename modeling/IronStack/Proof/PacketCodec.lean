import IronStack.Proof.IpCodec

/-!
# IPv4, TCP, UDP and ICMP packets, there and back

What is in an IP packet comes back if its header does, with one exception: the options
of a TCP packet are looked for in the middle of the TCP header. They come back if there
are none, or if they repeat the header from the number that is acknowledged on.
-/

namespace IronStack.Proof

open Lib

namespace PacketCodec

open IronStack.Proof.RawPacket IronStack.Proof.IpCodec

variable {b body : Bytes} {ethertype : UInt16}

/-! ## Buffers -/

theorem size_of_content {buf : Autobuf} {l : Bytes} (h : buf.content = .ok l) : buf.size = l.length := by
  rw [Autobuf.content, slice] at h
  split at h
  · rename_i hle
    rw [← Except.ok.inj h, List.drop_zero, List.length_take_of_le (by omega)]
  · cases h

theorem content_whole (l : Bytes) : (⟨l, l.length⟩ : Autobuf).content = .ok l := by
  rw [Autobuf.content]
  exact (slice_ok (Nat.le_of_eq (Nat.zero_add _))).trans (congrArg Except.ok List.take_length)

/-- What is in a packet behind its header is there, or there is nothing. -/
theorem content_behind {n size len : Nat} {memory : Bytes} (hsize : size = n + body.length)
    (hlen : len = body.length) (hmemory : memory = body) :
    (if size > n then (⟨memory, len⟩ : Autobuf) else Autobuf.empty).content = .ok body := by
  rw [hsize, hlen, hmemory]
  split
  · exact content_whole _
  · rw [List.eq_nil_of_length_eq_zero (show body.length = 0 by omega)]
    rfl

theorem overwrite_middle {l old r new : Bytes} {off : Nat} (hoff : off = l.length)
    (hlen : new.length = old.length) :
    overwrite (l ++ (old ++ r)) off new = .ok (l ++ (new ++ r)) := by
  have hroom : off + new.length ≤ (l ++ (old ++ r)).length := by
    simp only [List.length_append, hoff, hlen]
    omega
  rw [overwrite, if_pos hroom, hoff, hlen, List.take_left, List.drop_length_add_append, List.drop_left,
    List.append_assoc]

/-- Without a type there is no header. -/
theorem ethertype_of_serializeFront {p : Codec.IpPacket} {n : Nat} {front : Bytes}
    (h : p.serializeFront n = .ok front) : ∃ ethertype, p.ethertypeToPack = .ok ethertype := by
  obtain ⟨hdr, hhdr, -⟩ := bind_eq_ok.mp h
  obtain ⟨ethertype, htype, -⟩ := serialize_eq_ok hhdr
  exact ⟨ethertype, htype⟩

theorem ethertype_of_serializeSpecial {p : Codec.IpPacket} {frame : Bytes}
    (h : p.serializeSpecial body = .ok frame) :
    ∃ ethertype, p.ethertypeToPack = .ok ethertype := by
  obtain ⟨front, hfront, -⟩ := bind_eq_ok.mp h
  exact ethertype_of_serializeFront hfront

/-- Room is made for what is in the packet, and it goes there. -/
theorem serializeSpecial_of_front {p : Codec.IpPacket} {front : Bytes}
    (hfront : p.serializeFront body.length = .ok front) (hlen : front.length ≤ 38) (hpos : 0 < body.length)
    (hfits : 20 + body.length < 2 ^ 16) : p.serializeSpecial body = .ok (front ++ body) := by
  have hmod : body.length % 2 ^ 16 = body.length := Nat.mod_eq_of_lt (by omega)
  have hsub : subU32 (front.length + body.length) body.length = front.length := by
    rw [subU32_of_le (Nat.le_add_left _ _) (by omega), Nat.add_sub_cancel_right]
  have hptr : ptrOffsetMutable (front.length + body.length) front.length = .ok () :=
    ptrOffsetMutable_of_lt (by omega) (by omega)
  have hlt : body.length < 2 ^ 16 := by omega
  rw [Codec.IpPacket.serializeSpecial, hmod, hfront, ok_bind]
  dsimp only
  rw [hsub, hptr, ok_bind, if_pos hlt, pure_eq_ok]

theorem serializeSpecial_eq {p : Codec.IpPacket} (hoptions : p.ipOptions.size = 0)
    (htype : p.ethertypeToPack = .ok ethertype)
    (hpos : 0 < body.length) (hfits : 20 + body.length < 2 ^ 16) :
    p.serializeSpecial body = .ok (frameOf p ethertype body) := by
  have hle := ethHdrLen_le p.toRawPacket
  rw [serializeSpecial_of_front (serializeFront_eq hoptions htype _) ?_ hpos hfits, frameOf,
    List.append_assoc]
  rw [IronStack.RawPacket.taggedHdrSize] at hle
  rw [List.length_append, length_header, length_serializeHdr, Codec.IpPacket.hdrSize]
  omega

/-- A part of what is in a packet is written over in the frame. -/
theorem overwrite_frameOf {p : Codec.IpPacket} {x old new r : Bytes} {off : Nat}
    (hoff : off = p.ethHdrLen + Codec.IpPacket.hdrSize + x.length) (hlen : new.length = old.length) :
    overwrite (frameOf p ethertype (x ++ (old ++ r))) off new =
      .ok (frameOf p ethertype (x ++ (new ++ r))) := by
  have hsize : (x ++ (new ++ r)).length = (x ++ (old ++ r)).length := by
    simp only [List.length_append, hlen]
  rw [frameOf, frameOf, hsize, ← List.append_assoc, ← List.append_assoc, overwrite_middle _ hlen,
    List.append_assoc, List.append_assoc]
  rw [hoff, List.length_append, List.length_append, length_header, length_serializeHdr]

/-! ## IPv4 -/

namespace Ip

open Codec.IpPacket

variable {p q : Codec.IpPacket}

/-- A packet whose fields are in their width, and whose payload is there and fits. -/
structure InDomain (p : Codec.IpPacket) (ipPayload : Bytes) : Prop where
  width : InWidth p
  payload : p.ipPayload.content = .ok ipPayload
  fits : hdrSize + ipPayload.length < 2 ^ 16

/-- The packet comes back from the frame it is packed into. -/
def RoundTrips (p : Codec.IpPacket) : Prop :=
  ∃ frame q, p.serialize = .ok frame ∧ deserialize frame = .ok (some q) ∧
    Reproduces p q p.ipPayload.size ∧ q.ipPayload.content = p.ipPayload.content

variable {ipPayload : Bytes}

theorem serialize_eq (hoptions : p.ipOptions.size = 0) (hpayload : p.ipPayload.content = .ok ipPayload)
    (htype : p.ethertypeToPack = .ok ethertype) : p.serialize = .ok (frameOf p ethertype ipPayload) := by
  rw [serialize, serializeFront_eq hoptions htype, hpayload, size_of_content hpayload, frameOf,
    ← List.append_assoc]
  rfl

theorem roundTrips_iff (h : InDomain p ipPayload) : RoundTrips p ↔ HeaderSurvives p := by
  have hsize := size_of_content h.payload
  refine ⟨?_, ?_⟩
  · intro ⟨frame, q, hser, hdes, hsame, _⟩
    obtain ⟨front, hfront, -⟩ := bind_eq_ok.mp hser
    obtain ⟨ethertype, htype⟩ := ethertype_of_serializeFront hfront
    obtain rfl := Except.ok.inj ((serialize_eq h.width.ipOptions h.payload htype).symm.trans hser)
    rw [hsize] at hsame
    exact (survives_of_reproduces h.width htype h.fits hdes hsame).1
  · intro hsurvives
    obtain ⟨ethertype, htype, _⟩ := hsurvives.type
    obtain ⟨q, hdes, hsame, hpayload⟩ := exists_reproduces ipPayload h.width h.fits hsurvives htype
    refine ⟨_, q, serialize_eq h.width.ipOptions h.payload htype, hdes, ?_, ?_⟩
    · rwa [hsize]
    · rw [hpayload, h.payload, content_whole]

end Ip

/-! ## UDP -/

namespace Udp

open Codec.UdpPacket

variable {p q : Codec.UdpPacket} {udpPayload : Bytes}

/-- A packet whose fields are in their width, and whose payload is there and fits. -/
structure InDomain (p : Codec.UdpPacket) (udpPayload : Bytes) : Prop where
  width : InWidth p.toIpPacket
  payload : p.udpPayload.content = .ok udpPayload
  fits : Codec.IpPacket.hdrSize + (hdrSize + udpPayload.length) < 2 ^ 16

/-- The fields that have to come back, the checksum as the 0 that is packed. -/
structure Reproduces (p q : Codec.UdpPacket) : Prop where
  ip : IpCodec.Reproduces p.toIpPacket q.toIpPacket (hdrSize + p.udpPayload.size)
  srcPort : q.srcPort = p.srcPort
  destPort : q.destPort = p.destPort
  udpChecksum : q.udpChecksum = 0
  udpPayload : q.udpPayload.content = p.udpPayload.content

/-- The packet comes back from the frame it is packed into. -/
def RoundTrips (p : Codec.UdpPacket) : Prop :=
  ∃ frame q, p.serialize = .ok frame ∧ deserialize frame = .ok (some q) ∧ Reproduces p q

theorem length_serializeHdr (p : Codec.UdpPacket) : p.serializeHdr.length = hdrSize := by
  simp [serializeHdr, hdrSize]

theorem serialize_eq (h : InDomain p udpPayload) (htype : p.ethertypeToPack = .ok ethertype) :
    p.serialize = .ok (frameOf p.toIpPacket ethertype (p.serializeHdr ++ udpPayload)) := by
  have hlen : (p.serializeHdr ++ udpPayload).length = hdrSize + udpPayload.length := by
    rw [List.length_append, length_serializeHdr]
  rw [serialize, h.payload, ok_bind]
  refine serializeSpecial_eq h.width.ipOptions htype ?_ ?_
  · rw [hlen, hdrSize]
    omega
  · rw [hlen]
    exact h.fits

/-- The IP packet that a UDP packet was accepted in. -/
theorem ip_of_deserialize (h : deserialize b = .ok (some q)) :
    Codec.IpPacket.deserialize b = .ok (some q.toIpPacket) := by
  obtain ⟨ip?, hip, h⟩ := bind_eq_ok.mp h
  cases ip? with
  | none => cases h
  | some ip =>
      dsimp only at h
      split at h
      · cases h
      · obtain ⟨srcPort, -, h⟩ := bind_eq_ok.mp h
        obtain ⟨destPort, -, h⟩ := bind_eq_ok.mp h
        obtain ⟨udpChecksum, -, h⟩ := bind_eq_ok.mp h
        obtain ⟨udpHdrLen, -, h⟩ := bind_eq_ok.mp h
        split at h
        · cases h
        · obtain rfl := Option.some.inj (Except.ok.inj h)
          exact hip

/-- What is in the IP packet is read as it was written. -/
theorem deserialize_of_ip {ip : Codec.IpPacket} (hdomain : InDomain p udpPayload)
    (h : Codec.IpPacket.deserialize b = .ok (some ip))
    (hpayload : ip.ipPayload = ⟨p.serializeHdr ++ udpPayload, (p.serializeHdr ++ udpPayload).length⟩) :
    ∃ q, deserialize b = .ok (some q) ∧ q.toIpPacket = ip ∧ q.srcPort = p.srcPort ∧ q.destPort = p.destPort ∧
      q.udpChecksum = 0 ∧ q.udpPayload.content = .ok udpPayload := by
  have hlen : (p.serializeHdr ++ udpPayload).length = hdrSize + udpPayload.length := by
    rw [List.length_append, length_serializeHdr]
  have hfits := hdomain.fits
  have hbehind : (p.serializeHdr ++ udpPayload).drop hdrSize = udpPayload :=
    List.drop_left' (length_serializeHdr p)
  have hfield : (UInt16.ofNat (hdrSize + p.udpPayload.size)).toNat = hdrSize + udpPayload.length := by
    rw [size_of_content hdomain.payload, UInt16.toNat_ofNat']
    exact Nat.mod_eq_of_lt (by omega)
  rw [deserialize, h]
  simp only [ok_bind, hpayload, hlen, hbehind]
  rw [if_neg (by omega)]
  simp (disch := simp) only [serializeHdr, List.append_assoc, readU16_append_right, length_be16,
    Nat.reduceSub, readU16_be16, ok_bind, hfield]
  rw [if_neg (not_not_intro rfl)]
  exact ⟨_, rfl, rfl, rfl, rfl, rfl, content_behind rfl (Nat.add_sub_cancel_left _ _) rfl⟩

theorem roundTrips_iff (h : InDomain p udpPayload) : RoundTrips p ↔ HeaderSurvives p.toIpPacket := by
  have hlen : (p.serializeHdr ++ udpPayload).length = hdrSize + p.udpPayload.size := by
    rw [List.length_append, length_serializeHdr, size_of_content h.payload]
  have hfits : 20 + (p.serializeHdr ++ udpPayload).length < 2 ^ 16 := by
    rw [List.length_append, length_serializeHdr]
    exact h.fits
  refine ⟨?_, ?_⟩
  · intro ⟨frame, q, hser, hdes, hsame⟩
    obtain ⟨_, -, hspecial⟩ := bind_eq_ok.mp hser
    obtain ⟨ethertype, htype⟩ := ethertype_of_serializeSpecial hspecial
    obtain rfl := Except.ok.inj ((serialize_eq h htype).symm.trans hser)
    have hip := hsame.ip
    rw [← hlen] at hip
    exact (survives_of_reproduces h.width htype hfits (ip_of_deserialize hdes) hip).1
  · intro hsurvives
    obtain ⟨ethertype, htype, _⟩ := hsurvives.type
    obtain ⟨ip, hdes, hip, hpayload⟩ :=
      exists_reproduces (p.serializeHdr ++ udpPayload) h.width hfits hsurvives htype
    obtain ⟨q, hq, rfl, hsrc, hdest, hchecksum, hcontent⟩ := deserialize_of_ip h hdes hpayload
    rw [hlen] at hip
    exact ⟨_, q, serialize_eq h htype, hq, hip, hsrc, hdest, hchecksum, hcontent.trans h.payload.symm⟩

end Udp

/-! ## ICMP -/

namespace Icmp

open Codec.IcmpPacket

variable {p q : Codec.IcmpPacket} {data : Bytes}

/-- A packet whose fields are in their width, and whose data are there and fit. -/
structure InDomain (p : Codec.IcmpPacket) (data : Bytes) : Prop where
  width : InWidth p.toIpPacket
  content : p.data.content = .ok data
  fits : Codec.IpPacket.hdrSize + (hdrSize + data.length) < 2 ^ 16

/-- A number with its two bytes the other way round. -/
def swapBytes (v : UInt16) : UInt16 := UInt16.ofNat (v.toNat % 256 * 256 + v.toNat / 256)

theorem toNat_swapBytes (v : UInt16) : (swapBytes v).toNat = v.toNat % 256 * 256 + v.toNat / 256 := by
  have hlt := UInt16.toNat_lt v
  rw [swapBytes, UInt16.toNat_ofNat', Nat.mod_eq_of_lt (by omega)]

theorem be16_swapBytes (v : UInt16) : be16 (swapBytes v) = [v.toUInt8, (v >>> 8).toUInt8] := by
  have hlt := UInt16.toNat_lt v
  have hv := toNat_swapBytes v
  have hfirst : UInt8.ofNat ((v.toNat % 256 * 256 + v.toNat / 256) / 256 ^ 1) = v.toUInt8 := by
    apply UInt8.toNat_inj.mp
    have hhigh : v.toNat / 256 < 256 := by omega
    rw [UInt8.toNat_ofNat', UInt16.toNat_toUInt8, Nat.pow_one, Nat.mul_comm, Nat.mul_add_div (by decide),
      Nat.div_eq_of_lt hhigh, Nat.add_zero]
    exact Nat.mod_mod _ _
  have hsecond : UInt8.ofNat ((v.toNat % 256 * 256 + v.toNat / 256) / 256 ^ 0) = (v >>> 8).toUInt8 := by
    apply UInt8.toNat_inj.mp
    simp only [UInt8.toNat_ofNat', UInt16.toNat_toUInt8, UInt16.toNat_shiftRight, UInt16.reduceToNat,
      Nat.reduceMod, Nat.shiftRight_eq_div_pow, Nat.pow_zero, Nat.div_one]
    omega
  rw [be16, hv, toBE, toBE, toBE, hfirst, hsecond]

/-- The checksum that goes into the frame, as it stands there. -/
def wireChecksum (p : Codec.IcmpPacket) (data : Bytes) : UInt16 :=
  swapBytes (checksumIcmp (p.serializeHdr 0 ++ data))

/-- The fields that have to come back, the checksum as that of the message that is packed. -/
structure Reproduces (p q : Codec.IcmpPacket) (data : Bytes) : Prop where
  ip : IpCodec.Reproduces p.toIpPacket q.toIpPacket (hdrSize + data.length)
  icmpPktType : q.icmpPktType = p.icmpPktType
  code : q.code = p.code
  checksum : q.checksum = wireChecksum p data
  icmpHdrRest : q.icmpHdrRest = p.icmpHdrRest
  data : q.data.content = .ok data

/-- The packet comes back from the frame it is packed into. -/
def RoundTrips (p : Codec.IcmpPacket) (data : Bytes) : Prop :=
  ∃ frame q, p.serialize = .ok frame ∧ deserialize frame = .ok (some q) ∧ Reproduces p q data

theorem length_serializeHdr (p : Codec.IcmpPacket) (checksum : UInt16) :
    (p.serializeHdr checksum).length = hdrSize := by
  simp [serializeHdr, hdrSize]

/-- What is in the frame of the packet. -/
def message (p : Codec.IcmpPacket) (data : Bytes) : Bytes := p.serializeHdr (wireChecksum p data) ++ data

theorem length_message (p : Codec.IcmpPacket) (data : Bytes) :
    (message p data).length = hdrSize + data.length := by
  rw [message, List.length_append, length_serializeHdr]

theorem serialize_eq (hoptions : p.ipOptions.size = 0) (hcontent : p.data.content = .ok data)
    (hfits : Codec.IpPacket.hdrSize + (hdrSize + data.length) < 2 ^ 16)
    (htype : p.ethertypeToPack = .ok ethertype) :
    p.serialize = .ok (frameOf p.toIpPacket ethertype (message p data)) := by
  have hlen : (p.serializeHdr 0 ++ data).length = hdrSize + data.length := by
    rw [List.length_append, length_serializeHdr]
  have hspecial : p.serializeSpecial (p.serializeHdr 0 ++ data) =
      .ok (frameOf p.toIpPacket ethertype (p.serializeHdr 0 ++ data)) := by
    refine serializeSpecial_eq hoptions htype ?_ ?_
    · rw [hlen, hdrSize]
      omega
    · rw [hlen]
      exact hfits
  have hplace : (frameOf p.toIpPacket ethertype (p.serializeHdr 0 ++ data)).length - p.data.size - 6 =
      p.ethHdrLen + Codec.IpPacket.hdrSize + [p.icmpPktType, p.code].length := by
    rw [frameOf, List.length_append, List.length_append, hlen, length_header, IpCodec.length_serializeHdr,
      size_of_content hcontent, hdrSize, List.length_cons, List.length_cons, List.length_nil]
    omega
  rw [serialize, hcontent, ok_bind, hspecial, ok_bind]
  dsimp only
  rw [← be16_swapBytes, hplace, message]
  simp only [serializeHdr, List.append_assoc]
  exact overwrite_frameOf rfl (by rw [length_be16, length_be16])

/-- The IP packet that an ICMP packet was accepted in. -/
theorem ip_of_deserialize (h : deserialize b = .ok (some q)) :
    Codec.IpPacket.deserialize b = .ok (some q.toIpPacket) := by
  obtain ⟨ip?, hip, h⟩ := bind_eq_ok.mp h
  cases ip? with
  | none => cases h
  | some ip =>
      dsimp only at h
      split at h
      · cases h
      · obtain ⟨icmpPktType, -, h⟩ := bind_eq_ok.mp h
        obtain ⟨code, -, h⟩ := bind_eq_ok.mp h
        obtain ⟨checksum, -, h⟩ := bind_eq_ok.mp h
        obtain ⟨icmpHdrRest, -, h⟩ := bind_eq_ok.mp h
        obtain rfl := Option.some.inj (Except.ok.inj h)
        exact hip

/-- What is in the IP packet is read as it was written. -/
theorem deserialize_of_ip {ip : Codec.IpPacket} (h : Codec.IpPacket.deserialize b = .ok (some ip))
    (hpayload : ip.ipPayload = ⟨message p data, (message p data).length⟩) :
    ∃ q, deserialize b = .ok (some q) ∧ q.toIpPacket = ip ∧ q.icmpPktType = p.icmpPktType ∧ q.code = p.code ∧
      q.checksum = wireChecksum p data ∧ q.icmpHdrRest = p.icmpHdrRest ∧ q.data.content = .ok data := by
  have hbehind : (message p data).drop hdrSize = data := List.drop_left' (length_serializeHdr p _)
  rw [deserialize, h]
  simp only [ok_bind, hpayload, length_message, hbehind]
  rw [if_neg (by omega)]
  simp (disch := simp) only [message, serializeHdr, List.append_assoc, List.cons_append, List.nil_append,
    readU8_cons, readU8_cons_succ, readU16_cons_succ, readU32_cons_succ, readU32_append_right, length_be16,
    Nat.reduceSub, readU16_be16, readU32_be32, ok_bind]
  exact ⟨_, rfl, rfl, rfl, rfl, rfl, rfl, content_behind rfl (Nat.add_sub_cancel_left _ _) rfl⟩

theorem roundTrips_iff (h : InDomain p data) : RoundTrips p data ↔ HeaderSurvives p.toIpPacket := by
  have hfits : 20 + (message p data).length < 2 ^ 16 := by
    rw [length_message]
    exact h.fits
  refine ⟨?_, ?_⟩
  · intro ⟨frame, q, hser, hdes, hsame⟩
    obtain ⟨_, -, hser'⟩ := bind_eq_ok.mp hser
    obtain ⟨_, hspecial, -⟩ := bind_eq_ok.mp hser'
    obtain ⟨ethertype, htype⟩ := ethertype_of_serializeSpecial hspecial
    obtain rfl := Except.ok.inj ((serialize_eq h.width.ipOptions h.content h.fits htype).symm.trans hser)
    have hip := hsame.ip
    rw [← length_message p] at hip
    exact (survives_of_reproduces h.width htype hfits (ip_of_deserialize hdes) hip).1
  · intro hsurvives
    obtain ⟨ethertype, htype, _⟩ := hsurvives.type
    obtain ⟨ip, hdes, hip, hpayload⟩ := exists_reproduces (message p data) h.width hfits hsurvives htype
    obtain ⟨q, hq, rfl, hpkttype, hcode, hchecksum, hrest, hcontent⟩ := deserialize_of_ip hdes hpayload
    rw [length_message] at hip
    exact ⟨_, q, serialize_eq h.width.ipOptions h.content h.fits htype, hq, hip, hpkttype, hcode,
      hchecksum, hrest, hcontent⟩

end Icmp

/-! ## TCP -/

namespace Tcp

open Codec.TcpPacket

variable {p q : Codec.TcpPacket} {options payload : Bytes}

/--
A packet whose fields are in their width, with up to 40 bytes of options, in multiples
of four, and with a payload that fits.
-/
structure InDomain (p : Codec.TcpPacket) (options payload : Bytes) : Prop where
  width : InWidth p.toIpPacket
  optionsContent : p.options.content = .ok options
  payloadContent : p.payload.content = .ok payload
  aligned : options.length % 4 = 0
  short : options.length ≤ 40
  fits : Codec.IpPacket.hdrSize + (hdrSize + options.length + payload.length) < 2 ^ 16

/-- The checksum that goes into the frame. -/
def wireChecksum (p : Codec.TcpPacket) (options payload : Bytes) : UInt16 :=
  checksumTcp p.srcIp p.destIp (p.serializeHdr 0) (options ++ payload)

/--
The fields that have to come back: all but the URG flag and the urgent pointer, which are
ignored, and the checksum as that of the segment that is packed.
-/
structure Reproduces (p q : Codec.TcpPacket) (options payload : Bytes) : Prop where
  ip : IpCodec.Reproduces p.toIpPacket q.toIpPacket (hdrSize + options.length + payload.length)
  srcPort : q.srcPort = p.srcPort
  destPort : q.destPort = p.destPort
  seq : q.seq = p.seq
  ack : q.ack = p.ack
  nsFlag : q.nsFlag = p.nsFlag
  cwrFlag : q.cwrFlag = p.cwrFlag
  eceFlag : q.eceFlag = p.eceFlag
  ackFlag : q.ackFlag = p.ackFlag
  pshFlag : q.pshFlag = p.pshFlag
  rstFlag : q.rstFlag = p.rstFlag
  synFlag : q.synFlag = p.synFlag
  finFlag : q.finFlag = p.finFlag
  windowSize : q.windowSize = p.windowSize
  tcpChecksum : q.tcpChecksum = wireChecksum p options payload
  options : q.options.content = .ok options
  payload : q.payload.content = .ok payload

/-- The packet comes back from the frame it is packed into. -/
def RoundTrips (p : Codec.TcpPacket) (options payload : Bytes) : Prop :=
  ∃ frame q, p.serialize = .ok frame ∧ deserialize frame = .ok (some q) ∧ Reproduces p q options payload

/-- What is parsed for options: bytes of the header from the number that is acknowledged on. -/
def optionsRead (p : Codec.TcpPacket) (options payload : Bytes) : Bytes :=
  ((p.serializeHdr (wireChecksum p options payload)).drop sizeofPtr ++ options).take options.length

theorem length_serializeHdr (p : Codec.TcpPacket) (checksum : UInt16) :
    (p.serializeHdr checksum).length = hdrSize := by
  simp [serializeHdr, hdrSize]

/-- What is in the frame of the packet. -/
def segment (p : Codec.TcpPacket) (options payload : Bytes) : Bytes :=
  p.serializeHdr (wireChecksum p options payload) ++ (options ++ payload)

theorem length_segment (p : Codec.TcpPacket) (options payload : Bytes) :
    (segment p options payload).length = hdrSize + options.length + payload.length := by
  rw [segment, List.length_append, List.length_append, length_serializeHdr, Nat.add_assoc]

theorem serialize_eq (hipOptions : p.ipOptions.size = 0) (hoptions : p.options.content = .ok options)
    (hpayload : p.payload.content = .ok payload)
    (hfits : Codec.IpPacket.hdrSize + (hdrSize + options.length + payload.length) < 2 ^ 16)
    (htype : p.ethertypeToPack = .ok ethertype) :
    p.serialize = .ok (frameOf p.toIpPacket ethertype (segment p options payload)) := by
  have hlen :
      (p.serializeHdr 0 ++ (options ++ payload)).length = hdrSize + options.length + payload.length := by
    rw [List.length_append, List.length_append, length_serializeHdr, Nat.add_assoc]
  have hspecial : p.serializeSpecial (p.serializeHdr 0 ++ (options ++ payload)) =
      .ok (frameOf p.toIpPacket ethertype (p.serializeHdr 0 ++ (options ++ payload))) := by
    refine serializeSpecial_eq hipOptions htype ?_ ?_
    · rw [hlen, hdrSize]
      omega
    · rw [hlen]
      exact hfits
  rw [serialize, hoptions, ok_bind, hpayload, ok_bind, hspecial, ok_bind]
  dsimp only
  rw [← wireChecksum, segment]
  -- the checksum is behind the first 16 bytes of the header
  have hparts : ∀ checksum, p.serializeHdr checksum ++ (options ++ payload) =
      (be16 p.srcPort ++ be16 p.destPort ++ be32 p.seq ++ be32 p.ack ++ [p.dataOffsetReserved, p.flags] ++
        be16 p.windowSize) ++ (be16 checksum ++ (be16 0 ++ (options ++ payload))) := by
    intro checksum
    simp only [serializeHdr, List.append_assoc]
  rw [hparts, hparts]
  exact overwrite_frameOf (by simp [Codec.IpPacket.hdrSize]) (by rw [length_be16, length_be16])

/-- The IP packet that a TCP packet was accepted in. -/
theorem ip_of_deserialize (h : deserialize b = .ok (some q)) :
    Codec.IpPacket.deserialize b = .ok (some q.toIpPacket) := by
  obtain ⟨ip?, hip, h⟩ := bind_eq_ok.mp h
  cases ip? with
  | none => cases h
  | some ip =>
      dsimp only at h
      split at h
      · cases h
      · obtain ⟨srcPort, -, h⟩ := bind_eq_ok.mp h
        obtain ⟨destPort, -, h⟩ := bind_eq_ok.mp h
        obtain ⟨seq, -, h⟩ := bind_eq_ok.mp h
        obtain ⟨ack, -, h⟩ := bind_eq_ok.mp h
        obtain ⟨dataOffsetReserved, -, h⟩ := bind_eq_ok.mp h
        obtain ⟨flags, -, h⟩ := bind_eq_ok.mp h
        obtain ⟨windowSize, -, h⟩ := bind_eq_ok.mp h
        obtain ⟨tcpChecksum, -, h⟩ := bind_eq_ok.mp h
        obtain ⟨urgentPtr, -, h⟩ := bind_eq_ok.mp h
        obtain rfl := Option.some.inj (Except.ok.inj h)
        exact hip

/-- The length of the header in words, and the NS flag behind it. -/
theorem dataOffset_eq : ∀ words ∈ List.range 11, ∀ ns : Bool,
    let byte := (UInt8.ofNat (5 + words) <<< 4) ||| (if ns then 1 else 0)
    (byte >>> 4).toNat = 5 + words ∧ (byte &&& 0x01 != 0) = ns := by
  decide

/-- Each flag has a bit to itself. -/
theorem flags_eq (p : Codec.TcpPacket) : (p.flags &&& 0x80 != 0) = p.cwrFlag ∧
    (p.flags &&& 0x40 != 0) = p.eceFlag ∧ (p.flags &&& 0x10 != 0) = p.ackFlag ∧
    (p.flags &&& 0x08 != 0) = p.pshFlag ∧ (p.flags &&& 0x04 != 0) = p.rstFlag ∧
    (p.flags &&& 0x02 != 0) = p.synFlag ∧ (p.flags &&& 0x01 != 0) = p.finFlag := by
  unfold flags
  generalize p.cwrFlag = cwr, p.eceFlag = ece, p.ackFlag = ack, p.pshFlag = psh, p.rstFlag = rst,
    p.synFlag = syn, p.finFlag = fin
  revert cwr ece ack psh rst syn fin
  decide

/-- The fields of the header are read as they were written. -/
theorem segment_fields (p : Codec.TcpPacket) (options payload : Bytes) :
    readU16 (segment p options payload) 0 = .ok p.srcPort ∧
      readU16 (segment p options payload) 2 = .ok p.destPort ∧
      readU32 (segment p options payload) 4 = .ok p.seq ∧
      readU32 (segment p options payload) 8 = .ok p.ack ∧
      readU8 (segment p options payload) 12 = .ok p.dataOffsetReserved ∧
      readU8 (segment p options payload) 13 = .ok p.flags ∧
      readU16 (segment p options payload) 14 = .ok p.windowSize ∧
      readU16 (segment p options payload) 16 = .ok (wireChecksum p options payload) ∧
      readU16 (segment p options payload) 18 = .ok 0 := by
  simp (disch := simp) only [segment, serializeHdr, List.append_assoc, readU16_append_right,
    readU32_append_right, readU8_append_right, length_be16, length_be32, Nat.reduceSub, Nat.sub_self,
    List.cons_append, List.nil_append, readU16_cons_succ, readU8_cons_succ, readU8_cons, readU16_be16,
    readU32_be32, and_self]

/-- What is behind the header in the place where the options are looked for. -/
theorem drop_segment (p : Codec.TcpPacket) (options payload : Bytes) :
    (segment p options payload).drop sizeofPtr =
      (p.serializeHdr (wireChecksum p options payload)).drop sizeofPtr ++ (options ++ payload) := by
  rw [segment, List.drop_append_of_le_length]
  rw [length_serializeHdr]
  decide

/-- The options that are parsed, of a segment whose header is of the right length. -/
def optionsAt (p : Codec.TcpPacket) (options payload : Bytes) : Autobuf :=
  if 5 + options.length / 4 > 5 then
    ⟨(segment p options payload).drop sizeofPtr, (5 + options.length / 4 - 5) * 4⟩
  else Autobuf.empty

theorem size_optionsAt (haligned : options.length % 4 = 0) :
    (optionsAt p options payload).size = options.length := by
  unfold optionsAt
  split
  · change (5 + options.length / 4 - 5) * 4 = options.length
    omega
  · change 0 = options.length
    omega

theorem content_optionsAt (haligned : options.length % 4 = 0) :
    (optionsAt p options payload).content = .ok (optionsRead p options payload) := by
  have hsize : (optionsAt p options payload).size = options.length := size_optionsAt haligned
  by_cases hwords : 5 + options.length / 4 > 5
  · have hat : (optionsAt p options payload).memory = (segment p options payload).drop sizeofPtr :=
      congrArg Autobuf.memory (if_pos hwords)
    -- the options are cut from bytes of the header, and from the options behind them
    have hroom : options.length ≤
        ((p.serializeHdr (wireChecksum p options payload)).drop sizeofPtr ++ options).length := by
      rw [List.length_append]
      exact Nat.le_add_left _ _
    rw [Autobuf.content, hsize, hat, drop_segment, ← List.append_assoc, slice_ok, List.drop_zero,
      List.take_append_of_le_length hroom]
    · rfl
    · rw [List.length_append]
      omega
  · have hnone : options.length = 0 := by omega
    rw [hnone] at hsize
    rw [content_of_size_zero hsize, optionsRead, hnone, List.take_zero]

theorem content_payload (haligned : options.length % 4 = 0) {n : Nat} (hn : n = options.length)
    (hfits : 20 + options.length + payload.length < 2 ^ 32) :
    (if 20 + options.length + payload.length > (5 + options.length / 4) * 4 then
        (⟨(segment p options payload).drop ((5 + options.length / 4) * 4),
          subU32 (subU32 (20 + options.length + payload.length) n) 20⟩ : Autobuf)
      else Autobuf.empty).content = .ok payload := by
  have hwords : (5 + options.length / 4) * 4 = 20 + options.length := by omega
  have hrest : subU32 (subU32 (20 + options.length + payload.length) n) 20 = payload.length := by
    have hfirst : subU32 (20 + options.length + payload.length) n = 20 + payload.length := by
      rw [hn, subU32_of_le (by omega) (by omega)]
      omega
    rw [hfirst, subU32_of_le (Nat.le_add_right _ _) (by omega), Nat.add_sub_cancel_left]
  have hbehind : (segment p options payload).drop (20 + options.length) = payload := by
    rw [segment, ← List.append_assoc]
    refine List.drop_left' ?_
    rw [List.length_append, length_serializeHdr]
    rfl
  rw [hwords]
  exact content_behind rfl hrest hbehind

/-- What is in the IP packet is read as it was written, but for the options. -/
theorem deserialize_of_ip {ip : Codec.IpPacket} (hdomain : InDomain p options payload)
    (h : Codec.IpPacket.deserialize b = .ok (some ip))
    (hpayload : ip.ipPayload = ⟨segment p options payload, (segment p options payload).length⟩) :
    ∃ q, deserialize b = .ok (some q) ∧ q.toIpPacket = ip ∧
      q.options.content = .ok (optionsRead p options payload) ∧
      (IpCodec.Reproduces p.toIpPacket ip (hdrSize + options.length + payload.length) →
        q.options.content = .ok options → Reproduces p q options payload) := by
  have haligned := hdomain.aligned
  have hshort := hdomain.short
  have hfits := hdomain.fits
  have hlen := length_segment p options payload
  simp only [hdrSize, Codec.IpPacket.hdrSize] at hlen hfits
  obtain ⟨hsrc, hdest, hseq, hack, hres, hflags, hwindow, hchecksum, hurgent⟩ :=
    segment_fields p options payload
  obtain ⟨hcwr, hece, hackFlag, hpsh, hrst, hsyn, hfin⟩ := flags_eq p
  obtain ⟨hoffset, hns⟩ : (p.dataOffsetReserved >>> 4).toNat = 5 + options.length / 4 ∧
      (p.dataOffsetReserved &&& 0x01 != 0) = p.nsFlag := by
    rw [dataOffsetReserved, size_of_content hdomain.optionsContent]
    exact dataOffset_eq _ (List.mem_range.mpr (by omega)) _
  rw [deserialize, h]
  simp only [ok_bind, hpayload, hlen, hdrSize]
  rw [if_neg (by omega), hsrc, hdest, hseq, hack, hres, hflags, hwindow, hchecksum, hurgent]
  simp only [ok_bind, hoffset, hns, hcwr, hece, hackFlag, hpsh, hrst, hsyn, hfin]
  refine ⟨_, rfl, rfl, ?_, ?_⟩
  · exact content_optionsAt haligned
  · intro hip hoptions
    refine ⟨hip, rfl, rfl, rfl, rfl, rfl, rfl, rfl, rfl, rfl, rfl, rfl, rfl, rfl, rfl, hoptions, ?_⟩
    exact content_payload haligned (by exact size_optionsAt haligned) (by omega)

/-- **When a TCP packet comes back.** -/
theorem roundTrips_iff (h : InDomain p options payload) :
    RoundTrips p options payload ↔ HeaderSurvives p.toIpPacket ∧ optionsRead p options payload = options := by
  have hfits : 20 + (segment p options payload).length < 2 ^ 16 := by
    rw [length_segment]
    exact h.fits
  refine ⟨?_, ?_⟩
  · intro ⟨frame, q, hser, hdes, hsame⟩
    obtain ⟨_, -, hser'⟩ := bind_eq_ok.mp hser
    obtain ⟨_, -, hser'⟩ := bind_eq_ok.mp hser'
    obtain ⟨_, hspecial, -⟩ := bind_eq_ok.mp hser'
    obtain ⟨ethertype, htype⟩ := ethertype_of_serializeSpecial hspecial
    have hframe := serialize_eq h.width.ipOptions h.optionsContent h.payloadContent h.fits htype
    obtain rfl := Except.ok.inj (hframe.symm.trans hser)
    have hip := hsame.ip
    rw [← length_segment p] at hip
    obtain ⟨hsurvives, hpayload⟩ := survives_of_reproduces h.width htype hfits (ip_of_deserialize hdes) hip
    obtain ⟨q', hq', -, hoptions, -⟩ := deserialize_of_ip h (ip_of_deserialize hdes) hpayload
    obtain rfl := Option.some.inj (Except.ok.inj (hdes.symm.trans hq'))
    exact ⟨hsurvives, Except.ok.inj (hoptions.symm.trans hsame.options)⟩
  · intro ⟨hsurvives, hoptions⟩
    obtain ⟨ethertype, htype, _⟩ := hsurvives.type
    obtain ⟨ip, hdes, hip, hpayload⟩ :=
      exists_reproduces (segment p options payload) h.width hfits hsurvives htype
    obtain ⟨q, hq, rfl, hread, hsame⟩ := deserialize_of_ip h hdes hpayload
    rw [length_segment] at hip
    exact ⟨_, q, serialize_eq h.width.ipOptions h.optionsContent h.payloadContent h.fits htype, hq,
      hsame hip (hread.trans (congrArg Except.ok hoptions))⟩

end Tcp

/-! ## All of them -/

/-- A packet of one of the four classes, with what is in its buffers. -/
inductive Packet where
  | ip (p : Codec.IpPacket) (ipPayload : Bytes)
  | tcp (p : Codec.TcpPacket) (options payload : Bytes)
  | udp (p : Codec.UdpPacket) (udpPayload : Bytes)
  | icmp (p : Codec.IcmpPacket) (data : Bytes)

namespace Packet

/-- The fields are in their width, there are no IP options, and the payload fits. -/
def InDomain : Packet → Prop
  | ip p ipPayload => Ip.InDomain p ipPayload
  | tcp p options payload => Tcp.InDomain p options payload
  | udp p udpPayload => Udp.InDomain p udpPayload
  | icmp p data => Icmp.InDomain p data

/-- The packet comes back from the frame it is packed into. -/
def RoundTrips : Packet → Prop
  | ip p _ => Ip.RoundTrips p
  | tcp p options payload => Tcp.RoundTrips p options payload
  | udp p _ => Udp.RoundTrips p
  | icmp p data => Icmp.RoundTrips p data

/-- The packets that come back. -/
def Survives : Packet → Prop
  | ip p _ => IpCodec.HeaderSurvives p
  | tcp p options payload => IpCodec.HeaderSurvives p.toIpPacket ∧ Tcp.optionsRead p options payload = options
  | udp p _ => IpCodec.HeaderSurvives p.toIpPacket
  | icmp p _ => IpCodec.HeaderSurvives p.toIpPacket

end Packet

/--
**Which packets come back from their frames.** Those of a type that is parsed, with a
DSCP of 0, the identification of a new packet, a fragment offset of two equal bytes,
and TCP options that are not there or repeat the header.
-/
theorem packet_roundTrips_iff (p : Packet) (h : p.InDomain) : p.RoundTrips ↔ p.Survives := by
  cases p with
  | ip p ipPayload => exact Ip.roundTrips_iff h
  | tcp p options payload => exact Tcp.roundTrips_iff h
  | udp p udpPayload => exact Udp.roundTrips_iff h
  | icmp p data => exact Icmp.roundTrips_iff h

/-- A tagged segment with options that repeat the number it acknowledges. -/
def repeatingSegment : Codec.TcpPacket where
  hasVlanTag := true
  vlanPcp := 5
  vlanId := 4095
  ecn := 1
  moreFragments := true
  fragmentOffset := 0x0101
  ack := 0x01010402
  ackFlag := true
  pshFlag := true
  options := .ofBytes [1, 1, 4, 2]
  payload := .ofBytes [104, 105]

theorem packet_roundTrips_repeatingSegment :
    (Packet.tcp repeatingSegment [1, 1, 4, 2] [104, 105]).RoundTrips :=
  (packet_roundTrips_iff (.tcp repeatingSegment [1, 1, 4, 2] [104, 105])
    ⟨⟨fun _ => ⟨by decide, by decide⟩, rfl, rfl, by decide, by decide, by decide, rfl⟩, rfl, rfl, rfl,
      by decide, by decide⟩).mpr
    ⟨⟨⟨0x0800, rfl, .inr (.inr ⟨rfl, by decide⟩)⟩, rfl, rfl, rfl⟩, rfl⟩

/-- A datagram for expedited forwarding. -/
def expeditedDatagram : Codec.UdpPacket where
  dscp := 46

/-- Its DSCP does not come back. -/
theorem expeditedDatagram_lost : ¬ ∀ p : Packet, p.InDomain → p.RoundTrips := by
  intro h
  have hdomain : Udp.InDomain expeditedDatagram [] :=
    ⟨⟨nofun, rfl, rfl, by decide, by decide, by decide, rfl⟩, rfl, by decide⟩
  have hsurvives := (Udp.roundTrips_iff hdomain).mp (h (.udp expeditedDatagram []) hdomain)
  exact absurd hsurvives.dscp (by decide)

end PacketCodec

end IronStack.Proof
