import IronStack.Net.PacketCodec
import IronStack.Proof.Ethernet

/-!
# The IP header, there and back

Of the fields of an IP header, three come back wrong for most of their values. The
DSCP is packed two bits lower than the place it is parsed from, so that only 0 comes
back. The identification is parsed into a variable that goes out of scope, and the
packet keeps the one it was made with. The two bytes of the fragment offset are
parsed the wrong way round. All else comes back, with the checksum of the header.
-/

namespace IronStack.Proof

open Lib

namespace IpCodec

open Codec IronStack.Proof.RawPacket

variable {p q : Codec.IpPacket} {b body : Bytes} {ethertype checksum : UInt16} {n : Nat}

/-! ## Fields in a byte -/

/-- DSCP and ECN share a byte, which the upper bits of the DSCP are shifted out of. -/
theorem toNat_dscpEcn {dscp ecn : UInt8} (hecn : ecn < 4) :
    ((dscp <<< 6) ||| (ecn &&& 0x03)).toNat = dscp.toNat % 4 * 64 + ecn.toNat := by
  have hecn' : ecn.toNat < 4 := UInt8.lt_iff_toNat_lt.mp hecn
  have hmask : (ecn &&& 0x03).toNat = ecn.toNat := by
    rw [UInt8.toNat_and]
    exact (Nat.and_two_pow_sub_one_eq_mod ecn.toNat 2).trans (Nat.mod_eq_of_lt hecn')
  have hshift : (dscp <<< 6).toNat = (dscp.toNat % 4) <<< 6 := by
    simp only [UInt8.toNat_shiftLeft, UInt8.reduceToNat, Nat.reduceMod, Nat.shiftLeft_eq]
    omega
  rw [UInt8.toNat_or, hmask, hshift, ← Nat.shiftLeft_add_eq_or_of_lt (show ecn.toNat < 2 ^ 6 by omega),
    Nat.shiftLeft_eq]

/-- **The DSCP** comes back only if it is 0. -/
theorem dscp_eq_iff {dscp ecn : UInt8} (hdscp : dscp < 64) (hecn : ecn < 4) :
    ((dscp <<< 6) ||| (ecn &&& 0x03)) >>> 2 = dscp ↔ dscp = 0 := by
  have hdscp' : dscp.toNat < 64 := UInt8.lt_iff_toNat_lt.mp hdscp
  have hecn' : ecn.toNat < 4 := UInt8.lt_iff_toNat_lt.mp hecn
  rw [← UInt8.toNat_inj, ← UInt8.toNat_inj]
  simp only [UInt8.toNat_shiftRight, UInt8.reduceToNat, Nat.reduceMod, Nat.shiftRight_eq_div_pow,
    toNat_dscpEcn hecn]
  omega

theorem ecn_eq {dscp ecn : UInt8} (hecn : ecn < 4) : ((dscp <<< 6) ||| (ecn &&& 0x03)) &&& 0x03 = ecn := by
  have hecn' : ecn.toNat < 4 := UInt8.lt_iff_toNat_lt.mp hecn
  apply UInt8.toNat_inj.mp
  rw [UInt8.toNat_and, toNat_dscpEcn hecn]
  refine (Nat.and_two_pow_sub_one_eq_mod _ 2).trans ?_
  omega

/-- The flags are told from the bits of the fragment offset that are behind them. -/
theorem flags_eq : ∀ high ∈ List.range 32, ∀ dontFragment moreFragments : Bool,
    let byte := UInt8.ofNat high ||| (if dontFragment then 0x40 else 0) |||
      (if moreFragments then 0x20 else 0)
    byte >>> 7 = 0 ∧ ((byte >>> 6) &&& 1 != 0) = dontFragment ∧ ((byte >>> 5) &&& 1 != 0) = moreFragments ∧
      (byte &&& 0x1f) = UInt8.ofNat high := by
  decide

/-- The upper bits of a fragment offset that is not too long. -/
theorem fragmentOffset_high {offset : UInt16} (h : offset < 8192) :
    ((offset >>> 8) &&& 0x1f).toUInt8 = UInt8.ofNat (offset.toNat / 256) := by
  have hlt : offset.toNat < 8192 := UInt16.lt_iff_toNat_lt.mp h
  apply UInt8.toNat_inj.mp
  simp only [UInt16.toNat_toUInt8, UInt16.toNat_and, UInt16.toNat_shiftRight, UInt16.reduceToNat,
    Nat.reduceMod, UInt8.toNat_ofNat', Nat.shiftRight_eq_div_pow, Nat.reducePow]
  rw [show 31 = 2 ^ 5 - 1 from rfl, Nat.and_two_pow_sub_one_eq_mod]
  omega

/-- **The fragment offset** comes back if its two bytes are alike. -/
theorem fragmentOffset_eq_iff {offset : UInt16} (h : offset < 8192) :
    (offset.toUInt8.toUInt16 <<< 8) + (UInt8.ofNat (offset.toNat / 256)).toUInt16 = offset ↔
      offset.toNat % 256 = offset.toNat / 256 := by
  have hlt : offset.toNat < 8192 := UInt16.lt_iff_toNat_lt.mp h
  rw [← UInt16.toNat_inj]
  simp only [UInt16.toNat_add, UInt16.toNat_shiftLeft, UInt8.toNat_toUInt16, UInt16.toNat_toUInt8,
    UInt8.toNat_ofNat', UInt16.reduceToNat, Nat.reduceMod, Nat.shiftLeft_eq, Nat.reducePow]
  have hlow : offset.toNat % 256 < 256 := Nat.mod_lt _ (by decide)
  have hhigh : offset.toNat / 256 < 32 := by omega
  have hsplit := Nat.div_add_mod offset.toNat 256
  generalize offset.toNat % 256 = low at *
  generalize offset.toNat / 256 = high at *
  rw [Nat.mod_eq_of_lt (show low * 256 < 65536 by omega), Nat.mod_eq_of_lt (show high < 256 by omega),
    Nat.mod_eq_of_lt (show low * 256 + high < 65536 by omega)]
  omega

theorem flagsFragOffset_eq (h : p.fragmentOffset < 8192) : p.flagsFragOffset >>> 7 = 0 ∧
    ((p.flagsFragOffset >>> 6) &&& 1 != 0) = p.dontFragment ∧
    ((p.flagsFragOffset >>> 5) &&& 1 != 0) = p.moreFragments ∧
    (p.flagsFragOffset &&& 0x1f) = UInt8.ofNat (p.fragmentOffset.toNat / 256) := by
  have hlt : p.fragmentOffset.toNat < 8192 := UInt16.lt_iff_toNat_lt.mp h
  rw [Codec.IpPacket.flagsFragOffset, fragmentOffset_high h]
  exact flags_eq _ (List.mem_range.mpr (by omega)) _ _

/-! ## The header -/

/-- What the fields of the header have room for, in a packet without options. -/
structure InWidth (p : Codec.IpPacket) : Prop where
  tag : TagInWidth p.toRawPacket
  version : p.version = 4
  ihl : p.ihl = 5
  dscp : p.dscp < 64
  ecn : p.ecn < 4
  fragmentOffset : p.fragmentOffset < 8192
  ipOptions : p.ipOptions.size = 0

/-- What comes back of a header, with this checksum and this payload. -/
def received (p : Codec.IpPacket) (raw : RawPacket) (checksum : UInt16) (ipPayload : Autobuf) :
    Codec.IpPacket :=
  { raw with
    version := 4
    ihl := 5
    dscp := ((p.dscp <<< 6) ||| (p.ecn &&& 0x03)) >>> 2
    ecn := p.ecn
    dontFragment := p.dontFragment
    moreFragments := p.moreFragments
    fragmentOffset := (p.fragmentOffset.toUInt8.toUInt16 <<< 8) +
      (UInt8.ofNat (p.fragmentOffset.toNat / 256)).toUInt16
    ttl := p.ttl
    protocol := p.protocol
    ipHdrChecksum := checksum
    srcIp := p.srcIp
    destIp := p.destIp
    ipPayload }

theorem length_serializeHdr (p : Codec.IpPacket) (n : Nat) (checksum : UInt16) :
    (p.serializeHdr n checksum).length = Codec.IpPacket.hdrSize := by
  simp [Codec.IpPacket.serializeHdr, Codec.IpPacket.hdrSize]

/-- The fields of the header are read as they were written. -/
theorem header_fields (p : Codec.IpPacket) (n : Nat) (checksum : UInt16) (body : Bytes) :
    readU8 (p.serializeHdr n checksum ++ body) 0 = .ok ((p.version <<< 4) ||| (p.ihl &&& 0x0f)) ∧
      readU8 (p.serializeHdr n checksum ++ body) 1 = .ok ((p.dscp <<< 6) ||| (p.ecn &&& 0x03)) ∧
      readU16 (p.serializeHdr n checksum ++ body) 2 =
        .ok (UInt16.ofNat (Codec.IpPacket.hdrSize + p.ipOptions.size + n)) ∧
      readU16 (p.serializeHdr n checksum ++ body) 4 = .ok p.identification ∧
      readU8 (p.serializeHdr n checksum ++ body) 6 = .ok p.flagsFragOffset ∧
      readU8 (p.serializeHdr n checksum ++ body) 7 = .ok p.fragmentOffset.toUInt8 ∧
      readU8 (p.serializeHdr n checksum ++ body) 8 = .ok p.ttl ∧
      readU8 (p.serializeHdr n checksum ++ body) 9 = .ok p.protocol ∧
      readU16 (p.serializeHdr n checksum ++ body) 10 = .ok checksum ∧
      readVec 4 (p.serializeHdr n checksum ++ body) 12 = .ok p.srcIp.octets ∧
      readVec 4 (p.serializeHdr n checksum ++ body) 16 = .ok p.destIp.octets := by
  simp (disch := simp) only [Codec.IpPacket.serializeHdr, List.append_assoc, readU16_append_right,
    readU8_append_right, readVec_append_right, Nat.sub_self, length_be16, Vector.length_toList, Nat.reduceSub,
    List.cons_append, List.nil_append, readU16_be16, readU8_cons, readU8_cons_succ, readU16_cons_succ,
    readVec_cons_succ, readVec_toList, and_self]

/-- The header is parsed behind the Ethernet header. -/
theorem deserialize_of_raw {raw : RawPacket} {hdr : Bytes} (hwidth : InWidth p)
    (hlen : hdr.length = raw.ethHdrLen) (hbody : body.length = n) (hfits : 20 + n < 2 ^ 16)
    (h : ({} : RawPacket).deserialize (hdr ++ (p.serializeHdr n checksum ++ body)) = .ok (true, raw)) :
    Codec.IpPacket.deserialize (hdr ++ (p.serializeHdr n checksum ++ body)) =
      .ok (some (received p raw checksum ⟨body, n⟩)) := by
  obtain ⟨hreserved, hdont, hmore, hhigh⟩ := flagsFragOffset_eq hwidth.fragmentOffset
  have hhdr : hdr.length ≤ 18 := by
    rw [hlen]
    exact ethHdrLen_le raw
  have hmemory :
      (hdr ++ (p.serializeHdr n checksum ++ body)).drop (hdr.length + Codec.IpPacket.hdrSize) = body := by
    rw [List.drop_length_add_append, List.drop_left' (length_serializeHdr p n checksum)]
  have hsize : subU32 (hdr ++ (p.serializeHdr n checksum ++ body)).length hdr.length = 20 + n := by
    rw [List.length_append, List.length_append, length_serializeHdr, hbody, Codec.IpPacket.hdrSize,
      subU32_of_le (by omega) (by omega)]
    omega
  have htotal : (UInt16.ofNat (Codec.IpPacket.hdrSize + p.ipOptions.size + n)).toNat = 20 + n := by
    rw [hwidth.ipOptions, UInt16.toNat_ofNat', Codec.IpPacket.hdrSize]
    exact Nat.mod_eq_of_lt (by omega)
  have hpayload : subU32 (20 + n) Codec.IpPacket.hdrSize = n := by
    rw [Codec.IpPacket.hdrSize, subU32_of_le (by omega) (by omega)]
    omega
  rw [Codec.IpPacket.deserialize, h]
  simp only [ok_bind, Bool.not_true, Bool.false_eq_true, if_false]
  rw [← hlen, hmemory, hsize]
  obtain ⟨h0, h1, h2, h4, h6, h7, h8, h9, h10, h12, h16⟩ := header_fields p n checksum body
  simp only [readU8_append_right, readU16_append_right, readVec_append_right, Nat.le_add_right, Nat.le_refl,
    Nat.add_sub_cancel_left, Nat.sub_self, h0, h1, h2, h4, h6, h7, h8, h9, h10, h12, h16, ok_bind]
  rw [hwidth.version, hwidth.ihl, htotal, hreserved, hdont, hmore, hhigh, ecn_eq hwidth.ecn, hpayload,
    if_neg (by decide), if_neg (by decide), if_neg (Nat.lt_irrefl _), if_neg (not_not_intro rfl)]
  rfl

/-! ## There and back -/

/-- The fields that have to come back, the checksum as that of the header that is packed. -/
structure Reproduces (p q : Codec.IpPacket) (n : Nat) : Prop where
  srcMac : q.srcMac = p.srcMac
  destMac : q.destMac = p.destMac
  tag : tag q.toRawPacket = tag p.toRawPacket
  ethertype : p.ethertypeToPack = .ok q.ethertype
  version : q.version = p.version
  ihl : q.ihl = p.ihl
  dscp : q.dscp = p.dscp
  ecn : q.ecn = p.ecn
  identification : q.identification = p.identification
  dontFragment : q.dontFragment = p.dontFragment
  moreFragments : q.moreFragments = p.moreFragments
  fragmentOffset : q.fragmentOffset = p.fragmentOffset
  ttl : q.ttl = p.ttl
  protocol : q.protocol = p.protocol
  ipHdrChecksum : q.ipHdrChecksum = Codec.IpPacket.checksumIp (p.serializeHdr n 0)
  srcIp : q.srcIp = p.srcIp
  destIp : q.destIp = p.destIp
  ipOptions : q.ipOptions.content = p.ipOptions.content

/-- The headers that come back. -/
structure HeaderSurvives (p : Codec.IpPacket) : Prop where
  type : ∃ ethertype, p.ethertypeToPack = .ok ethertype ∧ Taken ethertype p.protocol
  dscp : p.dscp = 0
  identification : p.identification = 54635
  fragmentOffset : p.fragmentOffset.toNat % 256 = p.fragmentOffset.toNat / 256

/-- The frame of a packet: its Ethernet header with some type, its header, and what is in it. -/
def frameOf (p : Codec.IpPacket) (ethertype : UInt16) (body : Bytes) : Bytes :=
  header p.toRawPacket ethertype ++
    (p.serializeHdr body.length (Codec.IpPacket.checksumIp (p.serializeHdr body.length 0)) ++ body)

theorem content_of_size_zero {buf : Autobuf} (h : buf.size = 0) : buf.content = .ok [] := by
  rw [Autobuf.content, h, slice_ok (Nat.zero_le _)]
  rfl

theorem serializeFront_eq (hoptions : p.ipOptions.size = 0) (htype : p.ethertypeToPack = .ok ethertype)
    (n : Nat) :
    p.serializeFront n = .ok (header p.toRawPacket ethertype ++
      p.serializeHdr n (Codec.IpPacket.checksumIp (p.serializeHdr n 0))) := by
  rw [Codec.IpPacket.serializeFront, serialize_of_type htype, content_of_size_zero hoptions]
  simp

/-- What is accepted was accepted by the Ethernet parser. -/
theorem deserialize_inv (h : Codec.IpPacket.deserialize b = .ok (some q)) :
    ({} : RawPacket).deserialize b = .ok (true, q.toRawPacket) := by
  rw [Codec.IpPacket.deserialize] at h
  obtain ⟨⟨status, raw⟩, hraw, h⟩ := bind_eq_ok.mp h
  cases status with
  | false => cases h
  | true =>
      simp only [Bool.not_true, Bool.false_eq_true, if_false] at h
      obtain ⟨versionIhl, -, h⟩ := bind_eq_ok.mp h
      split at h
      · cases h
      · split at h
        · cases h
        · obtain ⟨dscpEcn, -, h⟩ := bind_eq_ok.mp h
          obtain ⟨totalLen, -, h⟩ := bind_eq_ok.mp h
          split at h
          · cases h
          · obtain ⟨identification, -, h⟩ := bind_eq_ok.mp h
            obtain ⟨flagsFragOffset, -, h⟩ := bind_eq_ok.mp h
            split at h
            · cases h
            · obtain ⟨fragOffset, -, h⟩ := bind_eq_ok.mp h
              obtain ⟨ttl, -, h⟩ := bind_eq_ok.mp h
              obtain ⟨protocol, -, h⟩ := bind_eq_ok.mp h
              obtain ⟨ipHdrChecksum, -, h⟩ := bind_eq_ok.mp h
              obtain ⟨srcIp, -, h⟩ := bind_eq_ok.mp h
              obtain ⟨destIp, -, h⟩ := bind_eq_ok.mp h
              obtain rfl := Option.some.inj (Except.ok.inj h)
              exact hraw

/-- What comes back of a header comes back right in all but three fields. -/
theorem reproduces_received_iff {packetType : PacketType} (hwidth : InWidth p)
    (htype : p.ethertypeToPack = .ok ethertype) (ipPayload : Autobuf) :
    Reproduces p (received p { parsed {} p.toRawPacket ethertype with packetType }
      (Codec.IpPacket.checksumIp (p.serializeHdr n 0)) ipPayload) n ↔
    p.dscp = 0 ∧ p.identification = 54635 ∧
      p.fragmentOffset.toNat % 256 = p.fragmentOffset.toNat / 256 := by
  refine ⟨?_, ?_⟩
  · intro h
    exact ⟨(dscp_eq_iff hwidth.dscp hwidth.ecn).mp h.dscp, h.identification.symm,
      (fragmentOffset_eq_iff hwidth.fragmentOffset).mp h.fragmentOffset⟩
  · intro ⟨hdscp, hident, hoffset⟩
    refine ⟨rfl, rfl, ?_, htype, hwidth.version.symm, hwidth.ihl.symm, ?_, rfl, hident.symm, rfl, rfl, ?_,
      rfl, rfl, rfl, rfl, rfl, ?_⟩
    · change tag (parsed ({} : RawPacket) p.toRawPacket ethertype) = tag p.toRawPacket
      exact tag_parsed
    · exact (dscp_eq_iff hwidth.dscp hwidth.ecn).mpr hdscp
    · exact (fragmentOffset_eq_iff hwidth.fragmentOffset).mpr hoffset
    · exact (content_of_size_zero rfl).trans (content_of_size_zero hwidth.ipOptions).symm

/-- What the parser makes of the frame, whose type does not announce a tag that is not there. -/
theorem deserialize_frameOf (hwidth : InWidth p) (hannounced : ethertype ≠ 0x8100 ∨ p.hasVlanTag = true)
    (hfits : 20 + body.length < 2 ^ 16) :
    Taken ethertype p.protocol ∧
      Codec.IpPacket.deserialize (frameOf p ethertype body) = .ok (some (received p
        { parsed {} p.toRawPacket ethertype with packetType := frameType ethertype p.protocol }
        (Codec.IpPacket.checksumIp (p.serializeHdr body.length 0)) ⟨body, body.length⟩)) ∨
    ¬ Taken ethertype p.protocol ∧ Codec.IpPacket.deserialize (frameOf p ethertype body) = .ok none := by
  have hbyte : ∀ checksum, readU8 (p.serializeHdr body.length checksum ++ body) 9 = .ok p.protocol := by
    intro checksum
    simp (disch := simp) [Codec.IpPacket.serializeHdr, readU8_append_right]
  have hroom : ∀ checksum, 20 ≤ (p.serializeHdr body.length checksum ++ body).length := by
    intro checksum
    rw [List.length_append, length_serializeHdr]
    exact Nat.le_add_right _ _
  by_cases htaken : Taken ethertype p.protocol
  · refine .inl ⟨htaken, deserialize_of_raw hwidth (by exact length_header _ _) rfl hfits ?_⟩
    rw [deserialize_frame hwidth.tag hannounced (hroom _) (hbyte _),
      bne_iff_ne.mpr (frameType_ne_unknown.mpr htaken)]
  · refine .inr ⟨htaken, ?_⟩
    have hunknown := Decidable.not_not.mp (mt frameType_ne_unknown.mp htaken)
    rw [Codec.IpPacket.deserialize, frameOf,
      deserialize_frame hwidth.tag hannounced (hroom _) (hbyte _), hunknown]
    rfl

/-- A header that comes back is one that survives. -/
theorem survives_of_reproduces (hwidth : InWidth p) (htype : p.ethertypeToPack = .ok ethertype)
    (hfits : 20 + body.length < 2 ^ 16)
    (h : Codec.IpPacket.deserialize (frameOf p ethertype body) = .ok (some q))
    (hsame : Reproduces p q body.length) : HeaderSurvives p ∧ q.ipPayload = ⟨body, body.length⟩ := by
  have hannounced := announced_of_tag (deserialize_inv h) hsame.tag
  rcases deserialize_frameOf hwidth hannounced hfits with ⟨htaken, hsome⟩ | ⟨_, hnone⟩
  · rw [h] at hsome
    obtain rfl := Option.some.inj (Except.ok.inj hsome)
    obtain ⟨hdscp, hident, hoffset⟩ := (reproduces_received_iff hwidth htype _).mp hsame
    exact ⟨⟨⟨ethertype, htype, htaken⟩, hdscp, hident, hoffset⟩, rfl⟩
  · rw [h] at hnone
    cases hnone

/-- A header that survives comes back. -/
theorem exists_reproduces (body : Bytes) (hwidth : InWidth p) (hfits : 20 + body.length < 2 ^ 16)
    (h : HeaderSurvives p) (htype : p.ethertypeToPack = .ok ethertype) :
    ∃ q, Codec.IpPacket.deserialize (frameOf p ethertype body) = .ok (some q) ∧ Reproduces p q body.length ∧
      q.ipPayload = ⟨body, body.length⟩ := by
  obtain ⟨ethertype', htype', htaken⟩ := h.type
  obtain rfl := Except.ok.inj (htype.symm.trans htype')
  rcases deserialize_frameOf hwidth (.inl htaken.ne) hfits with ⟨_, hsome⟩ | ⟨hnot, _⟩
  · refine ⟨_, hsome, ?_, rfl⟩
    exact (reproduces_received_iff hwidth htype _).mpr ⟨h.dscp, h.identification, h.fragmentOffset⟩
  · exact absurd htaken hnot

/-! ## The packet as others see it -/

/-- What is looked at of a packet where only its address and its payload matter. -/
def view (ip : Codec.IpPacket) : IronStack.IpPacket := ⟨ip.destIp, ip.ipPayload⟩

theorem view_over {r : Read (Option Codec.IpPacket)} (h : r = .error .outOfBounds) :
    (.error .outOfBounds : Read (Option IronStack.IpPacket)) = r.map (Option.map view) := by
  rw [h]
  rfl

section View

variable {input : Bytes} {raw : RawPacket}

/-- Where the header is there all is read, and the same checks are made. -/
theorem deserialize_view_of_room (hraw : ({} : RawPacket).deserialize input = .ok (true, raw))
    (hroom : raw.ethHdrLen + 20 ≤ input.length) :
    IronStack.IpPacket.deserialize input = (Codec.IpPacket.deserialize input).map (Option.map view) := by
  rw [IronStack.IpPacket.deserialize, Codec.IpPacket.deserialize, hraw]
  simp only [ok_bind, Bool.not_true, Bool.false_eq_true, if_false]
  generalize raw.ethHdrLen = hdr at hroom
  obtain ⟨versionIhl, h0⟩ := exists_readU8 (show hdr + 1 ≤ input.length by omega)
  obtain ⟨dscpEcn, h1⟩ := exists_readU8 (show hdr + 1 + 1 ≤ input.length by omega)
  obtain ⟨totalLen, h2⟩ := exists_readU16 (show hdr + 2 + 2 ≤ input.length by omega)
  obtain ⟨identification, h4⟩ := exists_readU16 (show hdr + 4 + 2 ≤ input.length by omega)
  obtain ⟨flags, h6⟩ := exists_readU8 (show hdr + 6 + 1 ≤ input.length by omega)
  obtain ⟨fragOffset, h7⟩ := exists_readU8 (show hdr + 7 + 1 ≤ input.length by omega)
  obtain ⟨ttl, h8⟩ := exists_readU8 (show hdr + 8 + 1 ≤ input.length by omega)
  obtain ⟨protocol, h9⟩ := exists_readU8 (show hdr + 9 + 1 ≤ input.length by omega)
  obtain ⟨checksum, h10⟩ := exists_readU16 (show hdr + 10 + 2 ≤ input.length by omega)
  obtain ⟨srcIp, h12⟩ := exists_readVec (show hdr + 12 + 4 ≤ input.length by omega)
  obtain ⟨destIp, h16⟩ := exists_readVec (show hdr + 16 + 4 ≤ input.length by omega)
  rw [h0, h1, h2, h4, h6, h7, h8, h9, h10, h12, h16]
  simp only [ok_bind]
  split
  · rfl
  · split
    · rfl
    · split
      · rfl
      · split
        · rfl
        · rfl

/-- Where it is cut off both read past the end, unless they turn the packet down before. -/
theorem deserialize_view_of_cut (hraw : ({} : RawPacket).deserialize input = .ok (true, raw))
    (hcut : input.length < raw.ethHdrLen + 20) :
    IronStack.IpPacket.deserialize input = (Codec.IpPacket.deserialize input).map (Option.map view) := by
  rw [IronStack.IpPacket.deserialize, Codec.IpPacket.deserialize, hraw]
  simp only [ok_bind, Bool.not_true, Bool.false_eq_true, if_false]
  generalize raw.ethHdrLen = hdr at hcut
  have hdest : readVec 4 input (hdr + 16) = .error .outOfBounds := readVec_error (by omega)
  rw [hdest]
  by_cases h0 : input.length < hdr + 1
  · rw [readU8_error h0]
    rfl
  obtain ⟨versionIhl, h0⟩ := exists_readU8 (Nat.not_lt.mp h0)
  rw [h0]
  simp only [ok_bind]
  split
  · rfl
  split
  · rfl
  -- the version and the length of the header are in order, what follows may be missing
  by_cases h4 : input.length < hdr + 2 + 2
  · rw [readU16_error h4]
    refine view_over ?_
    exact (inBoundsOrOver_readU8 input (hdr + 1)).bind_over fun _ => rfl
  obtain ⟨dscpEcn, h1⟩ := exists_readU8 (show hdr + 1 + 1 ≤ input.length by omega)
  obtain ⟨totalLen, h2⟩ := exists_readU16 (Nat.not_lt.mp h4)
  rw [h1, h2]
  simp only [ok_bind]
  split
  · rfl
  by_cases h7 : input.length < hdr + 6 + 1
  · rw [readU8_error h7]
    refine view_over ?_
    exact (inBoundsOrOver_readU16 input (hdr + 4)).bind_over fun _ => rfl
  obtain ⟨identification, h4⟩ := exists_readU16 (show hdr + 4 + 2 ≤ input.length by omega)
  obtain ⟨flags, h6⟩ := exists_readU8 (Nat.not_lt.mp h7)
  rw [h4, h6]
  simp only [ok_bind]
  split
  · rfl
  refine view_over ?_
  refine (inBoundsOrOver_readU8 input (hdr + 7)).bind_over fun _ => ?_
  refine (inBoundsOrOver_readU8 input (hdr + 8)).bind_over fun _ => ?_
  refine (inBoundsOrOver_readU8 input (hdr + 9)).bind_over fun _ => ?_
  refine (inBoundsOrOver_readU16 input (hdr + 10)).bind_over fun _ => ?_
  exact (inBoundsOrOver_readVec 4 input (hdr + 12)).bind_over fun _ => rfl

end View

/-- **The two models of the parser agree**, also in where they read past the end. -/
theorem deserialize_view (input : Bytes) :
    IronStack.IpPacket.deserialize input = (Codec.IpPacket.deserialize input).map (Option.map view) := by
  obtain ⟨status, raw, hraw, -⟩ := exists_deserialize {} input
  cases status with
  | false =>
      rw [IronStack.IpPacket.deserialize, Codec.IpPacket.deserialize, hraw]
      rfl
  | true =>
      by_cases hroom : raw.ethHdrLen + 20 ≤ input.length
      · exact deserialize_view_of_room hraw hroom
      · exact deserialize_view_of_cut hraw (Nat.not_le.mp hroom)

end IpCodec

end IronStack.Proof
