import IronStack.Lib.Dot1q
import IronStack.Proof.PacketIsolation

/-!
# The Ethernet header, there and back

What `raw_packet` packs it parses again, with the tag if there is one, and what it
accepts it packs again to the byte. The word of a tag holds the priority, the drop
eligibility and the VLAN side by side, as one number.
-/

namespace IronStack.Proof

open Lib

namespace RawPacket

open IronStack.RawPacket

variable {raw before parsed' : RawPacket} {b body : Bytes} {ethertype : UInt16}

/-- The tag of a packet, if it has one. -/
def tag (raw : RawPacket) : Option (UInt8 × Bool × UInt16) :=
  if raw.hasVlanTag then some (raw.vlanPcp, raw.dei, raw.vlanId) else none

/-- What the fields of a tag have room for: three bits of priority and twelve of VLAN. -/
def TagInWidth (raw : RawPacket) : Prop := raw.hasVlanTag = true → raw.vlanPcp < 8 ∧ raw.vlanId < 4096

/-- The header that is packed with some type. -/
def header (raw : RawPacket) (ethertype : UInt16) : Bytes :=
  raw.destMac.addr.toList ++ (raw.srcMac.addr.toList ++
    ((if raw.hasVlanTag then be16 0x8100 ++ be16 raw.pcpDeiId else []) ++ be16 ethertype))

theorem serialize_of_type (h : raw.ethertypeToPack = .ok ethertype) :
    raw.serialize = .ok (header raw ethertype) := by
  rw [serialize, h, header]
  cases raw.hasVlanTag with
  | true => simp
  | false => simp

theorem serialize_eq_ok {out : Bytes} (h : raw.serialize = .ok out) :
    ∃ ethertype, raw.ethertypeToPack = .ok ethertype ∧ out = header raw ethertype := by
  cases htype : raw.ethertypeToPack with
  | error e =>
      rw [serialize, htype] at h
      cases h
  | ok ethertype =>
      rw [serialize_of_type htype] at h
      exact ⟨ethertype, rfl, (Except.ok.inj h).symm⟩

theorem length_header (raw : RawPacket) (ethertype : UInt16) :
    (header raw ethertype).length = raw.ethHdrLen := by
  rw [header, ethHdrLen]
  cases raw.hasVlanTag with
  | true => simp [taggedHdrSize]
  | false => simp [untaggedHdrSize]

theorem untaggedHdrSize_le (raw : RawPacket) : untaggedHdrSize ≤ raw.ethHdrLen := by
  rw [ethHdrLen]
  split
  · decide
  · exact Nat.le_refl _

theorem readU16_header (h : raw.hasVlanTag = false) :
    readU16 (header raw ethertype ++ body) 12 = .ok ethertype := by
  rw [header, h]
  simp (disch := simp) [readU16_append_right]

theorem ethHdrLen_le (raw : RawPacket) : raw.ethHdrLen ≤ taggedHdrSize := by
  rw [ethHdrLen]
  split
  · exact Nat.le_refl _
  · decide

/-! ## The word of the tag -/

theorem toNat_pcpDeiId (hpcp : raw.vlanPcp < 8) (hid : raw.vlanId < 4096) :
    raw.pcpDeiId.toNat = raw.vlanPcp.toNat * 2 ^ 13 + (if raw.dei then 2 ^ 12 else 0) + raw.vlanId.toNat := by
  have hpcp' : raw.vlanPcp.toNat < 8 := UInt8.lt_iff_toNat_lt.mp hpcp
  have hid' : raw.vlanId.toNat < 2 ^ 12 := UInt16.lt_iff_toNat_lt.mp hid
  have hmask : raw.vlanPcp.toNat &&& 7 = raw.vlanPcp.toNat := by
    rw [Nat.and_two_pow_sub_one_eq_mod raw.vlanPcp.toNat 3]
    exact Nat.mod_eq_of_lt hpcp'
  have hlow : raw.vlanId &&& 0x0fff = raw.vlanId := Frame.vlanOf_eq_self_iff.mpr hid
  have hhigh : ((raw.vlanPcp &&& 0x07).toUInt16 <<< 13).toNat = raw.vlanPcp.toNat * 2 ^ 13 := by
    simp only [UInt16.toNat_shiftLeft, UInt8.toNat_toUInt16, UInt8.toNat_and, UInt8.reduceToNat, hmask,
      UInt16.reduceToNat, Nat.reduceMod, Nat.shiftLeft_eq]
    omega
  -- the drop eligibility is the lowest bit of what is above the VLAN
  have hdei : raw.vlanPcp.toNat * 2 ^ 13 ||| (if raw.dei then (0x1000 : UInt16) else 0).toNat =
      (raw.vlanPcp.toNat * 2 + if raw.dei then 1 else 0) <<< 12 := by
    cases raw.dei with
    | true =>
        have hor := Nat.shiftLeft_add_eq_or_of_lt (show 2 ^ 12 < 2 ^ 13 by decide) raw.vlanPcp.toNat
        rw [Nat.shiftLeft_eq] at hor
        simp only [if_true, UInt16.reduceToNat, Nat.shiftLeft_eq]
        rw [show (4096 : Nat) = 2 ^ 12 from rfl, ← hor]
        omega
    | false =>
        simp only [Bool.false_eq_true, if_false, UInt16.reduceToNat, Nat.or_zero, Nat.shiftLeft_eq]
        omega
  rw [pcpDeiId, hlow, UInt16.toNat_or, UInt16.toNat_or, hhigh, hdei, ← Nat.shiftLeft_add_eq_or_of_lt hid',
    Nat.shiftLeft_eq]
  split
  · omega
  · omega

/-- **A tag is parsed** as it was packed. -/
theorem setVlanTag_pcpDeiId (hpcp : raw.vlanPcp < 8) (hid : raw.vlanId < 4096) :
    before.setVlanTag raw.pcpDeiId ethertype = { before with
      hasVlanTag := true, vlanPcp := raw.vlanPcp, dei := raw.dei, vlanId := raw.vlanId, ethertype } := by
  have hword := toNat_pcpDeiId hpcp hid
  have hpcp' : raw.vlanPcp.toNat < 8 := UInt8.lt_iff_toNat_lt.mp hpcp
  have hid' : raw.vlanId.toNat < 4096 := UInt16.lt_iff_toNat_lt.mp hid
  have hfirst : (raw.pcpDeiId >>> 13).toUInt8 = raw.vlanPcp := by
    apply UInt8.toNat_inj.mp
    simp only [UInt16.toNat_toUInt8, UInt16.toNat_shiftRight, UInt16.reduceToNat, Nat.reduceMod,
      Nat.shiftRight_eq_div_pow, hword]
    split
    · omega
    · omega
  have hsecond : decide ((raw.pcpDeiId >>> 12) &&& 1 > 0) = raw.dei := by
    rw [← Bool.decide_coe raw.dei, decide_eq_decide, gt_iff_lt, UInt16.lt_iff_toNat_lt]
    simp only [UInt16.toNat_and, UInt16.toNat_shiftRight, UInt16.reduceToNat, Nat.reduceMod,
      Nat.shiftRight_eq_div_pow, Nat.and_one_is_mod, hword]
    split
    · refine iff_of_true ?_ ‹_›
      omega
    · refine iff_of_false ?_ ‹_›
      omega
  have hthird : raw.pcpDeiId &&& 0x0fff = raw.vlanId := by
    apply UInt16.toNat_inj.mp
    rw [UInt16.toNat_and, hword]
    refine (Nat.and_two_pow_sub_one_eq_mod _ 12).trans ?_
    split
    · omega
    · omega
  rw [setVlanTag, hfirst, hsecond, hthird]

/-- **A word is packed again** as it was parsed. -/
theorem pcpDeiId_setVlanTag (raw : RawPacket) (word ethertype : UInt16) :
    (raw.setVlanTag word ethertype).pcpDeiId = word := by
  have hlt := UInt16.toNat_lt word
  have hpcp : (word >>> 13).toUInt8.toNat = word.toNat / 2 ^ 13 := by
    simp only [UInt16.toNat_toUInt8, UInt16.toNat_shiftRight, UInt16.reduceToNat, Nat.reduceMod,
      Nat.shiftRight_eq_div_pow]
    omega
  have hid : (word &&& 0x0fff).toNat = word.toNat % 4096 := by
    rw [UInt16.toNat_and]
    exact Nat.and_two_pow_sub_one_eq_mod _ 12
  have hdei : (decide ((word >>> 12) &&& 1 > 0) = true) ↔ word.toNat / 2 ^ 12 % 2 = 1 := by
    rw [decide_eq_true_iff, gt_iff_lt, UInt16.lt_iff_toNat_lt]
    simp only [UInt16.toNat_and, UInt16.toNat_shiftRight, UInt16.reduceToNat, Nat.reduceMod,
      Nat.shiftRight_eq_div_pow, Nat.and_one_is_mod]
    omega
  apply UInt16.toNat_inj.mp
  rw [toNat_pcpDeiId]
  · simp only [setVlanTag, hpcp, hid, hdei]
    split
    · omega
    · omega
  · rw [UInt8.lt_iff_toNat_lt]
    simp only [setVlanTag, hpcp, UInt8.reduceToNat]
    omega
  · rw [UInt16.lt_iff_toNat_lt]
    simp only [setVlanTag, hid, UInt16.reduceToNat]
    omega

/-! ## The header -/

/-- The fields that parsing a header sets, but for the type of packet behind it. -/
def parsed (before raw : RawPacket) (ethertype : UInt16) : RawPacket :=
  { before with
    destMac := raw.destMac
    srcMac := raw.srcMac
    hasVlanTag := raw.hasVlanTag
    vlanPcp := if raw.hasVlanTag then raw.vlanPcp else 0
    dei := raw.hasVlanTag && raw.dei
    vlanId := if raw.hasVlanTag then raw.vlanId else 1
    ethertype }

theorem tag_parsed : tag (parsed before raw ethertype) = tag raw := by
  unfold tag parsed
  cases raw.hasVlanTag with
  | true => rfl
  | false => rfl

/-- **What is packed is parsed again**, unless its type announces a tag that is not there. -/
theorem deserialize_header (hwidth : TagInWidth raw) (htype : ethertype ≠ 0x8100 ∨ raw.hasVlanTag = true) :
    before.deserialize (header raw ethertype ++ body) =
      (parsed before raw ethertype).setPacketType (header raw ethertype ++ body) raw.ethHdrLen := by
  have hlen : (header raw ethertype ++ body).length = raw.ethHdrLen + body.length := by
    rw [List.length_append, length_header]
  have huntagged := untaggedHdrSize_le raw
  generalize hb : header raw ethertype ++ body = b at *
  have hdest : readVec 6 b 0 = .ok raw.destMac.addr := by
    rw [← hb, header, List.append_assoc, readVec_toList]
  have hsrc : readVec 6 b 6 = .ok raw.srcMac.addr := by
    rw [← hb, header, List.append_assoc, List.append_assoc, readVec_append_right (by simp)]
    simp
  rw [deserialize, if_neg (by omega), hdest, hsrc]
  cases htag : raw.hasVlanTag with
  | true =>
      obtain ⟨hpcp, hid⟩ := hwidth htag
      have hfirst : readU16 b 12 = .ok 0x8100 := by
        rw [← hb, header, htag]
        simp (disch := simp) [readU16_append_right]
      have hword : readU16 b 14 = .ok raw.pcpDeiId := by
        rw [← hb, header, htag]
        simp (disch := simp) [readU16_append_right]
      have hinner : readU16 b 16 = .ok ethertype := by
        rw [← hb, header, htag]
        simp (disch := simp) [readU16_append_right]
      have hhdr : raw.ethHdrLen = taggedHdrSize := by rw [ethHdrLen, htag]; rfl
      rw [hfirst, hword, hinner]
      simp only [ok_bind, if_true]
      rw [if_neg (by omega), setVlanTag_pcpDeiId hpcp hid, hhdr]
      simp only [parsed, htag, if_true, Bool.true_and]
  | false =>
      have hne : ethertype ≠ 0x8100 := by
        rw [htag] at htype
        exact htype.resolve_right Bool.false_ne_true
      have hfirst : readU16 b 12 = .ok ethertype := by rw [← hb, readU16_header htag]
      have hhdr : raw.ethHdrLen = untaggedHdrSize := by rw [ethHdrLen, htag]; rfl
      rw [hfirst]
      simp only [ok_bind, if_neg hne]
      rw [hhdr]
      simp only [parsed, htag, clearVlanTag, Bool.false_and]
      rfl

/-! ## The packet behind the header -/

/--
The type in the header is one that the parser takes. Behind the type of IPv4 it looks
at the byte that has the protocol.
-/
def Taken (ethertype : UInt16) (protocol : UInt8) : Prop :=
  ethertype = 0x0806 ∨ ethertype = 0x86dd ∨ ethertype = 0x0800 ∧ ipPacketType protocol ≠ .unknown

/-- What the parser takes a frame for. -/
def frameType (ethertype : UInt16) (protocol : UInt8) : PacketType :=
  if ethertype = 0x0806 then .arp
  else if ethertype = 0x0800 then ipPacketType protocol
  else if ethertype = 0x86dd then .ipv6
  else .unknown

theorem frameType_ne_unknown {protocol : UInt8} :
    frameType ethertype protocol ≠ .unknown ↔ Taken ethertype protocol := by
  unfold frameType Taken
  split
  · exact iff_of_true nofun (.inl ‹_›)
  · split
    · rename_i harp hip
      subst hip
      simp
    · split
      · exact iff_of_true nofun (.inr (.inl ‹_›))
      · rename_i harp hip hipv6
        simp [harp, hip, hipv6]

theorem Taken.ne {protocol : UInt8} (h : Taken ethertype protocol) : ethertype ≠ 0x8100 := by
  rcases h with rfl | rfl | ⟨rfl, -⟩
  · decide
  · decide
  · decide

theorem packetTypeOf_frame {hdr : Bytes} {n : Nat} {protocol : UInt8} (hlen : hdr.length = n)
    (hroom : 20 ≤ body.length) (hbyte : readU8 body 9 = .ok protocol) :
    packetTypeOf ethertype (hdr ++ body) n = .ok (frameType ethertype protocol) := by
  have hlong : ¬ (hdr ++ body).length < n + 20 := by
    rw [List.length_append]
    omega
  have hread : readU8 (hdr ++ body) (n + 9) = .ok protocol := by
    rw [readU8_append_right (by omega), ← hlen, Nat.add_sub_cancel_left, hbyte]
  rw [packetTypeOf, frameType, if_neg hlong, hread]
  split
  · rfl
  · split
    · rfl
    · split
      · rfl
      · rfl

/-- What the parser makes of a frame. -/
theorem deserialize_frame {protocol : UInt8} (hwidth : TagInWidth raw)
    (hannounced : ethertype ≠ 0x8100 ∨ raw.hasVlanTag = true) (hroom : 20 ≤ body.length)
    (hbyte : readU8 body 9 = .ok protocol) :
    before.deserialize (header raw ethertype ++ body) = .ok (frameType ethertype protocol != .unknown,
      { parsed before raw ethertype with packetType := frameType ethertype protocol }) := by
  rw [deserialize_header hwidth hannounced]
  exact setPacketType_eq (packetTypeOf_frame (length_header _ _) hroom hbyte)

/-- A type that says what is behind the header is packed as it is. -/
theorem ethertypeToPack_of_known {packetType : PacketType} {n : Nat}
    (h : packetTypeOf raw.ethertype b n = .ok packetType) (hknown : packetType ≠ .unknown) :
    raw.ethertypeToPack = .ok raw.ethertype := by
  refine if_pos fun hzero => hknown ?_
  rw [hzero] at h
  exact (Except.ok.inj h).symm

/-- The packet that is accepted is of a known type. -/
theorem setPacketType_accepted {packetType : PacketType} {n : Nat} {accepted : RawPacket}
    (hpacket : packetTypeOf raw.ethertype b n = .ok packetType)
    (h : raw.setPacketType b n = .ok (true, accepted)) :
    packetType ≠ .unknown ∧ { raw with packetType } = accepted := by
  rw [setPacketType_eq hpacket] at h
  obtain ⟨hstatus, hraw⟩ := Prod.mk.inj (Except.ok.inj h)
  exact ⟨bne_iff_ne.mp hstatus, hraw⟩

theorem header_setVlanTag (raw : RawPacket) (word ethertype : UInt16) :
    header (raw.setVlanTag word ethertype) ethertype = raw.destMac.addr.toList ++ (raw.srcMac.addr.toList ++
      (be16 0x8100 ++ be16 word ++ be16 ethertype)) := by
  rw [header, pcpDeiId_setVlanTag]
  rfl

/-- **What is accepted is packed again** to the byte. -/
theorem header_of_deserialize (h : before.deserialize b = .ok (true, raw)) :
    raw.ethHdrLen ≤ b.length ∧ raw.ethertypeToPack = .ok raw.ethertype ∧
      header raw raw.ethertype = b.take raw.ethHdrLen ∧
      packetTypeOf raw.ethertype b raw.ethHdrLen = .ok raw.packetType ∧ raw.packetType ≠ .unknown := by
  rw [deserialize] at h
  split at h
  · cases h
  · rename_i hlong
    simp only [untaggedHdrSize] at hlong
    obtain ⟨destMac, srcMac, type, hdest, hsrc, htype⟩ := exists_header (Nat.not_lt.mp hlong)
    rw [hdest, hsrc, htype] at h
    simp only [ok_bind] at h
    split at h
    · rename_i htagged
      split at h
      · cases h
      · rename_i hroom
        simp only [taggedHdrSize] at hroom
        obtain ⟨word, hword⟩ := exists_readU16 (show 14 + 2 ≤ b.length by omega)
        obtain ⟨inner, hinner⟩ := exists_readU16 (show 16 + 2 ≤ b.length by omega)
        rw [hword, hinner] at h
        simp only [ok_bind] at h
        obtain ⟨packetType, hpacket⟩ := exists_packetTypeOf inner b taggedHdrSize
        obtain ⟨hknown, rfl⟩ := setPacketType_accepted hpacket h
        refine ⟨?_, ethertypeToPack_of_known hpacket hknown, ?_, hpacket, hknown⟩
        · exact Nat.not_lt.mp hroom
        · change header (setVlanTag
            { before with destMac := ⟨destMac⟩, srcMac := ⟨srcMac⟩, ethertype := type } word inner) inner = b.take 18
          rw [header_setVlanTag, ← htagged, toList_of_readVec hdest, toList_of_readVec hsrc,
            be16_of_readU16 htype, be16_of_readU16 hword, be16_of_readU16 hinner,
            take_drop_append_take_drop b 12 2 2, take_drop_append_take_drop b 12 4 2,
            take_drop_append_take_drop b 6 6 6, take_drop_append_take_drop b 0 6 12, List.drop_zero]
    · obtain ⟨packetType, hpacket⟩ := exists_packetTypeOf type b untaggedHdrSize
      obtain ⟨hknown, rfl⟩ := setPacketType_accepted hpacket h
      refine ⟨?_, ethertypeToPack_of_known hpacket hknown, ?_, hpacket, hknown⟩
      · exact Nat.not_lt.mp hlong
      · change destMac.toList ++ (srcMac.toList ++ be16 type) = b.take 14
        rw [toList_of_readVec hdest, toList_of_readVec hsrc, be16_of_readU16 htype,
          take_drop_append_take_drop b 6 6 2, take_drop_append_take_drop b 0 6 8, List.drop_zero]

/-- **A type that announces a tag** comes back as one, unless there is a tag. -/
theorem announced_of_tag (h : before.deserialize (header raw ethertype ++ body) = .ok (true, parsed'))
    (htag : tag parsed' = tag raw) : ethertype ≠ 0x8100 ∨ raw.hasVlanTag = true := by
  by_contra hannounced
  rw [not_or, Decidable.not_not, Bool.not_eq_true] at hannounced
  obtain ⟨rfl, huntagged⟩ := hannounced
  have huntagged' : parsed'.hasVlanTag = false := by
    unfold tag at htag
    rw [huntagged] at htag
    cases hq : parsed'.hasVlanTag with
    | false => rfl
    | true =>
        rw [hq] at htag
        cases htag
  -- what is accepted without a tag is of the type that was packed, and that is none that is known
  obtain ⟨-, -, hheader, hpacket, hknown⟩ := header_of_deserialize h
  have hlen : (header raw 0x8100).length = parsed'.ethHdrLen := by
    rw [length_header, ethHdrLen, ethHdrLen, huntagged, huntagged']
  rw [List.take_left' hlen] at hheader
  have hread : readU16 (header parsed' parsed'.ethertype ++ []) 12 = .ok parsed'.ethertype :=
    readU16_header huntagged'
  rw [hheader, readU16_header huntagged] at hread
  rw [← Except.ok.inj hread] at hpacket
  exact hknown (Except.ok.inj hpacket).symm

end RawPacket

end IronStack.Proof
