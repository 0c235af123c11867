import IronStack.Net.Decoders
import IronStack.Proof.PacketCodec

/-!
# What the decoders read

The raw decoder and that of ARP check before they read. The IP decoder does not: it
relies on the raw one, which looks only at the size of frames that are typed as IPv4.
So a frame typed as ARP or IPv6 is read past its end, if it is short. And a total
length below that of the header is taken, from which the header is then subtracted.
-/

namespace IronStack.Proof

open Lib IronStack.RawPacket IronStack.Proof.RawPacket IronStack.Proof.IpCodec

namespace Decoders

variable {frame : Bytes} {hdr : Nat} {raw : RawPacket} {text : Read Unit}

/-! ## The type of a frame -/

/-- Where the Ethernet header of a frame ends, and the type that it has. -/
def HeaderEnds (frame : Bytes) (hdr : Nat) (ethertype : UInt16) : Prop :=
  readU16 frame 12 = .ok ethertype ∧ ethertype ≠ 0x8100 ∧ hdr = 14 ∨
    readU16 frame 12 = .ok 0x8100 ∧ readU16 frame 16 = .ok ethertype ∧ hdr = 18

/-- The frame is typed as ARP or IPv6, or it has an IPv4 header with a protocol that is known. -/
def TakenAt (frame : Bytes) (hdr : Nat) : Prop :=
  ∃ ethertype, HeaderEnds frame hdr ethertype ∧ (ethertype = 0x0806 ∨ ethertype = 0x86dd ∨
    ethertype = 0x0800 ∧ hdr + 20 ≤ frame.length ∧
      ∃ protocol, readU8 frame (hdr + 9) = .ok protocol ∧ (protocol = 1 ∨ protocol = 6 ∨ protocol = 17))

/-! ## What is behind the Ethernet header -/

/-- An IPv4 header without options that gives a total length, which the frame has room for. -/
structure Announces (frame : Bytes) (hdr : Nat) (total : UInt16) : Prop where
  version : readU8 frame hdr = .ok 0x45
  announced : readU16 frame (hdr + 2) = .ok total
  fits : hdr + total.toNat ≤ frame.length

/-- The bit in front of the flags is set, which makes the IP decoder turn a packet down. -/
def Reserved (frame : Bytes) (hdr : Nat) : Prop :=
  ∃ flags, readU8 frame (hdr + 6) = .ok flags ∧ flags >>> 7 ≠ 0

/--
What is behind the Ethernet header is enough for the decoders: there is a byte, there is a total
length if the byte begins an IPv4 header, and that length covers the header. The length of
a UDP header is right, where it matters to the log.
-/
structure Readable (text : Read Unit) (frame : Bytes) (hdr : Nat) : Prop where
  begins : hdr < frame.length
  measured : readU8 frame hdr = .ok 0x45 → hdr + 4 ≤ frame.length
  covers : ∀ total, Announces frame hdr total → Reserved frame hdr ∨ 20 ≤ total.toNat
  agrees : ∀ total udpHdrLen, Announces frame hdr total → ¬ Reserved frame hdr → 28 ≤ total.toNat →
    readU16 frame (hdr + 24) = .ok udpHdrLen → udpHdrLen.toNat + 20 ≠ total.toNat → Answers text

/-! ## What is claimed -/

/-- Every length of a payload is that of what it is in, less the headers and options in front of it. -/
structure SubtractsWhole (frame : Bytes) : Prop where
  ip : ∀ p total, Codec.IpPacket.deserialize frame = .ok (some p) →
    readU16 frame (p.ethHdrLen + 2) = .ok total → p.ipPayload.size + Codec.IpPacket.hdrSize = total.toNat
  tcp : ∀ p, Codec.TcpPacket.deserialize frame = .ok (some p) →
    p.payload.size = 0 ∨ p.payload.size + p.options.size + Codec.TcpPacket.hdrSize = p.ipPayload.size
  udp : ∀ p, Codec.UdpPacket.deserialize frame = .ok (some p) →
    p.udpPayload.size + Codec.UdpPacket.hdrSize = p.ipPayload.size
  icmp : ∀ p, Codec.IcmpPacket.deserialize frame = .ok (some p) →
    p.data.size + Codec.IcmpPacket.hdrSize = p.ipPayload.size

/-- Each decoder returns, and no length that is computed wraps around. -/
structure DecodesSafely (text : Read Unit) (frame : Bytes) : Prop where
  returns : ∀ decoder : Decoder, Answers (decoder.decode text frame)
  lengths : SubtractsWhole frame

/-! ## The raw decoder -/

theorem packetTypeOf_ne_unknown {ethertype : UInt16} {packetType : PacketType}
    (h : packetTypeOf ethertype frame hdr = .ok packetType) : packetType ≠ .unknown ↔
      (ethertype = 0x0806 ∨ ethertype = 0x86dd ∨ ethertype = 0x0800 ∧ hdr + 20 ≤ frame.length ∧
        ∃ protocol, readU8 frame (hdr + 9) = .ok protocol ∧
          (protocol = 1 ∨ protocol = 6 ∨ protocol = 17)) := by
  have hprotocol : ∀ protocol, ipPacketType protocol ≠ .unknown ↔
      protocol = 1 ∨ protocol = 6 ∨ protocol = 17 := by
    intro protocol
    rw [ipPacketType]
    split
    · exact iff_of_true (fun heq => by cases heq) (.inl ‹_›)
    · split
      · exact iff_of_true (fun heq => by cases heq) (.inr (.inl ‹_›))
      · split
        · exact iff_of_true (fun heq => by cases heq) (.inr (.inr ‹_›))
        · rename_i hicmp htcp hudp
          simp [hicmp, htcp, hudp]
  rw [packetTypeOf] at h
  split at h
  · rename_i harp
    rw [← Except.ok.inj h]
    exact iff_of_true (fun heq => by cases heq) (.inl harp)
  · rename_i harp
    split at h
    · rename_i hip
      have hnot : (0x0800 : UInt16) ≠ 0x86dd := by decide
      subst hip
      split at h
      · rename_i hshort
        rw [← Except.ok.inj h]
        refine iff_of_false (not_not_intro rfl) ?_
        rintro (h | h | ⟨_, hlong, _⟩)
        · exact harp h
        · exact hnot h
        · omega
      · rename_i hlong
        obtain ⟨protocol, hread, rfl⟩ := map_eq_ok.mp h
        rw [hprotocol]
        refine ⟨fun hknown => .inr (.inr ⟨rfl, by omega, protocol, hread, hknown⟩), ?_⟩
        rintro (h | h | ⟨_, _, protocol', hread', hknown⟩)
        · exact absurd h harp
        · exact absurd h hnot
        · rwa [Except.ok.inj (hread.symm.trans hread')]
    · rename_i hip
      split at h
      · rename_i hipv6
        rw [← Except.ok.inj h]
        exact iff_of_true (fun heq => by cases heq) (.inr (.inl hipv6))
      · rename_i hipv6
        rw [← Except.ok.inj h]
        exact iff_of_false (not_not_intro rfl) (by simp [harp, hip, hipv6])

/-- The type of a frame with a header of some size is all that it is taken for. -/
theorem exists_accepted_iff (raw : RawPacket) (ethertype : UInt16) (n : Nat) (hn : raw.ethHdrLen = n)
    (htype : raw.ethertype = ethertype) :
    (∃ accepted, raw.setPacketType frame n = .ok (true, accepted) ∧ accepted.ethHdrLen = hdr) ↔
      hdr = n ∧ (ethertype = 0x0806 ∨ ethertype = 0x86dd ∨ ethertype = 0x0800 ∧ hdr + 20 ≤ frame.length ∧
        ∃ protocol, readU8 frame (hdr + 9) = .ok protocol ∧
          (protocol = 1 ∨ protocol = 6 ∨ protocol = 17)) := by
  obtain ⟨packetType, hpacket⟩ := exists_packetTypeOf ethertype frame n
  rw [setPacketType_eq (htype ▸ hpacket)]
  refine ⟨?_, ?_⟩
  · rintro ⟨accepted, haccepted, rfl⟩
    obtain ⟨hstatus, rfl⟩ := Prod.mk.inj (Except.ok.inj haccepted)
    have hlen : RawPacket.ethHdrLen { raw with packetType } = n := hn
    rw [hlen]
    exact ⟨rfl, (packetTypeOf_ne_unknown hpacket).mp (bne_iff_ne.mp hstatus)⟩
  · rintro ⟨rfl, htaken⟩
    have hstatus := bne_iff_ne.mpr ((packetTypeOf_ne_unknown hpacket).mpr htaken)
    exact ⟨{ raw with packetType }, congrArg (fun status => Except.ok (status, _)) hstatus, hn⟩

/-- **The raw decoder takes** the frames that are of such a type. -/
theorem raw_taken_iff :
    (∃ raw, ({} : RawPacket).deserialize frame = .ok (true, raw) ∧ raw.ethHdrLen = hdr) ↔
      TakenAt frame hdr := by
  rw [deserialize]
  split
  · rename_i hshort
    rw [untaggedHdrSize] at hshort
    refine iff_of_false (not_exists.mpr fun _ hok => by cases hok.1) ?_
    rintro ⟨ethertype, ⟨h12, _⟩ | ⟨h12, _⟩, _⟩
    · have hle := le_of_readU16 h12
      omega
    · have hle := le_of_readU16 h12
      omega
  rename_i hlong
  obtain ⟨destMac, srcMac, ethertype, hdest, hsrc, htype⟩ := RawPacket.exists_header (Nat.not_lt.mp hlong)
  rw [hdest, hsrc, htype]
  simp only [ok_bind]
  split
  · rename_i htag
    subst htag
    split
    · rename_i hshort
      rw [taggedHdrSize] at hshort
      refine iff_of_false (not_exists.mpr fun _ hok => by cases hok.1) ?_
      rintro ⟨inner, ⟨h12, hne, _⟩ | ⟨_, h16, _⟩, _⟩
      · exact hne (Except.ok.inj (h12.symm.trans htype))
      · have hle := le_of_readU16 h16
        omega
    · rename_i hroom
      rw [taggedHdrSize] at hroom
      obtain ⟨word, hword⟩ := exists_readU16 (show 14 + 2 ≤ frame.length by omega)
      obtain ⟨inner, hinner⟩ := exists_readU16 (show 16 + 2 ≤ frame.length by omega)
      rw [hword, hinner]
      simp only [ok_bind]
      refine (exists_accepted_iff _ inner _ rfl rfl).trans ⟨?_, ?_⟩
      · rintro ⟨hhdr, htaken⟩
        exact ⟨inner, .inr ⟨htype, hinner, hhdr⟩, htaken⟩
      · rintro ⟨inner', ⟨h12, hne, _⟩ | ⟨_, h16, hhdr⟩, htaken⟩
        · exact absurd (Except.ok.inj (h12.symm.trans htype)) hne
        · obtain rfl := Except.ok.inj (hinner.symm.trans h16)
          exact ⟨hhdr, htaken⟩
  · rename_i hne
    refine (exists_accepted_iff _ ethertype _ rfl rfl).trans ⟨?_, ?_⟩
    · rintro ⟨hhdr, htaken⟩
      exact ⟨ethertype, .inl ⟨htype, hne, hhdr⟩, htaken⟩
    · rintro ⟨inner', ⟨h12, _, hhdr⟩ | ⟨h12, _⟩, htaken⟩
      · obtain rfl := Except.ok.inj (htype.symm.trans h12)
        exact ⟨hhdr, htaken⟩
      · exact absurd (Except.ok.inj (htype.symm.trans h12)) hne

/-! ## The IP decoder -/

/-- Version 4 and a header without options share a byte. -/
theorem version_ihl_iff (byte : UInt8) : byte >>> 4 = 4 ∧ byte &&& 0x0f = 5 ↔ byte = 0x45 := by
  have hshift : (byte >>> 4).toNat = byte.toNat / 16 := by
    rw [UInt8.toNat_shiftRight]
    exact Nat.shiftRight_eq_div_pow byte.toNat 4
  have hmask : (byte &&& 0x0f).toNat = byte.toNat % 16 := by
    rw [UInt8.toNat_and]
    exact Nat.and_two_pow_sub_one_eq_mod byte.toNat 4
  simp only [← UInt8.toNat_inj, hshift, hmask, UInt8.reduceToNat]
  omega

section Ip

variable (hraw : ({} : RawPacket).deserialize frame = .ok (true, raw)) (hhdr : raw.ethHdrLen = hdr)
  (hle : hdr ≤ frame.length) (hlt : frame.length < 2 ^ 31)

include hraw hhdr hle hlt

/-- What the IP decoder does behind the Ethernet header. -/
theorem ip_eq : IronStack.IpPacket.deserialize frame = (do
    let versionIhl ← readU8 frame hdr
    if versionIhl ≠ 0x45 then return none
    let total ← readU16 frame (hdr + 2)
    if frame.length < hdr + total.toNat then return none
    let flags ← readU8 frame (hdr + 6)
    if flags >>> 7 ≠ 0 then return none
    let destIp ← readVec 4 frame (hdr + 16)
    return some ⟨⟨destIp⟩, ⟨frame.drop (hdr + 20), subU32 total.toNat 20⟩⟩) := by
  have hbehind : subU32 frame.length hdr = frame.length - hdr := subU32_of_le hle (by omega)
  rw [IronStack.IpPacket.deserialize, hraw]
  simp only [ok_bind, Bool.not_true, Bool.false_eq_true, if_false, hhdr, hbehind]
  congr 1
  funext versionIhl
  by_cases hbyte : versionIhl = 0x45
  · obtain ⟨hversion, hihl⟩ := (version_ihl_iff versionIhl).mpr hbyte
    rw [if_neg (not_not_intro hversion), if_neg (not_not_intro hihl), if_neg (not_not_intro hbyte)]
    congr 1
    funext total
    have hroom : total.toNat > frame.length - hdr ↔ frame.length < hdr + total.toNat := by omega
    rw [if_congr hroom rfl rfl]
  · rw [if_pos hbyte]
    by_cases hversion : versionIhl >>> 4 = 4
    · rw [if_neg (not_not_intro hversion), if_pos fun hihl => hbyte ((version_ihl_iff _).mp ⟨hversion, hihl⟩)]
    · rw [if_pos hversion]

/-- **A packet that is accepted** has a header that announces its length. -/
theorem ip_some {ip : IronStack.IpPacket} (h : IronStack.IpPacket.deserialize frame = .ok (some ip)) :
    ∃ total, Announces frame hdr total ∧ ¬ Reserved frame hdr ∧ hdr + 20 ≤ frame.length ∧
      ip.ipPayload = ⟨frame.drop (hdr + 20), subU32 total.toNat 20⟩ := by
  rw [ip_eq hraw hhdr hle hlt] at h
  obtain ⟨versionIhl, hversion, h⟩ := bind_eq_ok.mp h
  split at h
  · cases h
  rename_i hbyte
  obtain ⟨total, htotal, h⟩ := bind_eq_ok.mp h
  split at h
  · cases h
  rename_i hfits
  obtain ⟨flags, hflags, h⟩ := bind_eq_ok.mp h
  split at h
  · cases h
  rename_i hreserved
  obtain ⟨destIp, hdest, h⟩ := bind_eq_ok.mp h
  rw [← Option.some.inj (Except.ok.inj h)]
  refine ⟨total, ⟨?_, htotal, Nat.not_lt.mp hfits⟩, ?_, ?_, rfl⟩
  · rw [hversion, Decidable.not_not.mp hbyte]
  · rintro ⟨flags', hflags', hset⟩
    exact hreserved (Except.ok.inj (hflags.symm.trans hflags') ▸ hset)
  · by_contra hcut
    rw [readVec_error (by omega)] at hdest
    cases hdest

/-- **Where the decoder returns**, there is what it looks at before it accepts a packet. -/
theorem of_answers_ip (h : Answers (IronStack.IpPacket.deserialize frame)) : hdr < frame.length ∧
    (readU8 frame hdr = .ok 0x45 → hdr + 4 ≤ frame.length) ∧
    ∀ total, Announces frame hdr total → ¬ Reserved frame hdr →
      ∃ ip, IronStack.IpPacket.deserialize frame = .ok (some ip) := by
  rw [ip_eq hraw hhdr hle hlt] at h ⊢
  obtain ⟨versionIhl, hversion, h⟩ := h.of_bind
  refine ⟨?_, fun hbyte => ?_, fun total hannounced hreserved => ?_⟩
  · by_contra hcut
    rw [readU8_error (by omega)] at hversion
    cases hversion
  · obtain rfl := Except.ok.inj (hversion.symm.trans hbyte)
    obtain ⟨total, htotal, _⟩ := Answers.of_bind h
    exact le_of_readU16 htotal
  · obtain rfl := Except.ok.inj (hversion.symm.trans hannounced.version)
    have hfits : ¬ frame.length < hdr + total.toNat := Nat.not_lt.mpr hannounced.fits
    rw [if_neg (not_not_intro rfl), hannounced.announced, ok_bind, if_neg hfits] at h
    obtain ⟨flags, hflags, h⟩ := h.of_bind
    have hclear : flags >>> 7 = 0 := by
      by_contra hset
      exact hreserved ⟨flags, hflags, hset⟩
    rw [if_neg (not_not_intro hclear)] at h
    obtain ⟨destIp, hdest, _⟩ := h.of_bind
    rw [hversion, ok_bind, if_neg (not_not_intro rfl), hannounced.announced, ok_bind, if_neg hfits, hflags,
      ok_bind, if_neg (not_not_intro hclear), hdest]
    exact ⟨_, rfl⟩

/-- **What is readable is decoded**, and a packet that is accepted has at least a header. -/
theorem ip_of_readable (h : Readable text frame hdr) : IronStack.IpPacket.deserialize frame = .ok none ∨
    ∃ ip, IronStack.IpPacket.deserialize frame = .ok (some ip) := by
  rw [ip_eq hraw hhdr hle hlt]
  obtain ⟨versionIhl, hversion⟩ := exists_readU8 (show hdr + 1 ≤ frame.length from h.begins)
  rw [hversion, ok_bind]
  split
  · exact .inl rfl
  rename_i hbyte
  rw [Decidable.not_not.mp hbyte] at hversion
  obtain ⟨total, htotal⟩ := exists_readU16 (show hdr + 2 + 2 ≤ frame.length from h.measured hversion)
  rw [htotal, ok_bind]
  split
  · exact .inl rfl
  rename_i hfits
  rcases h.covers total ⟨hversion, htotal, Nat.not_lt.mp hfits⟩ with ⟨flags, hflags, hset⟩ | hcovers
  · rw [hflags, ok_bind, if_pos hset]
    exact .inl rfl
  · obtain ⟨flags, hflags⟩ := exists_readU8 (show hdr + 6 + 1 ≤ frame.length by omega)
    obtain ⟨destIp, hdest⟩ := exists_readVec (show hdr + 16 + 4 ≤ frame.length by omega)
    rw [hflags, ok_bind, hdest]
    split
    · exact .inl rfl
    · exact .inr ⟨_, rfl⟩

end Ip

/-! ## The decoders of what is in an IP packet -/

section Behind

variable {ip : Codec.IpPacket} (hip : Codec.IpPacket.deserialize frame = .ok (some ip))

include hip

variable (hroom : ip.ipPayload.size ≤ ip.ipPayload.memory.length)

include hroom in
theorem answers_tcp : Answers (Codec.TcpPacket.deserialize frame) := by
  rw [Codec.TcpPacket.deserialize, hip, ok_bind]
  refine Answers.ite (fun _ => answers_ok _) fun hlong => ?_
  rw [Codec.TcpPacket.hdrSize] at hlong
  refine (answers_readU16 (by omega)).bind fun srcPort => ?_
  refine (answers_readU16 (by omega)).bind fun destPort => ?_
  refine (answers_readU32 (by omega)).bind fun seq => ?_
  refine (answers_readU32 (by omega)).bind fun ack => ?_
  refine (answers_readU8 (by omega)).bind fun dataOffsetReserved => ?_
  refine (answers_readU8 (by omega)).bind fun flags => ?_
  refine (answers_readU16 (by omega)).bind fun windowSize => ?_
  refine (answers_readU16 (by omega)).bind fun tcpChecksum => ?_
  exact (answers_readU16 (by omega)).bind fun urgentPtr => answers_ok _

include hroom in
theorem answers_icmp : Answers (Codec.IcmpPacket.deserialize frame) := by
  rw [Codec.IcmpPacket.deserialize, hip, ok_bind]
  refine Answers.ite (fun _ => answers_ok _) fun hlong => ?_
  rw [Codec.IcmpPacket.hdrSize] at hlong
  refine (answers_readU8 (by omega)).bind fun icmpPktType => ?_
  refine (answers_readU8 (by omega)).bind fun code => ?_
  refine (answers_readU16 (by omega)).bind fun checksum => ?_
  exact (answers_readU32 (by omega)).bind fun icmpHdrRest => answers_ok _

include hroom in
theorem answers_udp : Answers (Codec.UdpPacket.deserialize frame) := by
  rw [Codec.UdpPacket.deserialize, hip, ok_bind]
  refine Answers.ite (fun _ => answers_ok _) fun hlong => ?_
  rw [Codec.UdpPacket.hdrSize] at hlong
  refine (answers_readU16 (by omega)).bind fun srcPort => ?_
  refine (answers_readU16 (by omega)).bind fun destPort => ?_
  refine (answers_readU16 (by omega)).bind fun udpChecksum => ?_
  refine (answers_readU16 (by omega)).bind fun udpHdrLen => ?_
  exact Answers.ite (fun _ => answers_ok _) fun _ => answers_ok _

/-- The text about a length that is wrong is written where it is. -/
theorem log_eq {udpHdrLen : UInt16} (hlong : Codec.UdpPacket.hdrSize ≤ ip.ipPayload.size)
    (hlen : readU16 ip.ipPayload.memory 4 = .ok udpHdrLen) :
    Codec.UdpPacket.log text frame = if udpHdrLen.toNat ≠ ip.ipPayload.size then text else .ok () := by
  have hsize : ¬ ip.ipPayload.size < Codec.UdpPacket.hdrSize := Nat.not_lt.mpr hlong
  rw [Codec.UdpPacket.log, Codec.UdpPacket.lengths, hip, ok_bind]
  dsimp only
  rw [if_neg hsize, hlen]
  rfl

theorem log_of_short (hshort : ip.ipPayload.size < Codec.UdpPacket.hdrSize) :
    Codec.UdpPacket.log text frame = .ok () := by
  rw [Codec.UdpPacket.log, Codec.UdpPacket.lengths, hip, ok_bind]
  dsimp only
  rw [if_pos hshort]
  rfl

end Behind

/-- What the IP decoder turns down, all of them do. -/
theorem answers_of_ip_none (h : Codec.IpPacket.deserialize frame = .ok none) (decoder : Decoder)
    (hraw : decoder ≠ .raw) (harp : decoder ≠ .arp) : decoder.decode text frame = .ok false := by
  cases decoder with
  | raw => exact absurd rfl hraw
  | arp => exact absurd rfl harp
  | ip => rw [Decoder.decode, h]; rfl
  | tcp => rw [Decoder.decode, Codec.TcpPacket.deserialize, h]; rfl
  | udp =>
      rw [Decoder.decode, Codec.UdpPacket.deserialize, Codec.UdpPacket.log, Codec.UdpPacket.lengths, h]
      rfl
  | icmp => rw [Decoder.decode, Codec.IcmpPacket.deserialize, h]; rfl

/-! ## Lengths -/

theorem udp_length {p : Codec.UdpPacket} (h : Codec.UdpPacket.deserialize frame = .ok (some p)) :
    p.udpPayload.size + Codec.UdpPacket.hdrSize = p.ipPayload.size := by
  obtain ⟨ip?, hip, h⟩ := bind_eq_ok.mp h
  cases ip? with
  | none => cases h
  | some ip =>
      dsimp only at h
      split at h
      · cases h
      rename_i hlong
      obtain ⟨srcPort, -, h⟩ := bind_eq_ok.mp h
      obtain ⟨destPort, -, h⟩ := bind_eq_ok.mp h
      obtain ⟨udpChecksum, -, h⟩ := bind_eq_ok.mp h
      obtain ⟨udpHdrLen, -, h⟩ := bind_eq_ok.mp h
      split at h
      · cases h
      rw [← Option.some.inj (Except.ok.inj h)]
      dsimp only
      split
      · exact Nat.sub_add_cancel (Nat.not_lt.mp hlong)
      · change 0 + _ = _
        omega

theorem icmp_length {p : Codec.IcmpPacket} (h : Codec.IcmpPacket.deserialize frame = .ok (some p)) :
    p.data.size + Codec.IcmpPacket.hdrSize = p.ipPayload.size := by
  obtain ⟨ip?, hip, h⟩ := bind_eq_ok.mp h
  cases ip? with
  | none => cases h
  | some ip =>
      dsimp only at h
      split at h
      · cases h
      rename_i hlong
      obtain ⟨icmpPktType, -, h⟩ := bind_eq_ok.mp h
      obtain ⟨code, -, h⟩ := bind_eq_ok.mp h
      obtain ⟨checksum, -, h⟩ := bind_eq_ok.mp h
      obtain ⟨icmpHdrRest, -, h⟩ := bind_eq_ok.mp h
      rw [← Option.some.inj (Except.ok.inj h)]
      dsimp only
      split
      · exact Nat.sub_add_cancel (Nat.not_lt.mp hlong)
      · change 0 + _ = _
        omega

/-- The payload of a TCP packet is what is behind its data offset, if that is beyond the header. -/
theorem tcp_length {p : Codec.TcpPacket} (h : Codec.TcpPacket.deserialize frame = .ok (some p))
    (hsize : p.ipPayload.size < 2 ^ 32) : p.payload.size = 0 ∨
      p.payload.size + p.options.size + Codec.TcpPacket.hdrSize = p.ipPayload.size := by
  obtain ⟨ip?, hip, h⟩ := bind_eq_ok.mp h
  cases ip? with
  | none => cases h
  | some ip =>
      dsimp only at h
      split at h
      · cases h
      rename_i hlong
      obtain ⟨srcPort, -, h⟩ := bind_eq_ok.mp h
      obtain ⟨destPort, -, h⟩ := bind_eq_ok.mp h
      obtain ⟨seq, -, h⟩ := bind_eq_ok.mp h
      obtain ⟨ack, -, h⟩ := bind_eq_ok.mp h
      obtain ⟨dataOffsetReserved, -, h⟩ := bind_eq_ok.mp h
      obtain ⟨flags, -, h⟩ := bind_eq_ok.mp h
      obtain ⟨windowSize, -, h⟩ := bind_eq_ok.mp h
      obtain ⟨tcpChecksum, -, h⟩ := bind_eq_ok.mp h
      obtain ⟨urgentPtr, -, h⟩ := bind_eq_ok.mp h
      rw [← Option.some.inj (Except.ok.inj h)] at hsize ⊢
      dsimp only at hsize ⊢
      rw [Codec.TcpPacket.hdrSize] at hlong ⊢
      generalize (dataOffsetReserved >>> 4).toNat = dataOffset
      by_cases hoptions : dataOffset > 5
      · rw [if_pos hoptions]
        split
        · rename_i hpayload
          have hinner : subU32 ip.ipPayload.size ((dataOffset - 5) * 4) =
            ip.ipPayload.size - (dataOffset - 5) * 4 :=
            subU32_of_le (by omega) hsize
          have houter : subU32 (ip.ipPayload.size - (dataOffset - 5) * 4) 20 =
              ip.ipPayload.size - (dataOffset - 5) * 4 - 20 := subU32_of_le (by omega) (by omega)
          dsimp only
          rw [hinner, houter]
          omega
        · exact .inl rfl
      · rw [if_neg hoptions]
        split
        · have hinner : subU32 ip.ipPayload.size 0 = ip.ipPayload.size := subU32_of_le (Nat.zero_le _) hsize
          have houter : subU32 ip.ipPayload.size 20 = ip.ipPayload.size - 20 := subU32_of_le (by omega) hsize
          refine .inr ?_
          change subU32 (subU32 ip.ipPayload.size 0) 20 + 0 + 20 = ip.ipPayload.size
          rw [hinner, houter]
          omega
        · exact .inl rfl

/-! ## Any frame -/

/-- An IP packet that is accepted, as the decoders of what is in it find it. -/
theorem ip_accepted (hraw : ({} : RawPacket).deserialize frame = .ok (true, raw)) (hhdr : raw.ethHdrLen = hdr)
    (hle : hdr ≤ frame.length) (hlt : frame.length < 2 ^ 31) {p : Codec.IpPacket}
    (h : Codec.IpPacket.deserialize frame = .ok (some p)) : p.ethHdrLen = hdr ∧
      ∃ total, Announces frame hdr total ∧ ¬ Reserved frame hdr ∧ hdr + 20 ≤ frame.length ∧
        p.ipPayload = ⟨frame.drop (hdr + 20), subU32 total.toNat 20⟩ := by
  have hview : IronStack.IpPacket.deserialize frame = .ok (some (view p)) := by
    rw [deserialize_view, h]
    rfl
  refine ⟨?_, ip_some hraw hhdr hle hlt hview⟩
  have hsame := (deserialize_inv h).symm.trans hraw
  rw [(Prod.mk.inj (Except.ok.inj hsame)).2, hhdr]

theorem answers_raw (frame : Bytes) : Answers (Decoder.decode text frame .raw) := by
  obtain ⟨status, raw, hread, _⟩ := exists_deserialize {} frame
  exact answers_map_iff.mpr ⟨_, hread⟩

/-- The ARP decoder checks that the packet is there. -/
theorem answers_arp (frame : Bytes) : Answers (Decoder.decode text frame .arp) := by
  refine answers_map_iff.mpr ?_
  obtain ⟨status, raw, hread, _⟩ := exists_deserialize ({} : ArpPacket).toRawPacket frame
  rw [ArpPacket.deserialize, hread, ok_bind]
  refine Answers.ite (fun _ => answers_ok _) fun _ => ?_
  refine Answers.ite (fun _ => answers_ok _) fun hroom => ?_
  rw [ArpPacket.hdrSize] at hroom
  refine (answers_readU16 (by omega)).bind fun hardwareType => ?_
  refine (answers_readU16 (by omega)).bind fun protocolType => ?_
  refine (answers_readU8 (by omega)).bind fun hardwareAddressLen => ?_
  refine (answers_readU8 (by omega)).bind fun protocolAddressLen => ?_
  refine (answers_readU16 (by omega)).bind fun opType => ?_
  refine Answers.ite (fun _ => answers_ok _) fun _ => ?_
  refine (answers_readVec (by omega)).bind fun senderMac => ?_
  refine (answers_readVec (by omega)).bind fun srcIp => ?_
  refine (answers_readVec (by omega)).bind fun receiverMac => ?_
  exact (answers_readVec (by omega)).bind fun destIp => answers_ok _

/-- The lengths are as they should be if that of the payload of an IP packet is. -/
theorem subtractsWhole_of_ip (h : ∀ p, Codec.IpPacket.deserialize frame = .ok (some p) →
    ∃ total, readU16 frame (p.ethHdrLen + 2) = .ok total ∧
      p.ipPayload.size + Codec.IpPacket.hdrSize = total.toNat) : SubtractsWhole frame := by
  refine ⟨fun p total hp htotal => ?_, fun p hp => ?_, fun p hp => udp_length hp, fun p hp => icmp_length hp⟩
  · obtain ⟨total', htotal', hsize⟩ := h p hp
    rwa [Except.ok.inj (htotal.symm.trans htotal')]
  · obtain ⟨total, _, hsize⟩ := h p.toIpPacket (PacketCodec.Tcp.ip_of_deserialize hp)
    have hlt := UInt16.toNat_lt total
    exact tcp_length hp (by omega)

/-- **Where no IP packet is accepted** all is well. -/
theorem decodesSafely_of_none (h : Codec.IpPacket.deserialize frame = .ok none) :
    DecodesSafely text frame := by
  refine ⟨fun decoder => ?_, subtractsWhole_of_ip fun p hp => by rw [h] at hp; cases hp⟩
  by_cases hraw : decoder = .raw
  · rw [hraw]
    exact answers_raw frame
  · by_cases harp : decoder = .arp
    · rw [harp]
      exact answers_arp frame
    · exact ⟨false, answers_of_ip_none h decoder hraw harp⟩

section Accepted

variable (hraw : ({} : RawPacket).deserialize frame = .ok (true, raw)) (hhdr : raw.ethHdrLen = hdr)
  (hle : hdr ≤ frame.length) (hlt : frame.length < 2 ^ 31)

include hraw hhdr hle hlt

theorem decodesSafely_of_readable (h : Readable text frame hdr) : DecodesSafely text frame := by
  have hview := deserialize_view frame
  rcases ip_of_readable hraw hhdr hle hlt h with hnone | ⟨ip, hsome⟩
  · rw [hnone] at hview
    obtain ⟨p?, hp, hnone⟩ := map_eq_ok.mp hview.symm
    rw [Option.map_eq_none_iff.mp hnone] at hp
    exact decodesSafely_of_none hp
  rw [hsome] at hview
  obtain ⟨p, hp, -⟩ := map_eq_some.mp hview.symm
  obtain ⟨hp_hdr, total, hannounced, hreserved, hlong, hpayload⟩ := ip_accepted hraw hhdr hle hlt hp
  have hcovers := (h.covers total hannounced).resolve_left hreserved
  have hfits := hannounced.fits
  have htotal := UInt16.toNat_lt total
  have hsize : p.ipPayload.size = total.toNat - 20 := by
    rw [hpayload]
    exact subU32_of_le hcovers (by omega)
  have hmemory : p.ipPayload.memory = frame.drop (hdr + 20) := by rw [hpayload]
  have hroom : p.ipPayload.size ≤ p.ipPayload.memory.length := by
    rw [hsize, hmemory, List.length_drop]
    omega
  refine ⟨fun decoder => ?_, subtractsWhole_of_ip fun q hq => ?_⟩
  · cases decoder with
    | raw => exact answers_raw frame
    | arp => exact answers_arp frame
    | ip => exact answers_map_iff.mpr ⟨_, hp⟩
    | tcp => exact answers_map_iff.mpr (answers_tcp hp hroom)
    | icmp => exact answers_map_iff.mpr (answers_icmp hp hroom)
    | udp =>
        obtain ⟨packet, hpacket⟩ := answers_udp hp hroom
        rw [Decoder.decode, hpacket, ok_bind]
        refine Answers.bind ?_ fun _ => answers_ok _
        by_cases hshort : p.ipPayload.size < Codec.UdpPacket.hdrSize
        · rw [log_of_short hp hshort]
          exact answers_ok ()
        · have height : 8 ≤ p.ipPayload.size := Nat.not_lt.mp hshort
          obtain ⟨udpHdrLen, hlen⟩ := exists_readU16 (show 4 + 2 ≤ p.ipPayload.memory.length by omega)
          rw [log_eq hp height hlen]
          refine Answers.ite (fun hne => ?_) fun _ => answers_ok ()
          rw [hmemory, readU16_drop hlong] at hlen
          exact h.agrees total udpHdrLen hannounced hreserved (by omega) hlen (by omega)
  · obtain rfl := Option.some.inj (Except.ok.inj (hp.symm.trans hq))
    refine ⟨total, ?_, ?_⟩
    · rw [hp_hdr]
      exact hannounced.announced
    · rw [hsize]
      exact Nat.sub_add_cancel hcovers

theorem readable_of_decodesSafely (h : DecodesSafely text frame) : Readable text frame hdr := by
  have hview := deserialize_view frame
  have hip : Answers (IronStack.IpPacket.deserialize frame) := by
    rw [hview]
    exact answers_map_iff.mpr (answers_map_iff.mp (h.returns .ip))
  obtain ⟨hbegins, hmeasured, hsome⟩ := of_answers_ip hraw hhdr hle hlt hip
  -- a packet with a length that is announced, and without the bit, is accepted
  have haccepted : ∀ total, Announces frame hdr total → ¬ Reserved frame hdr →
      ∃ p, Codec.IpPacket.deserialize frame = .ok (some p) ∧ hdr + 20 ≤ frame.length ∧
        p.ipPayload.memory = frame.drop (hdr + 20) ∧ p.ipPayload.size + 20 = total.toNat := by
    intro total hannounced hreserved
    obtain ⟨ip, hok⟩ := hsome total hannounced hreserved
    rw [hok] at hview
    obtain ⟨p, hp, -⟩ := map_eq_some.mp hview.symm
    obtain ⟨hp_hdr, total', hannounced', _, hlong, hpayload⟩ := ip_accepted hraw hhdr hle hlt hp
    refine ⟨p, hp, hlong, by rw [hpayload], h.lengths.ip p total hp ?_⟩
    rw [hp_hdr]
    exact hannounced.announced
  refine ⟨hbegins, hmeasured, fun total hannounced => ?_,
    fun total udpHdrLen hannounced hreserved hlong hlen hne => ?_⟩
  · by_cases hreserved : Reserved frame hdr
    · exact .inl hreserved
    · obtain ⟨p, _, _, _, hsize⟩ := haccepted total hannounced hreserved
      exact .inr (by omega)
  · obtain ⟨p, hp, hlong, hmemory, hsize⟩ := haccepted total hannounced hreserved
    have hread : readU16 p.ipPayload.memory 4 = .ok udpHdrLen := by
      rw [hmemory, readU16_drop hlong]
      exact hlen
    obtain ⟨packet, hpacket, hlog⟩ := (h.returns .udp).of_bind
    obtain ⟨_, hlog, _⟩ := hlog.of_bind
    have height : Codec.UdpPacket.hdrSize ≤ p.ipPayload.size := by
      rw [Codec.UdpPacket.hdrSize]
      omega
    rw [log_eq hp height hread, if_pos (by omega)] at hlog
    exact ⟨_, hlog⟩

end Accepted

/--
**A frame is decoded safely if and only if** it is of no type that is taken, or what is behind its
Ethernet header can be read.
-/
theorem frameDecodesSafely_iff (text : Read Unit) {frame : Bytes} (hlt : frame.length < 2 ^ 31) :
    DecodesSafely text frame ↔ ∀ hdr, TakenAt frame hdr → Readable text frame hdr := by
  obtain ⟨status, raw, hraw, _⟩ := exists_deserialize {} frame
  cases status with
  | false =>
      refine ⟨fun _ hdr htaken => ?_, fun _ => decodesSafely_of_none ?_⟩
      · obtain ⟨raw', hraw', _⟩ := raw_taken_iff.mpr htaken
        rw [hraw] at hraw'
        cases hraw'
      · rw [Codec.IpPacket.deserialize, hraw]
        rfl
  | true =>
      have hle := (header_of_deserialize hraw).1
      refine ⟨fun h hdr htaken => ?_, fun h => ?_⟩
      · obtain ⟨raw', hraw', hhdr⟩ := raw_taken_iff.mpr htaken
        obtain rfl := (Prod.mk.inj (Except.ok.inj (hraw.symm.trans hraw'))).2
        exact readable_of_decodesSafely hraw hhdr (by omega) hlt h
      · exact decodesSafely_of_readable hraw rfl hle hlt (h _ (raw_taken_iff.mp ⟨raw, hraw, rfl⟩))

/-- An Ethernet header that is typed as ARP, and nothing behind it. -/
def bareFrame : Bytes := List.replicate 12 0 ++ [0x08, 0x06]

theorem bareFrame_iff : DecodesSafely (.ok ()) bareFrame ↔
    ∀ hdr, TakenAt bareFrame hdr → Readable (.ok ()) bareFrame hdr :=
  frameDecodesSafely_iff (.ok ()) (by decide)

/-- The IP decoder reads past its end. -/
theorem bareFrame_unsafe : ¬ DecodesSafely (.ok ()) bareFrame := by
  intro h
  obtain ⟨status, hstatus⟩ := h.returns .ip
  have herror : Decoder.decode (.ok ()) bareFrame .ip = .error .outOfBounds := by rfl
  rw [herror] at hstatus
  cases hstatus

end Decoders

end IronStack.Proof
