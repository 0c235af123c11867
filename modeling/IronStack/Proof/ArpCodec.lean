import IronStack.Arp.ArpPacket
import IronStack.Proof.Ethernet

/-!
# ARP packets, there and back

An ARP packet is read out of the frame it was packed into, if the Ethernet parser
takes the type in the frame. That is so of every packet whose type was left alone,
and the ARP parser does not look at the type again. What it accepts it packs to the
same bytes, as far as they belong to the packet.
-/

namespace IronStack.Proof

open Lib

namespace ArpPacket

open IronStack.ArpPacket IronStack.Proof.RawPacket

variable {p q : ArpPacket} {b : Bytes} {ethertype : UInt16}

/-- The fields that have to come back. -/
structure Reproduces (p q : ArpPacket) : Prop where
  srcMac : q.srcMac = p.srcMac
  destMac : q.destMac = p.destMac
  tag : tag q.toRawPacket = tag p.toRawPacket
  arpRequest : q.arpRequest = p.arpRequest
  senderMac : q.senderMac = p.senderMac
  srcIp : q.srcIp = p.srcIp
  receiverMac : q.receiverMac = p.receiverMac
  destIp : q.destIp = p.destIp

/-- The packet comes back from the frame it is packed into. -/
def RoundTrips (p : ArpPacket) : Prop :=
  ∃ frame q, p.serialize = .ok frame ∧ deserialize frame = .ok (some q) ∧ Reproduces p q

/--
The type that the packet is packed with is one the Ethernet parser takes. Where IPv4 has
its protocol, there is a byte of the address of the sender.
-/
def TypeTaken (p : ArpPacket) : Prop :=
  ∃ ethertype, p.ethertypeToPack = .ok ethertype ∧ Taken ethertype p.senderMac.addr[1]

/-- The bytes give the packet again: the Ethernet header with its tag, and the 28 bytes behind it. -/
def Reserializes (b : Bytes) (q : ArpPacket) : Prop :=
  ∃ frame, q.serialize = .ok frame ∧ frame.length = q.ethHdrLen + hdrSize ∧
    frame = b.take (q.ethHdrLen + hdrSize)

theorem serialize_of_ethertype (h : p.ethertypeToPack = .ok ethertype) :
    p.serialize = .ok (header p.toRawPacket ethertype ++ p.serializeHdr) := by
  rw [serialize, serialize_of_type h]
  rfl

/-! ## What was packed -/

/-- The 28 bytes are read as they were written, wherever they are. -/
theorem deserialize_of_header {raw : RawPacket} {hdr : Bytes} (hlen : hdr.length = raw.ethHdrLen)
    (h : ({} : ArpPacket).toRawPacket.deserialize (hdr ++ p.serializeHdr) = .ok (true, raw)) :
    deserialize (hdr ++ p.serializeHdr) = .ok (some { p with toRawPacket := raw }) := by
  have hroom : ¬ (hdr ++ p.serializeHdr).length < raw.ethHdrLen + hdrSize := by
    rw [List.length_append, length_serializeHdr, hlen]
    exact Nat.lt_irrefl _
  rw [deserialize, h]
  simp only [ok_bind, Bool.not_true, Bool.false_eq_true, if_false, if_neg hroom]
  rw [← hlen]
  simp (disch := simp) only [serializeHdr, List.append_assoc, readU16_append_right, readU8_append_right,
    readVec_append_right, Nat.add_sub_cancel_left, Nat.sub_self, length_be16, Vector.length_toList,
    Nat.reduceSub, List.cons_append, List.nil_append,
    readU16_be16, readU8_cons, readU8_cons_succ, readU16_cons_succ,
    readVec_cons_succ, readVec_toList, readVec_toList_self, ok_bind]
  cases hrequest : p.arpRequest with
  | true => rfl
  | false => rfl

/-! ## What was accepted -/

/-- What the parser saw of a packet it accepted. -/
theorem deserialize_inv (h : deserialize b = .ok (some q)) :
    ({} : ArpPacket).toRawPacket.deserialize b = .ok (true, q.toRawPacket) ∧
      q.ethHdrLen + hdrSize ≤ b.length ∧ q.serializeHdr = (b.drop q.ethHdrLen).take hdrSize := by
  rw [deserialize] at h
  obtain ⟨⟨status, raw⟩, hraw, h⟩ := bind_eq_ok.mp h
  cases status with
  | false => cases h
  | true =>
      simp only [Bool.not_true, Bool.false_eq_true, if_false] at h
      split at h
      · cases h
      · rename_i hroom
        obtain ⟨hardwareType, hhard, h⟩ := bind_eq_ok.mp h
        obtain ⟨protocolType, hproto, h⟩ := bind_eq_ok.mp h
        obtain ⟨hardwareAddressLen, hhlen, h⟩ := bind_eq_ok.mp h
        obtain ⟨protocolAddressLen, hplen, h⟩ := bind_eq_ok.mp h
        obtain ⟨opType, hop, h⟩ := bind_eq_ok.mp h
        split at h
        · cases h
        · rename_i hchecks
          obtain ⟨senderMac, hsender, h⟩ := bind_eq_ok.mp h
          obtain ⟨srcIp, hsrc, h⟩ := bind_eq_ok.mp h
          obtain ⟨receiverMac, hreceiver, h⟩ := bind_eq_ok.mp h
          obtain ⟨destIp, hdest, h⟩ := bind_eq_ok.mp h
          obtain rfl := Option.some.inj (Except.ok.inj h)
          simp only [ne_eq, decide_not, Bool.or_eq_true, Bool.not_eq_true', decide_eq_false_iff_not, not_or,
            Decidable.not_not, decide_eq_true_eq] at hchecks
          obtain ⟨⟨⟨⟨⟨rfl, rfl⟩, rfl⟩, rfl⟩, hlow⟩, hhigh⟩ := hchecks
          refine ⟨hraw, Nat.not_lt.mp hroom, ?_⟩
          -- one of the two operations, which the flag tells apart
          have hop' : (if (opType == 1) = true then (1 : UInt16) else 2) = opType := by
            split
            · rename_i hone
              exact (beq_iff_eq.mp hone).symm
            · rename_i hone
              rw [beq_iff_eq] at hone
              grind
          change be16 1 ++ be16 0x0800 ++ ([6] ++ [4]) ++ be16 _ ++ senderMac.toList ++ srcIp.toList ++
            receiverMac.toList ++ destIp.toList = (b.drop raw.ethHdrLen).take 28
          rw [hop', be16_of_readU16 hhard, be16_of_readU16 hproto, singleton_of_readU8 hhlen,
            singleton_of_readU8 hplen, be16_of_readU16 hop, toList_of_readVec hsender, toList_of_readVec hsrc,
            toList_of_readVec hreceiver, toList_of_readVec hdest, take_drop_append_take_drop b _ 2 2,
            take_drop_append_take_drop b _ 1 1, take_drop_append_take_drop b _ 4 2,
            take_drop_append_take_drop b _ 6 2, take_drop_append_take_drop b _ 8 6,
            take_drop_append_take_drop b _ 14 4, take_drop_append_take_drop b _ 18 6,
            take_drop_append_take_drop b _ 24 4]

/-- **What is accepted is packed again** to the byte. -/
theorem reserializes (h : deserialize b = .ok (some q)) : Reserializes b q := by
  obtain ⟨hraw, hroom, hbody⟩ := deserialize_inv h
  obtain ⟨-, htype, hheader, -, -⟩ := header_of_deserialize hraw
  have hlen : (b.take (q.ethHdrLen + hdrSize)).length = q.ethHdrLen + hdrSize := List.length_take_of_le hroom
  refine ⟨_, serialize_of_ethertype htype, ?_, ?_⟩
  · rw [List.length_append, length_header, length_serializeHdr]
  · rw [hheader, hbody, List.take_add]

/-! ## Which packets come back -/

theorem readU8_serializeHdr (p : ArpPacket) : readU8 p.serializeHdr 9 = .ok p.senderMac.addr[1] := by
  rw [readU8_of_lt (by rw [length_serializeHdr]; decide)]
  refine congrArg Except.ok ?_
  simp [serializeHdr, be16, toBE]

/-- What the Ethernet parser makes of the frame. -/
theorem deserialize_arpFrame (hwidth : TagInWidth p.toRawPacket)
    (hannounced : ethertype ≠ 0x8100 ∨ p.hasVlanTag = true) :
    ({} : ArpPacket).toRawPacket.deserialize (header p.toRawPacket ethertype ++ p.serializeHdr) =
      .ok (frameType ethertype p.senderMac.addr[1] != .unknown,
        { parsed ({} : ArpPacket).toRawPacket p.toRawPacket ethertype with
          packetType := frameType ethertype p.senderMac.addr[1] }) :=
  deserialize_frame hwidth hannounced (by rw [length_serializeHdr]; decide) (readU8_serializeHdr p)

/-- **A packet comes back exactly if its type is taken.** -/
theorem roundTrips_iff (hwidth : TagInWidth p.toRawPacket) : RoundTrips p ↔ TypeTaken p := by
  refine ⟨?_, ?_⟩
  · intro ⟨frame, q, hser, hdes, hsame⟩
    obtain ⟨hraw, hroom, -⟩ := deserialize_inv hdes
    obtain ⟨hdr, hhdr, hframe⟩ := bind_eq_ok.mp hser
    obtain ⟨ethertype, htype, rfl⟩ := serialize_eq_ok hhdr
    obtain rfl := Except.ok.inj hframe
    refine ⟨ethertype, htype, ?_⟩
    rw [deserialize_arpFrame hwidth (announced_of_tag hraw hsame.tag)] at hraw
    exact frameType_ne_unknown.mp (bne_iff_ne.mp (congrArg Prod.fst (Except.ok.inj hraw)))
  · intro ⟨ethertype, htype, htaken⟩
    have hraw := deserialize_arpFrame hwidth (.inl htaken.ne)
    rw [bne_iff_ne.mpr (frameType_ne_unknown.mpr htaken)] at hraw
    refine ⟨_, _, serialize_of_ethertype htype, deserialize_of_header (by exact length_header _ _) hraw, ?_⟩
    refine ⟨rfl, rfl, ?_, rfl, rfl, rfl, rfl, rfl⟩
    change tag (parsed ({} : ArpPacket).toRawPacket p.toRawPacket ethertype) = tag p.toRawPacket
    exact tag_parsed

/--
**ARP packets, there and back.** A packet with a tag that fits comes back from its
frame exactly if the Ethernet parser takes its type, and bytes that are accepted are
those that the packet is packed to.
-/
theorem arp_codec : (∀ p : ArpPacket, TagInWidth p.toRawPacket → (RoundTrips p ↔ TypeTaken p)) ∧
    ∀ b q, deserialize b = .ok (some q) → Reserializes b q :=
  ⟨fun _ => roundTrips_iff, fun _ _ => reserializes⟩

/-- A reply, tagged with the highest priority and VLAN. -/
def taggedReply : ArpPacket where
  hasVlanTag := true
  vlanPcp := 7
  dei := true
  vlanId := 4095
  srcMac := .ofOctets 2 0 0 0 0 1
  destMac := .ofOctets 2 0 0 0 0 2
  senderMac := .ofOctets 2 0 0 0 0 1
  receiverMac := .ofOctets 2 0 0 0 0 2
  arpRequest := false
  srcIp := .ofOctets 10 0 0 1
  destIp := .ofOctets 10 0 0 2

theorem arp_codec_taggedReply : RoundTrips taggedReply ∧
    ∃ frame q, taggedReply.serialize = .ok frame ∧ deserialize frame = .ok (some q) ∧
      Reserializes frame q := by
  have htrip : RoundTrips taggedReply :=
    (arp_codec.1 taggedReply fun _ => ⟨by decide, by decide⟩).mpr ⟨0x0806, rfl, .inl rfl⟩
  refine ⟨htrip, ?_⟩
  obtain ⟨frame, q, hser, hdes, -⟩ := htrip
  exact ⟨frame, q, hser, hdes, arp_codec.2 frame q hdes⟩

/-- A packet that was given the type of IPv4. -/
def typedAsIp : ArpPacket where
  ethertype := 0x0800

/-- A packet whose type was overwritten does not come back. -/
theorem typedAsIp_lost :
    ¬ ((∀ p : ArpPacket, TagInWidth p.toRawPacket → RoundTrips p) ∧
      ∀ b q, deserialize b = .ok (some q) → Reserializes b q) := by
  intro ⟨htrips, _⟩
  obtain ⟨frame, q, hser, hdes, _⟩ := htrips typedAsIp nofun
  have hframe := Except.ok.inj hser
  rw [← hframe] at hdes
  cases hdes

end ArpPacket

end IronStack.Proof
