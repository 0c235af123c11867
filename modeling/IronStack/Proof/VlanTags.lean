import IronStack.Lib.Dot1q
import IronStack.Net.Flooding
import IronStack.Proof.Buffers

/-!
# Setting and stripping the tag of a frame

Setting a tag works, on a frame that is more than a header. Stripping one never
does: a frame with a single tag is taken for untagged and copied as it is, and of a
frame with two of them too little is left.
-/

namespace IronStack.Proof

open IronStack Lib StdPacketUtils NetUtils OwnedAutobuf

/-! ## Setting a tag -/

/-- The tag that is written has the VLAN's low bits, and nothing above them. -/
theorem tagBytes_zero (vlan : UInt16) : tagBytes 0 vlan = be16 (vlan &&& 0x0fff) := by
  have hvlan : (vlan &&& 0x0fff).toNat = vlan.toNat % 4096 := by
    rw [UInt16.toNat_and]
    exact Nat.and_two_pow_sub_one_eq_mod vlan.toNat 12
  have hhigh : ((0 : UInt8) &&& (0xf0 : UInt8)) ||| ((vlan >>> 8) &&& 0x0f).toUInt8 =
      UInt8.ofNat ((vlan &&& 0x0fff).toNat / 256 ^ 1) := by
    apply UInt8.toNat_inj.mp
    have hshift : ((vlan >>> 8) &&& 0x0f).toNat = vlan.toNat / 256 % 16 := by
      rw [UInt16.toNat_and, UInt16.toNat_shiftRight]
      exact (Nat.and_two_pow_sub_one_eq_mod _ 4).trans
        (congrArg (· % 16) (Nat.shiftRight_eq_div_pow vlan.toNat 8))
    rw [UInt8.zero_and, UInt8.zero_or, UInt16.toNat_toUInt8, hshift, UInt8.toNat_ofNat', hvlan]
    omega
  have hlow : (vlan &&& 0x00ff).toUInt8 = UInt8.ofNat ((vlan &&& 0x0fff).toNat / 256 ^ 0) := by
    apply UInt8.toNat_inj.mp
    have hmask : (vlan &&& 0x00ff).toNat = vlan.toNat % 256 := by
      rw [UInt16.toNat_and]
      exact Nat.and_two_pow_sub_one_eq_mod vlan.toNat 8
    rw [UInt16.toNat_toUInt8, hmask, UInt8.toNat_ofNat', hvlan]
    omega
  rw [tagBytes, hhigh, hlow]
  rfl

/-- Copying out a part of an untagged frame. -/
theorem slice_withoutTag (f : Frame) : slice f.withoutTag 0 12 = .ok f.addresses ∧
    slice f.withoutTag 12 2 = .ok (f.payload.take 2) ∧
    slice f.withoutTag 14 (f.payload.length - 2) = .ok (f.payload.drop 2) := by
  have hpayload := f.two_le_length
  have haddr := f.length_addresses
  refine ⟨?_, ?_, ?_⟩
  · have h := slice_append_left f.addresses f.payload
    rwa [haddr] at h
  · rw [Frame.withoutTag, slice_append_right (by omega), haddr, slice_ok (by omega)]
    rfl
  · rw [Frame.withoutTag, slice_append_right (by omega), haddr, slice_ok (by omega),
      List.take_of_length_le (by rw [List.length_drop])]

/-- A header with the tag in it. -/
def taggedHeader (f : Frame) (vlan : UInt16) : Bytes :=
  f.addresses ++ [0x81, 0x00] ++ tagBytes 0 vlan ++ f.payload.take 2

theorem length_taggedHeader (f : Frame) (vlan : UInt16) : (taggedHeader f vlan).length = 18 := by
  have hpayload := f.two_le_length
  simp only [taggedHeader, tagBytes, List.length_append, f.length_addresses, List.length_cons,
    List.length_nil, List.length_take]
  omega

/-- The tagged header, and behind it the rest of the frame. -/
theorem taggedHeader_append (f : Frame) (vlan : UInt16) :
    taggedHeader f vlan ++ f.payload.drop 2 = f.withTag (vlan &&& 0x0fff) := by
  rw [taggedHeader, tagBytes_zero, Frame.withTag]
  simp only [List.append_assoc, List.take_append_drop]
  rfl

/-- What setting the tag of an untagged frame comes to, once the header is written. -/
theorem setVlanTag_untagged (junk : Nat → UInt8) {f : Frame} (h : f.tag = none)
    (hlt : f.bytes.length < 2 ^ 16) (vlan : UInt16) :
    ∃ grown : OwnedAutobuf, grown.beginOffset = 0 ∧ grown.contentSize = f.payload.length + 16 ∧
      f.payload.length + 16 ≤ grown.writeableBuf.length ∧
      setVlanTag junk f.bytes {} vlan = (do
        ptrOffsetMutable (f.payload.length + 16) 18
        let memory ← overwrite (taggedHeader f vlan ++ grown.writeableBuf.drop 18) 18 (f.payload.drop 2)
        return (true, { grown with writeableBuf := memory })) := by
  have hpayload := f.two_le_length
  have hlen := Frame.length_bytes_untagged h
  obtain ⟨haddresses, htypeBytes, hrest⟩ := slice_withoutTag f
  obtain ⟨type, htype⟩ := exists_readU16 (show 12 + 2 ≤ f.bytes.length by omega)
  have htag : type ≠ 0x8100 := by
    intro heq
    have hsome := Frame.readU16_bytes_type.mp (by rw [htype, heq])
    rw [h] at hsome
    exact Bool.false_ne_true hsome
  have hroom : ¬ f.bytes.length < RawPacket.untaggedHdrSize := Nat.not_lt.mpr f.fourteen_le_length
  have hsize : (f.bytes.length + 18 - 14) % 2 ^ 32 = f.payload.length + 16 := by omega
  have hbehind : f.bytes.length - 14 = f.payload.length - 2 := by omega
  obtain ⟨grown, hgrown, hroomy, hcontent, _⟩ :=
    createEmptyBuffer_spec junk valid_fresh (by omega : f.payload.length + 16 ≤ 2 ^ 31)
  have hmemory : f.payload.length + 16 ≤ grown.writeableBuf.length := by
    rw [hroomy.length_eq]
    exact hroomy.room
  have hhead : (f.addresses ++ [0x81, 0x00]).length = 14 := by
    rw [List.length_append, f.length_addresses]
    rfl
  have htagged : (f.addresses ++ [0x81, 0x00] ++ tagBytes 0 vlan).length = 16 := by
    rw [List.length_append, hhead]
    rfl
  have htwo : (f.payload.take 2).length = 2 := by
    rw [List.length_take]
    omega
  -- the memory is written from its front on, each time where the last write ended
  have hwrite₁ : overwrite grown.writeableBuf 0 f.addresses =
      .ok (f.addresses ++ grown.writeableBuf.drop 12) := by
    rw [overwrite_zero (by rw [f.length_addresses]; omega), f.length_addresses]
  have hwrite₂ : overwrite (f.addresses ++ grown.writeableBuf.drop 12) 12 [0x81, 0x00] =
      .ok (f.addresses ++ [0x81, 0x00] ++ grown.writeableBuf.drop 14) :=
    overwrite_drop f.length_addresses (by rw [List.length_cons, List.length_singleton]; omega)
  have hwrite₃ : overwrite (f.addresses ++ [0x81, 0x00] ++ grown.writeableBuf.drop 14) 14
      (tagBytes 0 vlan) =
      .ok (f.addresses ++ [0x81, 0x00] ++ tagBytes 0 vlan ++ grown.writeableBuf.drop 16) :=
    overwrite_drop hhead (by rw [tagBytes, List.length_cons, List.length_singleton]; omega)
  have hwrite₄ : overwrite (f.addresses ++ [0x81, 0x00] ++ tagBytes 0 vlan ++ grown.writeableBuf.drop 16) 16
      (f.payload.take 2) = .ok (taggedHeader f vlan ++ grown.writeableBuf.drop 18) := by
    rw [overwrite_drop htagged (by rw [htwo]; omega), htwo]
    rfl
  refine ⟨grown, hroomy.front, hcontent, hmemory, ?_⟩
  rw [setVlanTag, if_neg hroom, htype, ok_bind, if_neg htag]
  simp only [RawPacket.untaggedHdrSize, RawPacket.taggedHdrSize]
  rw [hsize, hbehind, hgrown, ok_bind, Frame.bytes_untagged h, haddresses, ok_bind, hroomy.front, hcontent]
  simp only [Nat.zero_add]
  rw [hwrite₁, ok_bind, hwrite₂, ok_bind, hwrite₃, ok_bind, htypeBytes, ok_bind, hwrite₄, ok_bind, hrest,
    ok_bind]

/-- **Setting the tag of an untagged frame** that has something behind its header. -/
theorem taggedPacket_untagged (junk : Nat → UInt8) {f : Frame} (h : f.tag = none)
    (hlong : 14 < f.bytes.length) (hlt : f.bytes.length < 2 ^ 16) (vlan : UInt16) :
    taggedPacket junk f.bytes vlan = .ok (f.withTag (vlan &&& 0x0fff)) := by
  have hlen := Frame.length_bytes_untagged h
  obtain ⟨grown, hfront, hcontent, hmemory, hset⟩ := setVlanTag_untagged junk h hlt vlan
  have hoffset : ptrOffsetMutable (f.payload.length + 16) 18 = .ok () :=
    ptrOffsetMutable_of_lt (by omega) (by omega)
  have hdrop : (f.payload.drop 2).length = f.payload.length - 2 := List.length_drop
  have hwrite : overwrite (taggedHeader f vlan ++ grown.writeableBuf.drop 18) 18 (f.payload.drop 2) =
      .ok (f.withTag (vlan &&& 0x0fff) ++ grown.writeableBuf.drop (18 + (f.payload.drop 2).length)) := by
    rw [overwrite_drop (length_taggedHeader f vlan) (by rw [hdrop]; omega), taggedHeader_append]
  have hfinal : (f.withTag (vlan &&& 0x0fff)).length = f.payload.length + 16 := by
    rw [Frame.length_withTag, Nat.add_comm]
  rw [taggedPacket, hset, hoffset, ok_bind, hwrite, ok_bind]
  refine congrArg Except.ok ?_
  dsimp only [content]
  rw [hfront, hcontent, List.drop_zero, List.take_left' hfinal]

/-- A header alone leaves no room behind its tag: the controller aborts. -/
theorem taggedPacket_header (junk : Nat → UInt8) {f : Frame} (h : f.tag = none)
    (hshort : f.bytes.length = 14) (vlan : UInt16) :
    taggedPacket junk f.bytes vlan = .error .aborted := by
  have hlen := Frame.length_bytes_untagged h
  obtain ⟨grown, _, _, _, hset⟩ := setVlanTag_untagged junk h (by omega) vlan
  rw [taggedPacket, hset, ptrOffsetMutable_of_le (by omega) (by omega)]
  rfl

/-! ## Stripping a tag -/

/-- The size that is computed for a stripped frame, where its header is written without an abort. -/
theorem strippedSize_le {size : Nat} (hlong : 18 ≤ size) (hlt : size < 2 ^ 32)
    (h : ptrOffsetMutable (subU32 (subU32 size 18) 14) 14 = .ok ()) :
    subU32 (subU32 size 18) 14 + 32 ≤ size := by
  rw [subU32_of_le hlong (by omega)] at h ⊢
  by_cases hlarge : 32 ≤ size
  · rw [subU32_of_le (by omega) (by omega)]
    omega
  · -- the size has wrapped around, and is negative for the check
    have hwrapped : 2 ^ 31 ≤ subU32 (size - 18) 14 ∧ subU32 (size - 18) 14 < 2 ^ 32 := by
      rw [subU32]
      omega
    have hneg := asInt_neg hwrapped.1 hwrapped.2
    have hpos : asInt 14 = 14 := asInt_of_lt (by omega)
    rw [ptrOffsetMutable, if_pos (by omega)] at h
    exact absurd h (by simp)

/-- What is stripped keeps its length, or loses the size of both headers. -/
theorem untaggedPacket_length (junk : Nat → UInt8) {packet stripped : Bytes} (hlong : 18 ≤ packet.length)
    (hlt : packet.length < 2 ^ 32) (hs : untaggedPacket junk packet = .ok stripped) :
    stripped.length = packet.length ∨ stripped.length + 32 ≤ packet.length := by
  have hroom : ¬ packet.length < RawPacket.untaggedHdrSize := by
    rw [RawPacket.untaggedHdrSize]
    omega
  obtain ⟨ethertype, htype⟩ := exists_readU16 (show 16 + 2 ≤ packet.length by omega)
  rw [untaggedPacket, stripVlanTag, if_neg hroom, htype, ok_bind] at hs
  -- the code looks at the type behind the tag, so only a second tag makes it strip the first
  by_cases hnested : ethertype = 0x8100
  · rw [if_neg (not_not_intro hnested)] at hs
    simp only [RawPacket.untaggedHdrSize, RawPacket.taggedHdrSize] at hs
    obtain ⟨result, hresult, rfl⟩ := map_eq_ok.mp hs
    obtain ⟨grown, hgrown, hresult⟩ := bind_eq_ok.mp hresult
    obtain ⟨addresses, _, hresult⟩ := bind_eq_ok.mp hresult
    obtain ⟨memory₁, _, hresult⟩ := bind_eq_ok.mp hresult
    obtain ⟨typeBytes, _, hresult⟩ := bind_eq_ok.mp hresult
    obtain ⟨memory₂, _, hresult⟩ := bind_eq_ok.mp hresult
    obtain ⟨_, hoffset, hresult⟩ := bind_eq_ok.mp hresult
    obtain ⟨rest, _, hresult⟩ := bind_eq_ok.mp hresult
    obtain ⟨memory₃, _, hresult⟩ := bind_eq_ok.mp hresult
    have hcontent : grown.contentSize = subU32 (subU32 packet.length 18) 14 :=
      (congrArg contentSize (Except.ok.inj hgrown)).symm
    rw [hcontent] at hoffset
    have hsize := strippedSize_le hlong hlt hoffset
    rw [← Except.ok.inj hresult]
    dsimp only [content]
    rw [List.length_take, hcontent]
    omega
  · rw [if_pos hnested] at hs
    obtain ⟨result, hresult, rfl⟩ := map_eq_ok.mp hs
    obtain ⟨copy, hcopy, hresult⟩ := bind_eq_ok.mp hresult
    obtain ⟨hfront, hcontent, rest, hmemory⟩ := setContent_filled junk valid_fresh hlt hcopy
    rw [← Except.ok.inj hresult]
    dsimp only [content]
    rw [hfront, hcontent, hmemory, List.drop_zero, List.take_left]
    exact .inl rfl

/--
**Stripping the tag of a frame** never gives the frame without its tag: it is copied
whole, or cut by the size of both headers.
-/
theorem untaggedPacket_ne (junk : Nat → UInt8) {f : Frame} {tag : UInt16} (h : f.tag = some tag)
    (hlt : f.bytes.length < 2 ^ 16) {stripped : Bytes} (hs : untaggedPacket junk f.bytes = .ok stripped) :
    stripped ≠ f.withoutTag := by
  have hlong := Frame.eighteen_le_length (Option.isSome_of_eq_some h)
  have hlen := Frame.length_bytes_tagged h
  have hcases := untaggedPacket_length junk hlong (by omega) hs
  intro heq
  rw [heq] at hcases
  omega

/-! ## Any frame -/

/-- Putting a tag into a frame makes it longer by four bytes. -/
theorem taggedPacket_length (junk : Nat → UInt8) {packet tagged : Bytes} (hlong : 14 ≤ packet.length)
    (hlt : packet.length < 2 ^ 32) (htype : readU16 packet 12 ≠ .ok 0x8100) {vlan : UInt16}
    (ht : taggedPacket junk packet vlan = .ok tagged) :
    tagged.length = packet.length + 4 ∧ 19 ≤ tagged.length ∧ tagged.length < 2 ^ 31 := by
  have hroom : ¬ packet.length < RawPacket.untaggedHdrSize := by
    rw [RawPacket.untaggedHdrSize]
    omega
  obtain ⟨type, hread⟩ := exists_readU16 (show 12 + 2 ≤ packet.length by omega)
  have hne : type ≠ 0x8100 := by
    rintro rfl
    exact htype hread
  rw [taggedPacket, setVlanTag, if_neg hroom, hread, ok_bind, if_neg hne] at ht
  simp only [RawPacket.untaggedHdrSize, RawPacket.taggedHdrSize] at ht
  obtain ⟨result, hresult, rfl⟩ := map_eq_ok.mp ht
  obtain ⟨grown, hgrown, hresult⟩ := bind_eq_ok.mp hresult
  obtain ⟨addresses, _, hresult⟩ := bind_eq_ok.mp hresult
  obtain ⟨memory₁, _, hresult⟩ := bind_eq_ok.mp hresult
  obtain ⟨memory₂, _, hresult⟩ := bind_eq_ok.mp hresult
  obtain ⟨memory₃, _, hresult⟩ := bind_eq_ok.mp hresult
  obtain ⟨typeBytes, _, hresult⟩ := bind_eq_ok.mp hresult
  obtain ⟨memory₄, _, hresult⟩ := bind_eq_ok.mp hresult
  obtain ⟨_, hoffset, hresult⟩ := bind_eq_ok.mp hresult
  obtain ⟨rest, hrest, hresult⟩ := bind_eq_ok.mp hresult
  obtain ⟨memory₅, hwrite, hresult⟩ := bind_eq_ok.mp hresult
  have hsize : grown.contentSize = (packet.length + 18 - 14) % 2 ^ 32 :=
    (congrArg contentSize (Except.ok.inj hgrown)).symm
  have hfront : grown.beginOffset = 0 := by
    rw [← Except.ok.inj hgrown]
    exact alloc_fresh_front junk _
  -- the check of the offset keeps sizes away that wrapped around, or are negative for it
  obtain ⟨hlarge, hsmall⟩ := ptrOffsetMutable_eq_ok (by omega) (by omega) hoffset
  obtain ⟨_, _, hlength⟩ := slice_eq_ok hrest
  obtain ⟨hfits, _, hsame⟩ := overwrite_eq_ok hwrite
  rw [← Except.ok.inj hresult]
  dsimp only [content]
  rw [List.length_take, List.length_drop, hfront]
  rw [hfront] at hfits
  omega

/-- A packet is as it was but for the VLAN of its tag. -/
structure ChangesVlanOnly (packet changed : Bytes) (vlan : UInt16) : Prop where
  length : changed.length = packet.length
  others : ∀ i, i ≠ 14 → i ≠ 15 → changed[i]? = packet[i]?
  priority : changed[14]?.map (· &&& 0xf0) = packet[14]?.map (· &&& 0xf0)
  vlan : 16 ≤ packet.length → ∃ tag, readU16 changed 14 = .ok tag ∧ Frame.vlanOf tag = vlan

section TagByte

variable (high : UInt8) (vlan : UInt16)

/-- The first byte of a tag keeps the priority. -/
theorem tagByte_and (mask : UInt8) :
    ((high &&& (0xf0 : UInt8)) ||| ((vlan >>> 8) &&& 0x0f).toUInt8) &&& mask =
      (high &&& ((0xf0 : UInt8) &&& mask)) ||| ((vlan >>> 8).toUInt8 &&& ((0x0f : UInt8) &&& mask)) := by
  have hdistrib : ∀ a b c : UInt8, (a ||| b) &&& c = (a &&& c) ||| (b &&& c) :=
    fun a b c => UInt8.toBitVec_inj.mp BitVec.and_or_distrib_right
  rw [hdistrib, UInt16.toUInt8_and, UInt8.and_assoc, UInt8.and_assoc]
  rfl

theorem tagByte_priority :
    ((high &&& (0xf0 : UInt8)) ||| ((vlan >>> 8) &&& 0x0f).toUInt8) &&& 0xf0 = high &&& 0xf0 := by
  have hnone : (vlan >>> 8).toUInt8 &&& ((0x0f : UInt8) &&& 0xf0) = 0 := UInt8.and_zero
  rw [tagByte_and, hnone, UInt8.or_zero]
  rfl

/-- The word of a tag has the VLAN in it. -/
theorem vlanOf_tagBytes (h : vlan < 4096) :
    Frame.vlanOf (UInt16.ofNat (ofBE (tagBytes high vlan))) = vlan := by
  have hvlan : vlan.toNat < 4096 := UInt16.lt_iff_toNat_lt.mp h
  have hlow : (vlan &&& 0x00ff).toUInt8.toNat = vlan.toNat % 256 := by
    rw [UInt16.toNat_toUInt8, UInt16.toNat_and]
    have hmask : vlan.toNat &&& (0x00ff : UInt16).toNat = vlan.toNat % 256 :=
      Nat.and_two_pow_sub_one_eq_mod vlan.toNat 8
    rw [hmask, Nat.mod_mod]
  have hhigh : ((high &&& (0xf0 : UInt8)) ||| ((vlan >>> 8) &&& 0x0f).toUInt8).toNat % 16 =
      vlan.toNat / 256 := by
    have hnone : high &&& ((0xf0 : UInt8) &&& 0x0f) = 0 := UInt8.and_zero
    have hbyte := tagByte_and high vlan 0x0f
    rw [hnone, UInt8.zero_or] at hbyte
    have hmod := congrArg UInt8.toNat hbyte
    rw [UInt8.toNat_and, UInt8.toNat_and, UInt16.toNat_toUInt8, UInt16.toNat_shiftRight] at hmod
    have hleft := Nat.and_two_pow_sub_one_eq_mod
      ((high &&& (0xf0 : UInt8)) ||| ((vlan >>> 8) &&& 0x0f).toUInt8).toNat 4
    have hright := Nat.and_two_pow_sub_one_eq_mod (vlan.toNat >>> ((8 : UInt16).toNat % 16) % 2 ^ 8) 4
    have hshift : vlan.toNat >>> ((8 : UInt16).toNat % 16) = vlan.toNat / 256 := Nat.shiftRight_eq_div_pow _ 8
    have hchain := hleft.symm.trans (hmod.trans hright)
    rw [hshift] at hchain
    omega
  have hword : ofBE (tagBytes high vlan) =
      ((high &&& (0xf0 : UInt8)) ||| ((vlan >>> 8) &&& 0x0f).toUInt8).toNat * 256 +
        (vlan &&& 0x00ff).toUInt8.toNat := by
    simp only [tagBytes, ofBE, List.foldl_cons, List.foldl_nil]
    omega
  have hbound := UInt8.toNat_lt ((high &&& (0xf0 : UInt8)) ||| ((vlan >>> 8) &&& 0x0f).toUInt8)
  rw [← UInt16.toNat_inj, Frame.vlanOf, UInt16.toNat_and, UInt16.toNat_ofNat']
  have hmask := Nat.and_two_pow_sub_one_eq_mod (ofBE (tagBytes high vlan) % 2 ^ 16) 12
  refine hmask.trans ?_
  rw [hword, hlow]
  omega

end TagByte

/-- The memory of a copy is whole pages. -/
theorem sixteen_le_requiredSize {size : Nat} (hpos : 0 < size) (hsize : size ≤ 2 ^ 31) :
    16 ≤ requiredSize size := by
  unfold requiredSize
  split
  · omega
  · omega

/-- A copy of a packet has room for a tag behind the addresses, be the packet as short as it may. -/
theorem fullCopyFrom_spec (junk : Nat → UInt8) {packet : Bytes} (hpos : 0 < packet.length)
    (hsize : packet.length ≤ 2 ^ 31) : ∃ copy rest, fullCopyFrom junk packet = .ok copy ∧
      copy.beginOffset = 0 ∧ copy.contentSize = packet.length ∧ copy.writeableBuf = packet ++ rest ∧
        16 ≤ copy.writeableBuf.length := by
  have hrequired := le_requiredSize hsize
  have hpages := sixteen_le_requiredSize hpos hsize
  have halloc : ({} : OwnedAutobuf).alloc junk packet.length =
      ({ writeableBuf := realloc junk [] (requiredSize packet.length)
         bufSize := requiredSize packet.length }, true) := by
    have hnone : ¬ 0 + packet.length ≤ 0 := by omega
    have hsome : requiredSize packet.length ≠ 0 := by omega
    exact (if_neg hnone).trans (if_neg hsome)
  have hlen : (realloc junk [] (requiredSize packet.length)).length = requiredSize packet.length :=
    length_realloc (Nat.zero_le _)
  have hwrite : overwrite (realloc junk [] (requiredSize packet.length)) 0 packet =
      .ok (packet ++ (realloc junk [] (requiredSize packet.length)).drop packet.length) :=
    overwrite_zero (by omega)
  refine ⟨{ writeableBuf := packet ++ (realloc junk [] (requiredSize packet.length)).drop packet.length
            bufSize := requiredSize packet.length, contentSize := packet.length }, _, ?_, rfl, rfl, rfl, ?_⟩
  · rw [fullCopyFrom, setContent, halloc]
    dsimp only
    rw [hwrite]
    rfl
  · rw [List.length_append, List.length_drop, hlen]
    omega

/-- Memory with the VLAN of the tag in it changed. -/
def retagged (memory : Bytes) (high : UInt8) (vlan : UInt16) : Bytes :=
  memory.take 14 ++ tagBytes high vlan ++ memory.drop 16

section Retagged

variable {memory : Bytes} (high : UInt8) (vlan : UInt16)

theorem length_retagged (h : 16 ≤ memory.length) : (retagged memory high vlan).length = memory.length := by
  have htwo : (tagBytes high vlan).length = 2 := rfl
  simp only [retagged, List.length_append, List.length_take, List.length_drop, htwo]
  omega

theorem getElem?_retagged (h : 16 ≤ memory.length) {i : Nat} (h14 : i ≠ 14) (h15 : i ≠ 15) :
    (retagged memory high vlan)[i]? = memory[i]? := by
  have htwo : (tagBytes high vlan).length = 2 := rfl
  have hfront : (memory.take 14 ++ tagBytes high vlan).length = 16 := by
    rw [List.length_append, List.length_take, htwo]
    omega
  by_cases hi : i < 14
  · rw [retagged, List.append_assoc, List.getElem?_append_left (by rw [List.length_take]; omega),
      List.getElem?_take_of_lt hi]
  · rw [retagged, List.getElem?_append_right (by omega), hfront, List.getElem?_drop]
    congr 1
    omega

theorem retagged_fourteen (h : 16 ≤ memory.length) : (retagged memory high vlan)[14]? =
    some ((high &&& (0xf0 : UInt8)) ||| ((vlan >>> 8) &&& 0x0f).toUInt8) := by
  have hfront : (memory.take 14).length = 14 := List.length_take_of_le (by omega)
  rw [retagged, List.append_assoc, List.getElem?_append_right (by omega), hfront]
  rfl

theorem readU16_retagged (h : 16 ≤ memory.length) {size : Nat} (hsize : 16 ≤ size) :
    readU16 ((retagged memory high vlan).take size) 14 = .ok (UInt16.ofNat (ofBE (tagBytes high vlan))) := by
  have hfront : (memory.take 14).length = 14 := List.length_take_of_le (by omega)
  have htwo : (tagBytes high vlan).length = 2 := rfl
  have hall : (retagged memory high vlan).take size =
      memory.take 14 ++ (tagBytes high vlan ++ (memory.drop 16).take (size - 16)) := by
    rw [retagged, List.take_append, List.take_of_length_le (by rw [List.length_append]; omega),
      List.length_append, hfront, htwo, List.append_assoc]
  rw [hall, readU16_append_right (by omega), hfront, readU16]
  have hslice := slice_append_left (tagBytes high vlan) ((memory.drop 16).take (size - 16))
  rw [htwo] at hslice
  rw [hslice]
  rfl

end Retagged

/-- **Setting the tag of a frame that has one** changes nothing but the VLAN. -/
theorem taggedPacket_tagged (junk : Nat → UInt8) {packet : Bytes} (hlong : 14 ≤ packet.length)
    (hsize : packet.length ≤ 2 ^ 31) (htype : readU16 packet 12 = .ok 0x8100) {vlan : UInt16}
    (hvlan : vlan < 4096) :
    ∃ changed, taggedPacket junk packet vlan = .ok changed ∧ ChangesVlanOnly packet changed vlan := by
  obtain ⟨copy, rest, hcopy, hfront, hcontent, hmemory, hroomy⟩ :=
    fullCopyFrom_spec junk (show 0 < packet.length by omega) hsize
  have hroom : ¬ packet.length < RawPacket.untaggedHdrSize := by
    rw [RawPacket.untaggedHdrSize]
    omega
  have hread : readU8 copy.writeableBuf 14 = .ok copy.writeableBuf[14] := readU8_of_lt (by omega)
  have hwrite : overwrite copy.writeableBuf 14 (tagBytes copy.writeableBuf[14] vlan) =
      .ok (retagged copy.writeableBuf copy.writeableBuf[14] vlan) := if_pos hroomy
  have hpacket : ∀ i, i < packet.length → copy.writeableBuf[i]? = packet[i]? := by
    intro i hi
    rw [hmemory, List.getElem?_append_left hi]
  refine ⟨(retagged copy.writeableBuf copy.writeableBuf[14] vlan).take packet.length, ?_, ⟨?_, ?_, ?_, ?_⟩⟩
  · rw [taggedPacket, setVlanTag, if_neg hroom, htype, ok_bind, if_pos rfl, hcopy, ok_bind, hfront,
      Nat.zero_add, hread, ok_bind, hwrite, ok_bind]
    refine congrArg Except.ok ?_
    dsimp only [content]
    rw [hcontent, List.drop_zero]
  · rw [List.length_take_of_le]
    rw [length_retagged _ _ hroomy, hmemory, List.length_append]
    omega
  · intro i h14 h15
    rw [List.getElem?_take]
    split
    · rename_i hi
      rw [getElem?_retagged _ _ hroomy h14 h15, hpacket i hi]
    · rename_i hi
      rw [List.getElem?_eq_none (Nat.le_of_not_lt hi)]
  · rw [List.getElem?_take]
    split
    · rename_i hi
      rw [← hpacket 14 hi, retagged_fourteen _ _ hroomy, List.getElem?_eq_getElem (by omega), Option.map_some,
        Option.map_some, tagByte_priority]
    · rename_i hi
      rw [List.getElem?_eq_none (Nat.le_of_not_lt hi)]
  · intro htag
    exact ⟨_, readU16_retagged _ _ hroomy htag, vlanOf_tagBytes _ _ hvlan⟩

/--
The tagging of a packet: an untagged one is got back by stripping what it was tagged to, a tagged
one is stripped of its tag, and a tag that is set again changes only the VLAN.
-/
structure TagsWell (junk : Nat → UInt8) (packet : Bytes) (vlan : UInt16) : Prop where
  roundTrip : readU16 packet 12 ≠ .ok 0x8100 →
    ∃ tagged, taggedPacket junk packet vlan = .ok tagged ∧ untaggedPacket junk tagged = .ok packet
  strips : readU16 packet 12 = .ok 0x8100 → 18 ≤ packet.length →
    untaggedPacket junk packet = .ok (packet.take 12 ++ packet.drop 16)
  sets : readU16 packet 12 = .ok 0x8100 →
    ∃ changed, taggedPacket junk packet vlan = .ok changed ∧ ChangesVlanOnly packet changed vlan

/--
**Packets are tagged well if and only if they announce a tag and are too short to have one**: no
tag that is there can be stripped, be it one that was set.
-/
theorem tagsWell_iff (junk : Nat → UInt8) {packet : Bytes} (hlong : 14 ≤ packet.length)
    (hlt : packet.length < 2 ^ 32) {vlan : UInt16} (hvlan : vlan < 4096) :
    TagsWell junk packet vlan ↔ readU16 packet 12 = .ok 0x8100 ∧ packet.length < 18 := by
  refine ⟨fun h => ?_, fun ⟨htype, hshort⟩ => ⟨fun hne => absurd htype hne, fun _ hle => by omega, fun _ =>
    taggedPacket_tagged junk hlong (by omega) htype hvlan⟩⟩
  by_cases htype : readU16 packet 12 = .ok 0x8100
  · refine ⟨htype, Nat.lt_of_not_le fun hle => ?_⟩
    -- what is stripped is not four bytes shorter
    have hcases := untaggedPacket_length junk hle hlt (h.strips htype hle)
    rw [List.length_append, List.length_take, List.length_drop] at hcases
    omega
  · obtain ⟨tagged, ht, hs⟩ := h.roundTrip htype
    obtain ⟨hlen, hnineteen, hsmall⟩ := taggedPacket_length junk hlong hlt htype ht
    have hcases := untaggedPacket_length junk (by omega) (by omega) hs
    omega

/-- An untagged frame with one byte behind its header. -/
def shortFrame : Bytes := List.replicate 15 0

theorem shortFrame_iff : TagsWell (fun _ => 0) shortFrame 7 ↔
    readU16 shortFrame 12 = .ok 0x8100 ∧ shortFrame.length < 18 :=
  tagsWell_iff (fun _ => 0) (by decide) (by decide) (by decide)

/-- It is not got back from the frame that it is tagged to. -/
theorem shortFrame_lost : ¬ TagsWell (fun _ => 0) shortFrame 7 := by
  intro h
  have hlen : shortFrame.length = 15 := rfl
  have htype : readU16 shortFrame 12 ≠ .ok 0x8100 := by decide
  obtain ⟨tagged, ht, hs⟩ := h.roundTrip htype
  obtain ⟨htagged, _, hsmall⟩ := taggedPacket_length _ (by omega) (by omega) htype ht
  have hcases := untaggedPacket_length _ (by omega) (by omega) hs
  omega

end IronStack.Proof
