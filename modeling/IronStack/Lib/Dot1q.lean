import IronStack.Lib.Wire

/-!
# Ethernet frames with a VLAN tag

A frame is its two addresses, then perhaps a VLAN tag, then a type and what is of
that type. A tag is announced by the type 0x8100; its word has the VLAN in the 12
low bits, and a priority above them. A frame that is said to be untagged must not
be of the type that announces a tag, or its bytes would be those of another.

The bytes of a frame with another tag, or with none, are the same but for the tag.
-/

namespace IronStack.Lib

/-- A frame, tagged with a word or not. -/
structure Frame where
  addresses : Bytes
  tag : Option UInt16
  payload : Bytes
  length_addresses : addresses.length = 12
  two_le_length : 2 ≤ payload.length
  untagged : tag = none → readU16 payload 0 ≠ .ok 0x8100

namespace Frame

/-- The VLAN that a tag is of. -/
def vlanOf (tag : UInt16) : UInt16 := tag &&& 0x0fff

/-- The frame without a tag. -/
def withoutTag (f : Frame) : Bytes := f.addresses ++ f.payload

/-- The frame with a certain tag. -/
def withTag (f : Frame) (tag : UInt16) : Bytes := f.addresses ++ (be16 0x8100 ++ (be16 tag ++ f.payload))

/-- The frame as it is. -/
def bytes (f : Frame) : Bytes :=
  match f.tag with
  | none => f.withoutTag
  | some tag => f.withTag tag

variable {f : Frame} {tag : UInt16}

theorem bytes_untagged (h : f.tag = none) : f.bytes = f.withoutTag := by
  rw [bytes, h]

theorem bytes_tagged (h : f.tag = some tag) : f.bytes = f.withTag tag := by
  rw [bytes, h]

theorem length_withoutTag (f : Frame) : f.withoutTag.length = 12 + f.payload.length := by
  rw [withoutTag, List.length_append, f.length_addresses]

theorem length_withTag (f : Frame) (tag : UInt16) : (f.withTag tag).length = 16 + f.payload.length := by
  simp only [withTag, List.length_append, f.length_addresses, length_be16]
  omega

/-- Removing a tag takes four bytes. -/
theorem length_bytes_tagged (h : f.tag = some tag) : f.bytes.length = f.withoutTag.length + 4 := by
  rw [bytes_tagged h, length_withTag, length_withoutTag]
  omega

theorem length_bytes_untagged (h : f.tag = none) : f.bytes.length = 12 + f.payload.length := by
  rw [bytes_untagged h, length_withoutTag]

/-- The frame, as one that is tagged. -/
def setTag (f : Frame) (tag : UInt16) : Frame :=
  { f with tag := some tag, untagged := fun h => absurd h (Option.some_ne_none tag) }

theorem bytes_setTag (f : Frame) (tag : UInt16) : (f.setTag tag).bytes = f.withTag tag := rfl

/-! ## Reading a frame -/

/-- What is at the start of a frame, and behind that. -/
theorem readU16_withTag_type (f : Frame) (tag : UInt16) : readU16 (f.withTag tag) 12 = .ok 0x8100 := by
  rw [withTag, readU16_append_right (by rw [f.length_addresses]), f.length_addresses]
  exact readU16_be16 _ _

theorem readU16_withTag_tag (f : Frame) (tag : UInt16) : readU16 (f.withTag tag) 14 = .ok tag := by
  rw [withTag, readU16_append_right (by rw [f.length_addresses]; decide), f.length_addresses,
    readU16_append_right (by simp), length_be16]
  exact readU16_be16 _ _

theorem readU16_withoutTag_payload (f : Frame) : readU16 f.withoutTag 12 = readU16 f.payload 0 := by
  rw [withoutTag, readU16_append_right (by rw [f.length_addresses]), f.length_addresses]

/-- The type announces a tag exactly where there is one. -/
theorem readU16_bytes_type : readU16 f.bytes 12 = .ok 0x8100 ↔ f.tag.isSome := by
  cases h : f.tag with
  | none =>
      rw [bytes_untagged h, readU16_withoutTag_payload]
      exact iff_of_false (f.untagged h) Bool.false_ne_true
  | some tag =>
      rw [bytes_tagged h, readU16_withTag_type]
      exact iff_of_true rfl rfl

theorem fourteen_le_length (f : Frame) : 14 ≤ f.bytes.length := by
  have hpayload := f.two_le_length
  cases h : f.tag with
  | none => rw [length_bytes_untagged h]; omega
  | some tag => rw [bytes_tagged h, length_withTag]; omega

theorem eighteen_le_length (h : f.tag.isSome) : 18 ≤ f.bytes.length := by
  obtain ⟨tag, htag⟩ := Option.isSome_iff_exists.mp h
  have hpayload := f.two_le_length
  rw [bytes_tagged htag, length_withTag]
  omega

/-- A frame has one tag at a time. -/
theorem withTag_injective {tag' : UInt16} (h : f.withTag tag = f.withTag tag') : tag = tag' := by
  have hread := f.readU16_withTag_tag tag
  rw [h, readU16_withTag_tag] at hread
  exact (Except.ok.inj hread).symm

/-- Whether there is a tag, and which, can be told from the bytes. -/
theorem tag_eq_of_bytes_eq {g : Frame} (h : f.bytes = g.bytes) : f.tag = g.tag := by
  have hsome : f.tag.isSome ↔ g.tag.isSome := by
    rw [← readU16_bytes_type, h, readU16_bytes_type]
  cases hf : f.tag with
  | none =>
      cases hg : g.tag with
      | none => rfl
      | some tag =>
          rw [hf, hg] at hsome
          exact absurd (hsome.mpr rfl) Bool.false_ne_true
  | some tag =>
      obtain ⟨tag', hg⟩ := Option.isSome_iff_exists.mp (hsome.mp (by rw [hf]; rfl))
      have hread := f.readU16_withTag_tag tag
      rw [← bytes_tagged hf, h, bytes_tagged hg, readU16_withTag_tag] at hread
      rw [hg, Except.ok.inj hread]

/-- The VLANs that a tag has room for. -/
theorem vlanOf_eq_self_iff {vlan : UInt16} : vlanOf vlan = vlan ↔ vlan < 4096 := by
  have hmask : (vlanOf vlan).toNat = vlan.toNat % 4096 := by
    rw [vlanOf, UInt16.toNat_and]
    exact Nat.and_two_pow_sub_one_eq_mod vlan.toNat 12
  rw [← UInt16.toNat_inj, hmask, UInt16.lt_iff_toNat_lt]
  change vlan.toNat % 4096 = vlan.toNat ↔ vlan.toNat < 4096
  omega

theorem vlanOf_vlanOf (tag : UInt16) : vlanOf (vlanOf tag) = vlanOf tag := by
  rw [vlanOf, vlanOf, UInt16.and_assoc, UInt16.and_self]

end Frame

end IronStack.Lib
