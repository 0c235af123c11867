import IronStack.AutobufPacker
import IronStack.Proof.Buffers

/-!
# What the packer makes of pointers

The packer writes its entries to where a pointer in fresh memory points, and reads
them from where a pointer in the bytes that it was given points. Nothing that it
writes is at the one place, and what the other is decides who sent the bytes.
-/

namespace IronStack.Proof

open IronStack Lib AutobufPacker

/-! ## The format -/

/-- Entries one behind the other: a unit that starts with the size, then the content. -/
inductive Entries : List Bytes → Bytes → Prop
  | nil : Entries [] []
  | cons {buf unset : Bytes} {buffers : List Bytes} {rest : Bytes} (hunset : unset.length = 12)
      (hbuf : buf.length < 2 ^ 32) (hrest : Entries buffers rest) :
      Entries (buf :: buffers) (be32 (UInt32.ofNat buf.length) ++ unset ++ buf ++ rest)

/-- A complete packing: a unit that starts with the number of entries, then the entries. -/
def IsPacking (b : Bytes) (buffers : List Bytes) : Prop :=
  ∃ unset rest, unset.length = 12 ∧ buffers.length < 2 ^ 32 ∧ Entries buffers rest ∧
    b = be32 (UInt32.ofNat buffers.length) ++ unset ++ rest

/-- A place for some memory: not in the first page, nor beyond what a process can address. -/
structure Addressable (m : Located) : Prop where
  page_le : 4096 ≤ m.base
  end_le : m.endPtr ≤ 2 ^ 47

/-- What was written can be read, and is what was packed. -/
def PackedAndRead (junk : Nat → UInt8) (base base' : Nat) (dest : OwnedAutobuf) (p : AutobufPacker) : Prop :=
  ∃ bytes, p.serialize junk base dest = .ok bytes ∧ deserialize ⟨base', bytes⟩ = .ok (true, p.buffers)

/-- Wherever the bytes are, they are read within themselves, and taken only if they are a packing. -/
def ReadSafely (b : Bytes) : Prop :=
  ∀ base, Addressable ⟨base, b⟩ →
    ∃ r, deserialize ⟨base, b⟩ = .ok r ∧ (r.1 = true → ∃ buffers, IsPacking b buffers)

/-! ## Packing -/

theorem loadPtr_low {m : Located} (hm : 4096 ≤ m.base) {addr : Nat} (h : addr < 4096) :
    m.loadPtr addr = .error .outOfBounds := by
  rw [Located.loadPtr, Located.load, if_neg (by omega)]
  rfl

theorem store_low {m : Located} (hm : 4096 ≤ m.base) {addr : Nat} (h : addr < 4096) {bytes : Bytes}
    (hbytes : bytes ≠ []) : m.store addr bytes = .error .outOfBounds := by
  rw [Located.store, if_neg (by simpa using hbytes), if_neg (by omega)]

theorem alloc_beginOffset (junk : Nat → UInt8) (buf : OwnedAutobuf) (size : Nat) :
    (buf.alloc junk size).1.beginOffset = 0 := by
  have hmoved : buf.moved.beginOffset = 0 := by
    unfold OwnedAutobuf.moved
    split
    · rfl
    · omega
  unfold OwnedAutobuf.alloc
  dsimp only
  split
  · exact hmoved
  · split
    · exact hmoved
    · exact hmoved

/-- An empty buffer that is zeroed starts with as many zeroes as were asked for. -/
theorem createEmptyBuffer_zeroed {junk : Nat → UInt8} {buf buf' : OwnedAutobuf} {size : Nat}
    (h : buf.createEmptyBuffer junk size true = .ok buf') :
    buf'.contentSize = size ∧ ∃ rest, buf'.writeableBuf = List.replicate size 0 ++ rest := by
  unfold OwnedAutobuf.createEmptyBuffer at h
  dsimp only at h
  rw [if_pos rfl, alloc_beginOffset] at h
  obtain ⟨memory, hmemory, h⟩ := bind_eq_ok.mp h
  obtain rfl := Except.ok.inj h
  refine ⟨rfl, ?_⟩
  unfold overwrite at hmemory
  split at hmemory
  · exact ⟨_, (Except.ok.inj hmemory).symm⟩
  · cases hmemory

/-- In a record that was zeroed before its number was written, the pointer is null. -/
theorem packedContent_zeroed {m : Located} {n : UInt32} {rest : Bytes}
    (h : m.memory = be32 n ++ (List.replicate 12 0 ++ rest)) : m.packedContent = .ok 0 := by
  have hzeroes : slice (List.replicate 12 0 ++ rest) 4 8 = .ok (List.replicate 8 0) := by
    rw [slice_append_of_le (by rw [List.length_replicate])]
    rfl
  rw [Located.packedContent, Located.loadPtr, Located.load, if_pos (Nat.le_add_right ..),
    Nat.add_sub_cancel_left, h, slice_append_right (by simp), length_be32, hzeroes]
  rfl

theorem store_number {base : Nat} {n : UInt32} {rest : Bytes} :
    (Located.mk base (List.replicate 16 0 ++ rest)).store base (be32 n) =
      .ok ⟨base, be32 n ++ (List.replicate 12 0 ++ rest)⟩ := by
  have hwrite : overwrite (List.replicate 16 0 ++ rest) 0 (be32 n) =
      .ok (be32 n ++ (List.replicate 12 0 ++ rest)) := by
    rw [overwrite_zero (by simp), length_be32]
    rfl
  have hne : ¬ (be32 n).isEmpty = true := by
    rw [List.isEmpty_iff]
    intro hnil
    have hlen := congrArg List.length hnil
    rw [length_be32] at hlen
    cases hlen
  rw [Located.store, if_neg hne, if_pos (Nat.le_refl _), Nat.sub_self, hwrite]
  rfl

/-- What is left of `serialize`, behind a number that was written into zeroed memory. -/
theorem serialize_packer_ok {junk : Nat → UInt8} {base : Nat} {dest : OwnedAutobuf} {p : AutobufPacker}
    {bytes : Bytes} (hsize : infoSize ≤ p.sizeNeeded) (h : p.serialize junk base dest = .ok bytes) :
    ∃ rest m, serializeEntries ((List.range 12).map junk)
        ⟨base, be32 (UInt32.ofNat p.sizeNeeded) ++ (List.replicate 12 0 ++ rest)⟩ 0 p.buffers = .ok m ∧
      bytes = m.memory.take p.sizeNeeded := by
  obtain ⟨dest', hdest, h⟩ := bind_eq_ok.mp h
  obtain ⟨hcontent, rest, hmemory⟩ := createEmptyBuffer_zeroed hdest
  have hsplit : List.replicate p.sizeNeeded (0 : UInt8) =
      List.replicate 16 0 ++ List.replicate (p.sizeNeeded - 16) 0 := by
    rw [List.replicate_append_replicate, Nat.add_sub_cancel' (show 16 ≤ p.sizeNeeded from hsize)]
  dsimp only at h
  rw [hmemory, hsplit, List.append_assoc, store_number, ok_bind] at h
  obtain ⟨m, hm, h⟩ := bind_eq_ok.mp h
  refine ⟨_, m, hm, ?_⟩
  rw [← Except.ok.inj h, hcontent]

/-- **Nothing is packed and read back**: the entries go to the first page, or come from it. -/
theorem not_packedAndRead {junk : Nat → UInt8} {base base' : Nat} {dest : OwnedAutobuf} {p : AutobufPacker}
    (hbase : 4096 ≤ base) (hbase' : 4096 ≤ base')
    (hfits : infoSize + p.buffers.length * entrySize + (p.buffers.map List.length).sum < 2 ^ 32) :
    ¬ PackedAndRead junk base base' dest p := by
  intro ⟨bytes, hserialize, hdeserialize⟩
  have hneeded : p.sizeNeeded = infoSize + p.buffers.length * entrySize + (p.buffers.map List.length).sum :=
    Nat.mod_eq_of_lt hfits
  obtain ⟨rest, m, hentries, hbytes⟩ := serialize_packer_ok (by rw [hneeded]; omega) hserialize
  cases hp : p.buffers with
  | nil =>
      -- the bytes say that there are 16 entries, and where they are it says 0
      rw [hp] at hentries hneeded
      have hsixteen : p.sizeNeeded = 16 := hneeded
      obtain rfl := Except.ok.inj hentries
      have hcontent : bytes = be32 16 ++ (List.replicate 12 0 ++ []) := by
        rw [hbytes, hsixteen, ← List.append_assoc]
        exact List.take_left' (by simp)
      have hnull := packedContent_zeroed (m := ⟨base', bytes⟩) hcontent
      have hcount : (Located.mk base' bytes).load base' 4 = .ok (be32 16) := by
        have hfront := slice_append_left (be32 16) (List.replicate 12 0 ++ [])
        rw [length_be32] at hfront
        rw [Located.load, if_pos (Nat.le_refl _), Nat.sub_self, hcontent, hfront]
      have hlow := loadPtr_low (m := ⟨base', bytes⟩) hbase' (show addPtr (addPtr 0 0) 8 < 4096 by decide)
      have hlong : ¬ (Located.mk base' bytes).memory.length < infoSize := by
        rw [hcontent]
        exact (by decide : ¬ (be32 16 ++ (List.replicate 12 0 ++ [])).length < infoSize)
      rw [deserialize, if_neg hlong] at hdeserialize
      dsimp only at hdeserialize
      rw [hcount] at hdeserialize
      change deserializeEntries _ 16 0 [] = _ at hdeserialize
      rw [deserializeEntries, hnull, ok_bind] at hdeserialize
      dsimp only at hdeserialize
      rw [hlow] at hdeserialize
      cases hdeserialize
  | cons buf buffers =>
      rw [hp, serializeEntries, packedContent_zeroed rfl, ok_bind,
        store_low hbase (show addPtr 0 0 < 4096 by decide) (by simp [be32, toBE]), error_bind] at hentries
      cases hentries

/-! ## Unpacking -/

/-- There is a place for the bytes where a given address is not among theirs. -/
theorem exists_addressable {b : Bytes} (hb : b.length < 2 ^ 32) (addr : Nat) :
    ∃ base, Addressable ⟨base, b⟩ ∧ (Located.mk base b).loadPtr addr = .error .outOfBounds := by
  have hmiss : ∀ base, addr < base ∨ base + b.length < addr + 8 →
      (Located.mk base b).loadPtr addr = .error .outOfBounds := by
    intro base h
    rw [Located.loadPtr, Located.load]
    split
    · rw [slice_error (by dsimp only at *; omega)]
      rfl
    · rfl
  by_cases hlow : addr < 2 ^ 40
  · refine ⟨2 ^ 40, ⟨(by decide : 4096 ≤ 2 ^ 40), ?_⟩, hmiss _ (.inl hlow)⟩
    show 2 ^ 40 + b.length ≤ 2 ^ 47
    omega
  · refine ⟨4096, ⟨Nat.le_refl _, ?_⟩, hmiss _ (.inr (by omega))⟩
    show 4096 + b.length ≤ 2 ^ 47
    omega

theorem load_front {base n : Nat} {b : Bytes} (h : n ≤ b.length) :
    (Located.mk base b).load base n = .ok (b.take n) := by
  rw [Located.load, if_pos (Nat.le_refl _), Nat.sub_self, slice_ok (by rwa [Nat.zero_add]), List.drop_zero]

/-- The pointer that the bytes hold in the place of the entries. -/
def sentPointer (b : Bytes) : Nat := ofBE ((b.drop 8).take 8).reverse

theorem packedContent_sent {base : Nat} {b : Bytes} (h : infoSize ≤ b.length) :
    (Located.mk base b).packedContent = .ok (sentPointer b) := by
  have hle : 8 + 8 ≤ b.length := h
  rw [Located.packedContent, Located.loadPtr, Located.load, if_pos (Nat.le_add_right ..),
    Nat.add_sub_cancel_left, slice_ok hle]
  rfl

/-- The number of entries that some bytes announce. -/
def sentCount (b : Bytes) : Nat := ofBE (b.take 4)

theorem deserialize_packer {base : Nat} {b : Bytes} (h : infoSize ≤ b.length) :
    deserialize ⟨base, b⟩ = deserializeEntries ⟨base, b⟩ (sentCount b) 0 [] := by
  have hle : 16 ≤ b.length := h
  rw [deserialize, if_neg (Nat.not_lt.mpr h), load_front (by omega)]
  rfl

/-- A packing of nothing is one unit. -/
theorem isPacking_zero_iff {b : Bytes} (hcount : sentCount b = 0) :
    (∃ buffers, IsPacking b buffers) ↔ b.length = infoSize := by
  refine ⟨?_, ?_⟩
  · intro ⟨buffers, unset, rest, hunset, hlt, hentries, hb⟩
    have hnumber : sentCount b = buffers.length := by
      rw [sentCount, hb, List.append_assoc, List.take_left' (length_be32 _), be32,
        ofBE_toBE (UInt32.toNat_lt _), UInt32.toNat_ofNat', Nat.mod_eq_of_lt hlt]
    rw [hcount] at hnumber
    obtain rfl := List.length_eq_zero_iff.mp hnumber.symm
    cases hentries
    rw [hb, List.append_nil, List.length_append, length_be32, hunset]
    rfl
  · intro hlen
    have hfour : (b.take 4).length = 4 := by
      rw [List.length_take, hlen]
      rfl
    have hnumber : be32 0 = b.take 4 := by
      have hback := toBE_ofBE (b.take 4)
      rw [hfour, show ofBE (b.take 4) = 0 from hcount] at hback
      exact hback
    refine ⟨[], b.drop 4, [], ?_, by decide, .nil, ?_⟩
    · rw [List.length_drop, hlen]
      rfl
    · rw [List.append_nil]
      change b = be32 0 ++ b.drop 4
      rw [hnumber, List.take_append_drop]

/-- **When bytes are unpacked safely**: if they are no unit, or one that announces nothing. -/
theorem readSafely_iff {b : Bytes} (hb : b.length < 2 ^ 32) :
    ReadSafely b ↔ b.length < infoSize ∨ b.length = infoSize ∧ sentCount b = 0 := by
  by_cases h16 : infoSize ≤ b.length
  · rw [or_iff_right (Nat.not_lt.mpr h16)]
    refine ⟨?_, ?_⟩
    · intro hsafe
      by_cases hcount : sentCount b = 0
      · obtain ⟨base, haddressable, _⟩ := exists_addressable hb 0
        obtain ⟨r, hr, htaken⟩ := hsafe base haddressable
        rw [deserialize_packer h16, hcount] at hr
        obtain rfl := Except.ok.inj hr
        exact ⟨(isPacking_zero_iff hcount).mp (htaken rfl), hcount⟩
      · -- wherever the pointer points, the bytes may be elsewhere
        obtain ⟨n, hn⟩ := Nat.exists_eq_succ_of_ne_zero hcount
        obtain ⟨base, haddressable, hmiss⟩ := exists_addressable hb (addPtr (addPtr (sentPointer b) 0) 8)
        obtain ⟨r, hr, _⟩ := hsafe base haddressable
        rw [deserialize_packer h16, hn, deserializeEntries, packedContent_sent h16, ok_bind] at hr
        dsimp only at hr
        rw [hmiss] at hr
        cases hr
    · intro ⟨hlen, hcount⟩ base _
      refine ⟨_, by rw [deserialize_packer h16, hcount]; rfl, ?_⟩
      exact fun _ => (isPacking_zero_iff hcount).mpr hlen
  · have hshort := Nat.lt_of_not_le h16
    refine ⟨fun _ => .inl hshort, fun _ base _ => ⟨(false, []), if_pos hshort, ?_⟩⟩
    intro h
    cases h

/--
**What the packer is good for.** No list of buffers is packed and read back, wherever
in memory that happens. And bytes are read within themselves, and taken for a packing
only if they are one, exactly if they are shorter than the first unit, or are that unit
and announce nothing.
-/
theorem packer_iff (junk : Nat → UInt8) (base base' : Nat) (dest : OwnedAutobuf) (p : AutobufPacker)
    (b : Bytes) :
    (4096 ≤ base → 4096 ≤ base' →
      infoSize + p.buffers.length * entrySize + (p.buffers.map List.length).sum < 2 ^ 32 →
        ¬ PackedAndRead junk base base' dest p) ∧
      (b.length < 2 ^ 32 →
        (ReadSafely b ↔ b.length < infoSize ∨ b.length = infoSize ∧ sentCount b = 0)) :=
  ⟨not_packedAndRead, readSafely_iff⟩

/-- Two buffers are lost, and the unit that announces nothing is read. -/
theorem packer_twoBuffers :
    ¬ PackedAndRead (fun _ => 0) 4096 8192 {} ⟨[[1, 2, 3], [4]]⟩ ∧ ReadSafely (List.replicate 16 0) :=
  ⟨(packer_iff (fun _ => 0) 4096 8192 {} ⟨[[1, 2, 3], [4]]⟩ []).1 (by decide) (by decide) (by decide),
    ((packer_iff (fun _ => 0) 4096 8192 {} {} (List.replicate 16 0)).2 (by decide)).mpr
      (.inr ⟨rfl, by decide⟩)⟩

/-- The packing of one empty buffer is not even written. -/
theorem oneEmptyBuffer_lost :
    ¬ ((∀ (junk : Nat → UInt8) (base base' : Nat) (dest : OwnedAutobuf) (p : AutobufPacker), 4096 ≤ base →
      4096 ≤ base' → infoSize + p.buffers.length * entrySize + (p.buffers.map List.length).sum < 2 ^ 32 →
        PackedAndRead junk base base' dest p) ∧ ∀ b : Bytes, b.length < 2 ^ 32 → ReadSafely b) := by
  intro h
  exact not_packedAndRead (by decide) (by decide) (by decide)
    (h.1 (fun _ => 0) 4096 4096 {} ⟨[[]]⟩ (by decide) (by decide) (by decide))

end IronStack.Proof
