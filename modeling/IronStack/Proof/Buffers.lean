import IronStack.Autobuf

/-!
# Buffers with memory of their own

A buffer whose contents lie within its memory keeps them when it is made larger.
Memory that is written from the front on is what was written, and then what is left.
-/

namespace IronStack.Proof

open IronStack Lib OwnedAutobuf

/-- The contents lie within the memory. -/
structure Valid (buf : OwnedAutobuf) : Prop where
  length_eq : buf.writeableBuf.length = buf.bufSize
  fits : buf.beginOffset + buf.contentSize ≤ buf.bufSize

theorem valid_fresh : Valid {} := ⟨rfl, Nat.le_refl _⟩

/-- A buffer whose content starts with the memory, and has room for `size` bytes. -/
structure Roomy (buf : OwnedAutobuf) (size : Nat) : Prop where
  length_eq : buf.writeableBuf.length = buf.bufSize
  front : buf.beginOffset = 0
  room : size ≤ buf.bufSize

theorem length_content {buf : OwnedAutobuf} (h : Valid buf) : buf.content.length = buf.contentSize := by
  have hfits := h.fits
  rw [content, List.length_take_of_le]
  rw [List.length_drop, h.length_eq]
  omega

theorem moved_spec {buf : OwnedAutobuf} (h : Valid buf) :
    Roomy buf.moved buf.contentSize ∧ buf.moved.bufSize = buf.bufSize ∧
      buf.moved.writeableBuf.take buf.contentSize = buf.content := by
  have hfits := h.fits
  unfold moved
  split
  · have hlen := length_content h
    refine ⟨⟨?_, rfl, ?_⟩, rfl, ?_⟩
    · simp only [List.length_append, List.length_drop, hlen, h.length_eq]
      omega
    · dsimp only
      omega
    · dsimp only
      rw [← hlen, List.take_left]
  · have hzero : buf.beginOffset = 0 := by omega
    refine ⟨⟨h.length_eq, hzero, by omega⟩, rfl, ?_⟩
    rw [content, hzero, List.drop_zero]

/-- What is asked for fits into the pages that are asked for. -/
theorem le_requiredSize {size : Nat} (hsize : size ≤ 2 ^ 31) : size ≤ requiredSize size := by
  unfold requiredSize
  split
  · omega
  · omega

theorem take_realloc {junk : Nat → UInt8} {memory : Bytes} {size k : Nat} (hk : k ≤ memory.length)
    (hsize : k ≤ size) : (realloc junk memory size).take k = memory.take k := by
  rw [realloc, List.take_append_of_le_length (by rw [List.length_take]; omega), List.take_take,
    Nat.min_eq_left hsize]

theorem length_realloc {junk : Nat → UInt8} {memory : Bytes} {size : Nat}
    (hsize : memory.length ≤ size) : (realloc junk memory size).length = size := by
  simp only [realloc, List.length_append, List.length_take, List.length_map, List.length_range]
  omega

/-- The number of pages did not wrap around, if there are any. -/
theorem le_requiredSize_of_ne {size : Nat} (hsize : size < 2 ^ 32) (h : requiredSize size ≠ 0) :
    size ≤ requiredSize size := by
  unfold requiredSize at h ⊢
  split at h
  · rename_i hpart
    rw [if_pos hpart]
    omega
  · rename_i hwhole
    rw [if_neg hwhole]
    omega

/-- What `alloc` makes of a buffer, if there is memory. -/
structure Grown (buf : OwnedAutobuf) (size : Nat) (grown : OwnedAutobuf) : Prop where
  roomy : Roomy grown size
  contentSize_eq : grown.contentSize = buf.contentSize
  content_fits : buf.contentSize ≤ grown.bufSize
  content_eq : grown.writeableBuf.take buf.contentSize = buf.content
  bufSize_lt : buf.bufSize < 2 ^ 32 → grown.bufSize < 2 ^ 32

theorem alloc_grown (junk : Nat → UInt8) {buf : OwnedAutobuf} {size : Nat} (h : Valid buf)
    (hsize : size < 2 ^ 32) (hfound : (buf.alloc junk size).2 = true) :
    Grown buf size (buf.alloc junk size).1 := by
  obtain ⟨hmoved, hbufSize, hcontent⟩ := moved_spec h
  have hcontentSize : buf.moved.contentSize = buf.contentSize := by
    unfold moved
    split
    · rfl
    · rfl
  have hroom := hmoved.room
  unfold alloc at hfound ⊢
  dsimp only at hfound ⊢
  rw [hmoved.front, Nat.zero_add] at hfound ⊢
  split at hfound
  · rename_i hle
    rw [if_pos hle]
    refine ⟨⟨hmoved.length_eq, hmoved.front, hle⟩, hcontentSize, hroom, hcontent, ?_⟩
    intro hlt
    dsimp only
    rwa [hbufSize]
  · rename_i hgt
    rw [if_neg hgt]
    split at hfound
    · cases hfound
    · rename_i hsome
      rw [if_neg hsome]
      have hrequired := le_requiredSize_of_ne hsize hsome
      have hlen : buf.moved.writeableBuf.length ≤ requiredSize size := by
        rw [hmoved.length_eq]
        omega
      have hlt : requiredSize size < 2 ^ 32 := Nat.mod_lt _ (by decide)
      refine ⟨⟨length_realloc hlen, rfl, hrequired⟩, hcontentSize, by dsimp only; omega, ?_, fun _ => hlt⟩
      dsimp only
      rw [take_realloc (by rw [hmoved.length_eq]; exact hroom) (by omega), hcontent]

/-- The contents of a new buffer start with its memory. -/
theorem alloc_fresh_front (junk : Nat → UInt8) (size : Nat) :
    (({} : OwnedAutobuf).alloc junk size).1.beginOffset = 0 := by
  unfold alloc
  dsimp only
  split
  · rfl
  · split
    · rfl
    · rfl

/-- There is memory for what is asked for. -/
theorem alloc_found (junk : Nat → UInt8) {buf : OwnedAutobuf} {size : Nat} (h : Valid buf)
    (hsize : size ≤ 2 ^ 31) : (buf.alloc junk size).2 = true := by
  have hfront := (moved_spec h).1.front
  unfold alloc
  dsimp only
  rw [hfront]
  split
  · rfl
  · have hrequired := le_requiredSize hsize
    rw [if_neg (by omega)]

/-- Room is made without losing the content. -/
theorem alloc_spec (junk : Nat → UInt8) {buf : OwnedAutobuf} {size : Nat} (h : Valid buf)
    (hsize : size ≤ 2 ^ 31) :
    Roomy (buf.alloc junk size).1 size ∧
      (buf.alloc junk size).1.writeableBuf.take buf.contentSize = buf.content := by
  have hgrown := alloc_grown junk h (by omega) (alloc_found junk h hsize)
  exact ⟨hgrown.roomy, hgrown.content_eq⟩

theorem createEmptyBuffer_spec (junk : Nat → UInt8) {buf : OwnedAutobuf} {size : Nat} (h : Valid buf)
    (hsize : size ≤ 2 ^ 31) :
    ∃ grown, buf.createEmptyBuffer junk size false = .ok grown ∧ Roomy grown size ∧
      grown.contentSize = size ∧ grown.writeableBuf.take buf.contentSize = buf.content := by
  obtain ⟨hroomy, hcontent⟩ := alloc_spec junk h hsize
  exact ⟨_, rfl, ⟨hroomy.length_eq, hroomy.front, hroomy.room⟩, rfl, hcontent⟩

theorem Roomy.valid {buf : OwnedAutobuf} {size : Nat} (h : Roomy buf size)
    (hsize : buf.contentSize ≤ size) : Valid buf := by
  have hroom := h.room
  refine ⟨h.length_eq, ?_⟩
  rw [h.front]
  omega

/-! ## Writing -/

/-- Writing where the last write ended. -/
theorem overwrite_drop {done memory bytes : Bytes} {off : Nat} (hdone : done.length = off)
    (hfits : off + bytes.length ≤ memory.length) :
    overwrite (done ++ memory.drop off) off bytes =
      .ok ((done ++ bytes) ++ memory.drop (off + bytes.length)) := by
  have hlen : (done ++ memory.drop off).length = memory.length := by
    rw [List.length_append, List.length_drop, hdone]
    omega
  rw [overwrite, if_pos (by rw [hlen]; exact hfits), List.take_left' hdone, List.drop_append, hdone,
    List.drop_eq_nil_of_le (by omega), List.nil_append, List.drop_drop, Nat.add_sub_cancel_left]

/-- Writing at the front. -/
theorem overwrite_zero {memory bytes : Bytes} (hfits : bytes.length ≤ memory.length) :
    overwrite memory 0 bytes = .ok (bytes ++ memory.drop bytes.length) := by
  rw [overwrite, if_pos (by omega), List.take_zero, List.nil_append, Nat.zero_add]

/-- What is written lies within the memory, and changes nothing but itself. -/
theorem overwrite_eq_ok {memory bytes written : Bytes} {off : Nat}
    (h : overwrite memory off bytes = .ok written) : off + bytes.length ≤ memory.length ∧
      written = memory.take off ++ bytes ++ memory.drop (off + bytes.length) ∧
        written.length = memory.length := by
  rw [overwrite] at h
  split at h
  · rename_i hfits
    cases h
    refine ⟨hfits, rfl, ?_⟩
    simp only [List.length_append, List.length_take, List.length_drop]
    omega
  · cases h

/-- A buffer that was filled has what it was filled with at the front of its memory. -/
theorem setContent_filled (junk : Nat → UInt8) {buf filled : OwnedAutobuf} {src : Bytes} (h : Valid buf)
    (hlt : src.length < 2 ^ 32) (hok : setContent junk buf src = .ok filled) :
    filled.beginOffset = 0 ∧ filled.contentSize = src.length ∧ ∃ rest, filled.writeableBuf = src ++ rest := by
  have hgrown := alloc_grown junk h hlt
  rw [setContent] at hok
  generalize buf.alloc junk src.length = grown at hgrown hok
  obtain ⟨grown, found⟩ := grown
  cases found with
  | false => cases hok
  | true =>
      obtain ⟨hroomy, _⟩ := hgrown rfl
      have hroom := hroomy.room
      dsimp only at hok hroomy hroom
      rw [hroomy.front, overwrite_zero (by rw [hroomy.length_eq]; exact hroom)] at hok
      cases hok
      exact ⟨rfl, rfl, _, rfl⟩

end IronStack.Proof
