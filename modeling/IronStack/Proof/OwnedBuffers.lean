import IronStack.Proof.AutobufBounds

/-!
# Buffers with memory of their own

Where there is room, or memory is found, a buffer that owns its region behaves as the one
of which nothing else is known: the two models agree, and the bytes come along. Where there
is none, the program ends; before anything is written, as long as `alloc` is honest.
-/

namespace IronStack.Proof

open IronStack Lib WriteableAutobuf AutobufBounds

namespace OwnedBuffers

/-- A bounded buffer with a region of its own. It has less than all pages. -/
structure Orderly (buf : WriteableAutobuf) : Prop extends Bounded buf where
  owns : buf.ownsMemory = true
  bufSize_le : buf.bufSize ≤ 2 ^ 32 - 4096

variable (junk : Nat → UInt8) {found : Bool} {buf : WriteableAutobuf} {size : Nat} {other : Bytes}

theorem orderly_fresh : Orderly {} := ⟨bounded_fresh, rfl, by decide⟩

theorem Orderly.owned (h : Orderly buf) : Owned buf.toOwnedAutobuf := by
  have hsize := h.bufSize_eq
  have hwithin := h.within
  exact ⟨⟨hsize.symm, by omega⟩, h.bufSize_lt⟩

theorem Orderly.contentSize_le (h : Orderly buf) : buf.contentSize ≤ 2 ^ 32 - 4096 := by
  have hfits := h.owned.fits
  have hle := h.bufSize_le
  omega

theorem Orderly.length_content (h : Orderly buf) : buf.content.length = buf.contentSize :=
  IronStack.Proof.length_content h.owned.toValid

theorem Orderly.front_eq (h : Orderly buf) : front buf = 0 := if_pos h.owns

/-- There is room for no more than less than all pages. -/
theorem Orderly.le_of_room (h : Orderly buf) (hroom : Room buf found size) : size ≤ 2 ^ 32 - 4096 := by
  have hle := h.bufSize_le
  rcases hroom with hfits | ⟨_, _, hpages⟩
  · rw [h.front_eq] at hfits
    omega
  · exact hpages

theorem room_fresh (h : size ≤ 2 ^ 32 - 4096) (hfound : size = 0 ∨ found = true) : Room {} found size := by
  rcases hfound with rfl | hfound
  · exact .inl (Nat.le_refl _)
  · exact .inr ⟨rfl, hfound, h⟩

/-! ## Where there is room -/

theorem realign_eq (h : Orderly buf) :
    buf.realign = .ok { buf with toOwnedAutobuf := buf.toOwnedAutobuf.moved } := by
  have howned := h.owned
  have hcontent := h.length_content
  have hfits := howned.fits
  have hlen := howned.length_eq
  rw [realign, OwnedAutobuf.moved]
  split
  · have hload : buf.toOwnedAutobuf.load 0 buf.contentSize = .ok buf.content := by
      rw [load_content howned (by omega), List.drop_zero, ← hcontent, List.take_length]
    have hwrite : overwrite buf.writeableBuf 0 buf.content =
        .ok (buf.content ++ buf.writeableBuf.drop buf.contentSize) := by
      rw [overwrite, if_pos (by omega), List.take_zero, List.nil_append, Nat.zero_add, hcontent]
    rw [hload, ok_bind, hwrite, ok_bind]
    rfl
  · rfl

theorem alloc_room (h : Orderly buf) (hroom : Room buf found size) :
    ∃ grown, buf.alloc junk found size = .ok (grown, true) ∧ grown.ownsMemory = true ∧
      buf.toOwnedAutobuf.alloc junk size = (grown.toOwnedAutobuf, true) ∧
      grown.bufSize ≤ 2 ^ 32 - 4096 := by
  have hle := h.le_of_room hroom
  have hmax := h.bufSize_le
  obtain ⟨hmoved, hbufSize, _⟩ := moved_spec h.owned.toValid
  rw [WriteableAutobuf.alloc, if_pos h.owns, realign_eq h, ok_bind, OwnedAutobuf.alloc]
  dsimp only
  rw [hmoved.front, Nat.zero_add, hbufSize, Nat.mod_eq_of_lt (by omega)]
  by_cases hfits : size ≤ buf.bufSize
  · rw [if_pos hfits, if_pos hfits]
    exact ⟨_, rfl, h.owns, rfl, by dsimp only; omega⟩
  · have hfound : found = true := by
      rcases hroom with hroom | hfound
      · rw [h.front_eq] at hroom
        omega
      · exact hfound.2.1
    have hpages : OwnedAutobuf.requiredSize size ≠ 0 := by
      rcases requiredSize_cases (by omega : size < 2 ^ 32) with ⟨_, hreq⟩ | ⟨hover, _⟩
      · omega
      · omega
    have hreq : OwnedAutobuf.requiredSize size ≤ 2 ^ 32 - 4096 := by
      unfold OwnedAutobuf.requiredSize
      omega
    rw [if_neg hfits, if_neg hfits, if_neg h.live, if_neg fun hnone => hpages hnone.2, if_neg hpages,
      if_pos hfound]
    exact ⟨_, rfl, h.owns, rfl, hreq⟩

theorem orderly_of_contained {r : Read WriteableAutobuf} {written : WriteableAutobuf} (h : Contained r)
    (hok : r = .ok written) (howns : written.ownsMemory = true) (hle : written.bufSize ≤ 2 ^ 32 - 4096) :
    Orderly written := by
  rw [hok] at h
  exact ⟨h, howns, hle⟩

theorem setContent_room (h : Orderly buf) (hroom : Room buf found other.length) :
    ∃ written, buf.setContent junk found other = .ok written ∧ Orderly written ∧ written.content = other := by
  have hle := h.le_of_room hroom
  obtain ⟨grown, halloc, howns, hagree, hmax⟩ := alloc_room junk h hroom
  have hfound : Found junk buf.toOwnedAutobuf other.length := congrArg Prod.snd hagree
  obtain ⟨owned, hset, howned, hcontent⟩ := setContent_holds h.owned (by omega) hfound
  have hcontained : Contained (buf.setContent junk found other) :=
    (contained_setContent_iff h.toBounded (by omega)).mpr (honest_of_room h.toBounded hroom)
  rw [OwnedAutobuf.setContent, hagree] at hset
  obtain ⟨memory, hwrite, hset⟩ := bind_eq_ok.mp hset
  cases hset
  have hok : buf.setContent junk found other = .ok { grown with
      writeableBuf := memory, contentSize := other.length, beginOffset := 0 } := by
    rw [setContent, halloc, ok_bind]
    dsimp only
    rw [if_pos rfl, store, Nat.add_zero, hwrite]
    rfl
  exact ⟨_, hok, orderly_of_contained hcontained hok howns hmax, hcontent⟩

/-- **Bytes are appended** where there is room for them all. -/
theorem plusOther_room (h : Orderly buf)
    (hroom : other.length = 0 ∨ Room buf found (buf.contentSize + other.length)) :
    ∃ written, buf.plusOther junk found other = .ok written ∧ Orderly written ∧
      written.content = buf.content ++ other := by
  by_cases hnone : other.length = 0
  · refine ⟨buf, by rw [plusOther, if_pos hnone]; rfl, h, ?_⟩
    rw [List.length_eq_zero_iff.mp hnone, List.append_nil]
  have hroom := hroom.resolve_left hnone
  have hle := h.le_of_room hroom
  by_cases hempty : buf.contentSize = 0
  · rw [hempty, Nat.zero_add] at hroom
    obtain ⟨written, hset, horderly, hcontent⟩ := setContent_room junk h hroom
    refine ⟨written, by rw [plusOther, if_neg hnone, if_pos hempty, hset], horderly, ?_⟩
    have hnil : buf.content = [] := List.length_eq_zero_iff.mp (h.length_content.trans hempty)
    rw [hcontent, hnil, List.nil_append]
  · obtain ⟨grown, halloc, howns, hagree, hmax⟩ := alloc_room junk h hroom
    have hmod : (buf.contentSize + other.length) % 2 ^ 32 = buf.contentSize + other.length :=
      Nat.mod_eq_of_lt (by omega)
    have hfound : Found junk buf.toOwnedAutobuf ((buf.contentSize + other.length) % 2 ^ 32) := by
      rw [hmod]
      exact congrArg Prod.snd hagree
    obtain ⟨owned, hplus, howned, hcontent⟩ := plusOther_holds h.owned (by omega) hfound
    have hcontained : Contained (buf.plusOther junk found other) :=
      (contained_plusOther_iff h.toBounded (by omega)).mpr (.inr (honest_of_room h.toBounded hroom))
    rw [OwnedAutobuf.plusOther, if_neg hnone, if_neg hempty] at hplus
    dsimp only at hplus
    rw [hmod, hagree] at hplus
    obtain ⟨stored, hstore, hplus⟩ := bind_eq_ok.mp hplus
    obtain ⟨memory, hwrite, hstored⟩ := bind_eq_ok.mp hstore
    cases hstored
    cases hplus
    have hok : buf.plusOther junk found other = .ok { grown with
        writeableBuf := memory, contentSize := buf.contentSize + other.length } := by
      rw [plusOther, if_neg hnone, if_neg hempty]
      dsimp only
      rw [hmod, halloc, ok_bind]
      dsimp only
      rw [if_pos rfl, store, hwrite]
      rfl
    exact ⟨_, hok, orderly_of_contained hcontained hok howns hmax, hcontent⟩

theorem trimFront_orderly (h : Orderly buf) (len : Nat) :
    Orderly { buf with toOwnedAutobuf := buf.toOwnedAutobuf.trimFront len } ∧
      (buf.toOwnedAutobuf.trimFront len).content = buf.content.drop len := by
  obtain ⟨_, htrim, _, hcontent⟩ := trimFront_holds h.owned len
  cases htrim
  have hsize : (buf.toOwnedAutobuf.trimFront len).bufSize = buf.bufSize := by
    unfold OwnedAutobuf.trimFront
    split
    · rfl
    · rfl
  exact ⟨⟨bounded_trimFront h.toBounded len, h.owns, hsize.trans_le h.bufSize_le⟩, hcontent⟩

/-! ## Where there is none -/

theorem alloc_short {k : WriteableAutobuf → Read WriteableAutobuf} (h : Orderly buf)
    (hsize : size < buf.contentSize + 2 ^ 32) (hshort : ¬ Room buf found size)
    (hfault : ∀ grown : WriteableAutobuf, grown.contentSize = buf.contentSize → grown.beginOffset = 0 →
      grown.writeableBuf.length < size → k grown = .error .outOfBounds) :
    Honest buf found size ∧ ((buf.alloc junk found (size % 2 ^ 32)).bind fun (grown, status) =>
      if status then k grown else .error .aborted) = .error .aborted ∨
    ¬ Honest buf found size ∧ ((buf.alloc junk found (size % 2 ^ 32)).bind fun (grown, status) =>
      if status then k grown else .error .aborted) = .error .outOfBounds := by
  obtain ⟨grown, status, halloc, hgrown⟩ := alloc_sum junk found h.toBounded hsize
  obtain ⟨hlt, hstatus⟩ := hgrown.short hshort
  rw [h.front_eq, Nat.zero_add] at hlt
  rw [halloc]
  dsimp only [Except.bind]
  by_cases hhonest : Honest buf found size
  · refine .inl ⟨hhonest, if_neg fun htrue => ?_⟩
    exact hstatus.mp htrue hhonest
  · refine .inr ⟨hhonest, ?_⟩
    rw [if_pos (hstatus.mpr hhonest)]
    exact hfault grown hgrown.contentSize_eq (hgrown.beginOffset_eq.trans h.front_eq) hlt

theorem setContent_short (h : Orderly buf) (hlt : other.length < 2 ^ 32)
    (hshort : ¬ Room buf found other.length) :
    (Honest buf found other.length ∧ buf.setContent junk found other = .error .aborted) ∨
      ¬ Honest buf found other.length ∧ buf.setContent junk found other = .error .outOfBounds := by
  have hcase := @alloc_short junk found buf other.length
    (fun grown => (grown.store 0 other).map fun grown =>
      { grown with beginOffset := 0, contentSize := other.length }) h (by omega) hshort
    fun grown _ hbegin hover => by
      rw [store_outside (by omega)]
      rfl
  rwa [Nat.mod_eq_of_lt hlt] at hcase

/-- **The program ends**, and does so before anything is written, if `alloc` is honest. -/
theorem plusOther_short (h : Orderly buf) (hlt : other.length < 2 ^ 32) (hsome : other.length ≠ 0)
    (hshort : ¬ Room buf found (buf.contentSize + other.length)) :
    (Honest buf found (buf.contentSize + other.length) ∧ buf.plusOther junk found other = .error .aborted) ∨
      ¬ Honest buf found (buf.contentSize + other.length) ∧
        buf.plusOther junk found other = .error .outOfBounds := by
  rw [plusOther, if_neg hsome]
  by_cases hempty : buf.contentSize = 0
  · rw [hempty, Nat.zero_add] at hshort ⊢
    rw [if_pos rfl]
    exact setContent_short junk h hlt hshort
  · rw [if_neg hempty]
    exact @alloc_short junk found buf (buf.contentSize + other.length)
      (fun grown => (grown.store grown.contentSize other).map fun grown =>
        { grown with contentSize := (buf.contentSize + other.length) % 2 ^ 32 }) h (by omega) hshort
      fun grown hcontent hbegin hover => by
        rw [store_outside (by omega)]
        rfl

end OwnedBuffers

end IronStack.Proof
