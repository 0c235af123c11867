import IronStack.AutobufEdits
import IronStack.Lib.Refinement
import IronStack.Proof.Buffers

/-!
# A buffer is a list of bytes

Every operation on an owned buffer is one on the list of its bytes, as long as the sums
of sizes fit into 32 bits and no offset that goes through `ptr_offset_mutable` or
`ptr_offset_const` is refused there. The former compares it with the size of the content
before the operation, so that nothing can be prepended to a buffer that is not longer than
it, unless a trim has left room in front.
-/

namespace IronStack.Proof

open IronStack Lib OwnedAutobuf

/-! ## The list -/

/-- An operation on the bytes: those after it, and those that were read. -/
def onList (l : Bytes) : AutobufOp → Bytes × Bytes
  | .setContent src => (src, [])
  | .append bytes => (l ++ bytes, [])
  | .prepend bytes => (bytes ++ l, [])
  | .plusSelf => (l ++ l, [])
  | .plusOther other => (l ++ other, [])
  | .trimFront len => (l.drop len, [])
  | .trimRear len => (l.take (l.length - len), [])
  | .growBuffer size => (l ++ List.replicate (size - l.length) 0, [])
  | .readFront len | .readFrontTo _ len => (l, l.take len)
  | .readRear len | .readRearTo _ len => (l, l.drop (l.length - len))
  | .read offset len | .readTo _ offset len => (l, (l.drop offset).take len)

/-- An owned buffer, whose size is a word. -/
structure Owned (buf : OwnedAutobuf) : Prop extends Valid buf where
  bufSize_lt : buf.bufSize < 2 ^ 32

theorem owned_fresh : Owned {} := ⟨valid_fresh, by decide⟩

/-- There is memory for a number of bytes. -/
def Found (junk : Nat → UInt8) (buf : OwnedAutobuf) (size : Nat) : Prop := (buf.alloc junk size).2 = true

/-- The arguments are words and lie within the content, and memory is found where it is asked for. -/
def Admissible (junk : Nat → UInt8) (buf : OwnedAutobuf) : AutobufOp → Prop
  | .setContent src => src.length < 2 ^ 32 ∧ Found junk buf src.length
  | .append bytes | .prepend bytes | .plusOther bytes =>
      bytes.length < 2 ^ 32 ∧ Found junk buf ((buf.contentSize + bytes.length) % 2 ^ 32)
  | .plusSelf => Found junk buf (buf.contentSize * 2 % 2 ^ 32)
  | .trimFront len | .trimRear len | .readFront len | .readRear len => len ≤ buf.contentSize
  | .growBuffer size => buf.contentSize ≤ size ∧ size < 2 ^ 32 ∧ Found junk buf size
  | .read offset len => offset + len ≤ buf.contentSize
  | .readFrontTo dest len | .readRearTo dest len => len ≤ buf.contentSize ∧ Owned dest ∧ Found junk dest len
  | .readTo dest offset len => offset + len ≤ buf.contentSize ∧ Owned dest ∧ Found junk dest len

/-- The condition under which an operation does what it is for. -/
def Fits (buf : OwnedAutobuf) : AutobufOp → Prop
  | .append bytes | .plusOther bytes => buf.contentSize + bytes.length < 2 ^ 32
  | .prepend bytes =>
      bytes.length ≤ buf.beginOffset ∨ bytes.length < buf.contentSize ∧ buf.contentSize < 2 ^ 31
  | .plusSelf => buf.contentSize * 2 < 2 ^ 32
  | .growBuffer size => size = buf.contentSize ∨ size < 2 ^ 31
  | .readRear len => buf.contentSize - len < 2 ^ 31
  | .read offset _ | .readTo _ offset _ => offset < 2 ^ 31
  | .readRearTo _ _ => buf.contentSize < 2 ^ 31
  | .setContent _ | .trimFront _ | .trimRear _ | .readFront _ | .readFrontTo _ _ => True

/-! ## Memory that starts with the content -/

theorem content_of_front {buf : OwnedAutobuf} {l rest : Bytes} (hfront : buf.beginOffset = 0)
    (hmemory : buf.writeableBuf = l ++ rest) (hsize : buf.contentSize = l.length) : buf.content = l := by
  rw [content, hfront, List.drop_zero, hmemory, hsize, List.take_left]

/-- The operation ends with a buffer that holds these bytes. -/
def Holds (r : Read OwnedAutobuf) (l : Bytes) : Prop := ∃ buf, r = .ok buf ∧ Owned buf ∧ buf.content = l

theorem holds_front {buf : OwnedAutobuf} {l rest : Bytes} (hfront : buf.beginOffset = 0)
    (hmemory : buf.writeableBuf = l ++ rest) (hlen : (l ++ rest).length = buf.bufSize)
    (hlt : buf.bufSize < 2 ^ 32) (hsize : buf.contentSize = l.length) : Holds (.ok buf) l := by
  have hfits : buf.beginOffset + buf.contentSize ≤ buf.bufSize := by
    rw [List.length_append] at hlen
    omega
  have howned : Owned buf := ⟨⟨by rw [hmemory, hlen], hfits⟩, hlt⟩
  exact ⟨buf, rfl, howned, content_of_front hfront hmemory hsize⟩

theorem contentSize_lt {buf : OwnedAutobuf} (h : Owned buf) : buf.contentSize < 2 ^ 32 := by
  have hfits := h.fits
  have hlt := h.bufSize_lt
  omega

/-- What is written behind the content of a buffer that has been made larger. -/
theorem store_behind {buf grown : OwnedAutobuf} {size : Nat} {bytes : Bytes} (h : Owned buf)
    (hgrown : Grown buf size grown) (hfits : buf.contentSize + bytes.length ≤ size) :
    ∃ rest, (buf.content ++ bytes ++ rest).length = grown.bufSize ∧
      grown.store buf.contentSize bytes =
        .ok { grown with writeableBuf := buf.content ++ bytes ++ rest } := by
  have hcontent := length_content h.toValid
  have hlen := hgrown.roomy.length_eq
  have hroom := hgrown.roomy.room
  have hmemory : grown.writeableBuf = buf.content ++ grown.writeableBuf.drop buf.contentSize := by
    rw [← hgrown.content_eq, List.take_append_drop]
  have hwrite : overwrite (buf.content ++ grown.writeableBuf.drop buf.contentSize) buf.contentSize bytes =
      .ok ((buf.content ++ bytes) ++ grown.writeableBuf.drop (buf.contentSize + bytes.length)) :=
    overwrite_drop hcontent (by omega)
  rw [← hmemory] at hwrite
  refine ⟨grown.writeableBuf.drop (buf.contentSize + bytes.length), ?_, ?_⟩
  · simp only [List.length_append, List.length_drop, hcontent]
    omega
  · rw [store, hgrown.roomy.front, Nat.zero_add, hwrite]
    rfl

/-- There is no room for more than there is memory. -/
theorem store_fault {buf : OwnedAutobuf} {off : Nat} {bytes : Bytes} (h : Valid buf)
    (hover : buf.bufSize < buf.beginOffset + off + bytes.length) :
      buf.store off bytes = .error .outOfBounds := by
  rw [store, overwrite, if_neg (by rw [h.length_eq]; omega)]
  rfl

/-- A part of the content. -/
theorem load_content {buf : OwnedAutobuf} {off len : Nat} (h : Owned buf)
    (hwithin : off + len ≤ buf.contentSize) :
    buf.load off len = .ok ((buf.content.drop off).take len) := by
  have hfits := h.fits
  have hlen := h.length_eq
  rw [load, slice_ok (by omega), content, List.drop_take, List.take_take, Nat.min_eq_left (by omega),
    List.drop_drop]

theorem Grown.valid {buf grown : OwnedAutobuf} {size : Nat} (h : Grown buf size grown) : Valid grown := by
  refine ⟨h.roomy.length_eq, ?_⟩
  rw [h.roomy.front, h.contentSize_eq, Nat.zero_add]
  exact h.content_fits

theorem Grown.owned {buf grown : OwnedAutobuf} {size : Nat} (h : Grown buf size grown) (hbuf : Owned buf) :
    Owned grown := ⟨h.valid, h.bufSize_lt hbuf.bufSize_lt⟩

theorem Grown.content {buf grown : OwnedAutobuf} {size : Nat} (h : Grown buf size grown) :
    grown.content = buf.content := by
  rw [OwnedAutobuf.content, h.roomy.front, List.drop_zero, h.contentSize_eq, h.content_eq]

/-- The whole of the content, where it is now. -/
theorem load_grown {buf grown : OwnedAutobuf} {size : Nat} (h : Owned buf) (hgrown : Grown buf size grown) :
    grown.load 0 grown.contentSize = .ok buf.content := by
  rw [load_content (hgrown.owned h) (by omega), hgrown.content, List.drop_zero, hgrown.contentSize_eq,
    ← length_content h.toValid, List.take_length]

/-- `alloc` found memory, and this is what it made. -/
theorem exists_grown {junk : Nat → UInt8} {buf : OwnedAutobuf} {size : Nat} (h : Owned buf)
    (hsize : size < 2 ^ 32) (hfound : Found junk buf size) :
    ∃ grown, buf.alloc junk size = (grown, true) ∧ Grown buf size grown :=
  ⟨(buf.alloc junk size).1, Prod.ext rfl hfound, alloc_grown junk h.toValid hsize hfound⟩

/-! ## Operation by operation -/

section

variable {junk : Nat → UInt8} {buf : OwnedAutobuf}

theorem setContent_holds {src : Bytes} (h : Owned buf) (hlt : src.length < 2 ^ 32)
    (hfound : Found junk buf src.length) : Holds (buf.setContent junk src) src := by
  obtain ⟨grown, halloc, hgrown⟩ := exists_grown h hlt hfound
  have hlen := hgrown.roomy.length_eq
  have hroom := hgrown.roomy.room
  rw [setContent, halloc]
  dsimp only
  rw [hgrown.roomy.front, overwrite_zero (by omega), ok_bind]
  refine holds_front rfl rfl ?_ (hgrown.bufSize_lt h.bufSize_lt) rfl
  simp only [List.length_append, List.length_drop]
  omega

/-- Bytes that come behind the content, in memory made for them. -/
theorem behind_holds {grown : OwnedAutobuf} {bytes : Bytes} (h : Owned buf)
    (hgrown : Grown buf (buf.contentSize + bytes.length) grown) :
    ∃ written, grown.store grown.contentSize bytes = .ok written ∧ written.contentSize = buf.contentSize ∧
      Holds (.ok { written with contentSize := buf.contentSize + bytes.length }) (buf.content ++ bytes) := by
  obtain ⟨rest, hlen, hstore⟩ := store_behind h hgrown (Nat.le_refl _)
  rw [hgrown.contentSize_eq]
  refine ⟨_, hstore, hgrown.contentSize_eq, ?_⟩
  refine holds_front hgrown.roomy.front rfl hlen (hgrown.bufSize_lt h.bufSize_lt) ?_
  rw [List.length_append, length_content h.toValid]

/-- Bytes that come behind the content of a buffer too small for them. -/
theorem behind_fault {grown : OwnedAutobuf} {size : Nat} {bytes : Bytes} (h : Owned buf)
    (hgrown : Grown buf size grown) (hover : 2 ^ 32 ≤ buf.contentSize + bytes.length) :
    grown.store grown.contentSize bytes = .error .outOfBounds := by
  have hlt := hgrown.bufSize_lt h.bufSize_lt
  refine store_fault hgrown.valid ?_
  rw [hgrown.contentSize_eq]
  omega

theorem append_holds {bytes : Bytes} (h : Owned buf) (hfits : buf.contentSize + bytes.length < 2 ^ 32)
    (hfound : Found junk buf ((buf.contentSize + bytes.length) % 2 ^ 32)) :
    Holds (buf.append junk bytes) (buf.content ++ bytes) := by
  rw [append]
  split
  · rename_i hnone
    rw [List.length_eq_zero_iff.mp hnone, List.append_nil]
    exact ⟨buf, rfl, h, rfl⟩
  · rw [Nat.mod_eq_of_lt hfits] at hfound
    obtain ⟨grown, halloc, hgrown⟩ := exists_grown h hfits hfound
    obtain ⟨written, hstore, hsize, hholds⟩ := behind_holds h hgrown
    rw [Nat.mod_eq_of_lt hfits, halloc]
    dsimp only
    rw [hstore, ok_bind, hsize, Nat.mod_eq_of_lt hfits]
    exact hholds

/-- A sum of sizes that wraps around has the end written behind the memory. -/
theorem fits_of_append {bytes : Bytes} {r : OwnedAutobuf} (h : Owned buf)
    (hfound : Found junk buf ((buf.contentSize + bytes.length) % 2 ^ 32))
    (hok : buf.append junk bytes = .ok r) : buf.contentSize + bytes.length < 2 ^ 32 := by
  by_contra hover
  rw [append] at hok
  split at hok
  · have hlt := contentSize_lt h
    omega
  · obtain ⟨grown, halloc, hgrown⟩ := exists_grown h (Nat.mod_lt _ (Nat.two_pow_pos 32)) hfound
    rw [halloc] at hok
    dsimp only at hok
    rw [behind_fault h hgrown (by omega)] at hok
    cases hok

theorem plusSelf_holds (h : Owned buf) (hfits : buf.contentSize * 2 < 2 ^ 32)
    (hfound : Found junk buf (buf.contentSize * 2 % 2 ^ 32)) :
    Holds (buf.plusSelf junk) (buf.content ++ buf.content) := by
  have hcontent := length_content h.toValid
  rw [plusSelf]
  split
  · have hdouble : buf.contentSize * 2 % 2 ^ 32 = buf.contentSize + buf.content.length := by
      rw [Nat.mod_eq_of_lt hfits, hcontent, Nat.mul_two]
    rw [hdouble] at hfound ⊢
    obtain ⟨grown, halloc, hgrown⟩ := exists_grown h (by omega) hfound
    obtain ⟨written, hstore, hsize, hholds⟩ := behind_holds h hgrown
    rw [halloc]
    dsimp only
    rw [load_grown h hgrown, ok_bind, hstore, ok_bind, hsize, hdouble]
    exact hholds
  · have hnone : buf.content = [] := List.length_eq_zero_iff.mp (by omega)
    exact ⟨buf, rfl, h, by rw [hnone, List.append_nil]⟩

theorem fits_of_plusSelf {r : OwnedAutobuf} (h : Owned buf)
    (hfound : Found junk buf (buf.contentSize * 2 % 2 ^ 32)) (hok : buf.plusSelf junk = .ok r) :
    buf.contentSize * 2 < 2 ^ 32 := by
  by_contra hover
  have hcontent := length_content h.toValid
  rw [plusSelf, if_pos (by omega)] at hok
  obtain ⟨grown, halloc, hgrown⟩ := exists_grown h (Nat.mod_lt _ (Nat.two_pow_pos 32)) hfound
  rw [halloc] at hok
  dsimp only at hok
  rw [load_grown h hgrown, ok_bind, behind_fault h hgrown (by omega)] at hok
  cases hok

theorem plusOther_holds {other : Bytes} (h : Owned buf) (hfits : buf.contentSize + other.length < 2 ^ 32)
    (hfound : Found junk buf ((buf.contentSize + other.length) % 2 ^ 32)) :
    Holds (buf.plusOther junk other) (buf.content ++ other) := by
  rw [Nat.mod_eq_of_lt hfits] at hfound
  rw [plusOther]
  split
  · rename_i hnone
    rw [List.length_eq_zero_iff.mp hnone, List.append_nil]
    exact ⟨buf, rfl, h, rfl⟩
  · split
    · rename_i hempty
      have hnone : buf.content = [] := List.length_eq_zero_iff.mp (by rw [length_content h.toValid, hempty])
      rw [hempty, Nat.zero_add] at hfound
      rw [hnone, List.nil_append]
      exact setContent_holds h (by omega) hfound
    · obtain ⟨grown, halloc, hgrown⟩ := exists_grown h hfits hfound
      obtain ⟨written, hstore, hsize, hholds⟩ := behind_holds h hgrown
      dsimp only
      rw [Nat.mod_eq_of_lt hfits, halloc]
      dsimp only
      rw [hstore, ok_bind]
      exact hholds

theorem fits_of_plusOther {other : Bytes} {r : OwnedAutobuf} (h : Owned buf) (hlt : other.length < 2 ^ 32)
    (hfound : Found junk buf ((buf.contentSize + other.length) % 2 ^ 32))
    (hok : buf.plusOther junk other = .ok r) : buf.contentSize + other.length < 2 ^ 32 := by
  by_contra hover
  have hsize := contentSize_lt h
  rw [plusOther, if_neg (by omega), if_neg (by omega)] at hok
  obtain ⟨grown, halloc, hgrown⟩ := exists_grown h (Nat.mod_lt _ (Nat.two_pow_pos 32)) hfound
  dsimp only at hok
  rw [halloc] at hok
  dsimp only at hok
  rw [behind_fault h hgrown (by omega)] at hok
  cases hok

theorem trimFront_holds (h : Owned buf) (len : Nat) :
    Holds (.ok (buf.trimFront len)) (buf.content.drop len) := by
  have hfits := h.fits
  have hlt := h.bufSize_lt
  refine ⟨_, rfl, ?_⟩
  rw [trimFront]
  split
  · rename_i hall
    refine ⟨⟨⟨h.length_eq, by dsimp only; omega⟩, hlt⟩, ?_⟩
    rw [List.drop_eq_nil_of_le (by rw [length_content h.toValid]; exact hall), content, List.take_zero]
  · have hbegin : (buf.beginOffset + len) % 2 ^ 32 = buf.beginOffset + len := Nat.mod_eq_of_lt (by omega)
    rw [hbegin]
    refine ⟨⟨⟨h.length_eq, by dsimp only; omega⟩, hlt⟩, ?_⟩
    rw [content, content, List.drop_take, List.drop_drop]

theorem trimRear_holds (h : Owned buf) (len : Nat) :
    Holds (.ok (buf.trimRear len)) (buf.content.take (buf.content.length - len)) := by
  have hfits := h.fits
  refine ⟨_, rfl, ?_⟩
  rw [trimRear, length_content h.toValid]
  split
  · rename_i hall
    refine ⟨⟨⟨h.length_eq, by dsimp only; omega⟩, h.bufSize_lt⟩, ?_⟩
    rw [Nat.sub_eq_zero_of_le hall, List.take_zero, content, List.take_zero]
  · refine ⟨⟨⟨h.length_eq, by dsimp only; omega⟩, h.bufSize_lt⟩, ?_⟩
    rw [content, content, List.take_take, Nat.min_eq_left (by omega)]

/-- An offset is taken if it is within the size, and that is no negative `int`. -/
theorem ptrOffsetMutable_ok_iff {size offset : Nat} (hsize : size < 2 ^ 32) (hoffset : offset < 2 ^ 32) :
    ptrOffsetMutable size offset = .ok () ↔ offset < size ∧ size < 2 ^ 31 := by
  rw [ptrOffsetMutable]
  by_cases hsmall : size < 2 ^ 31
  · rw [asInt_of_lt hsmall]
    by_cases hoff : offset < 2 ^ 31
    · rw [asInt_of_lt hoff]
      split
      · refine ⟨fun h => (by cases h), ?_⟩
        omega
      · exact ⟨fun _ => by omega, fun _ => rfl⟩
    · have hneg := asInt_neg (Nat.not_lt.mp hoff) hoffset
      rw [if_pos (.inl hneg)]
      refine ⟨fun h => (by cases h), ?_⟩
      omega
  · have hneg := asInt_neg (Nat.not_lt.mp hsmall) hsize
    rw [if_pos (by omega)]
    exact ⟨fun h => (by cases h), fun h => absurd h.2 hsmall⟩

theorem ptrOffsetConst_ok_iff {offset : Nat} (hoffset : offset < 2 ^ 32) :
    ptrOffsetConst offset = .ok () ↔ offset < 2 ^ 31 := by
  rw [ptrOffsetConst]
  by_cases hsmall : offset < 2 ^ 31
  · rw [asInt_of_lt hsmall, if_neg (by omega)]
    exact ⟨fun _ => hsmall, fun _ => rfl⟩
  · rw [if_pos (asInt_neg (Nat.not_lt.mp hsmall) hoffset)]
    exact ⟨fun h => (by cases h), fun h => absurd h hsmall⟩

/-- Into the room that a trim has left. -/
theorem prepend_room {bytes : Bytes} (h : Owned buf) (hroom : bytes.length ≤ buf.beginOffset) :
    ∃ rest before, overwrite buf.writeableBuf (buf.beginOffset - bytes.length + 0) bytes =
        .ok (before ++ (bytes ++ buf.content) ++ rest) ∧
      before.length = buf.beginOffset - bytes.length ∧
      (before ++ (bytes ++ buf.content) ++ rest).length = buf.bufSize := by
  have hfits := h.fits
  have hlen := h.length_eq
  have hsplit : buf.writeableBuf.drop buf.beginOffset =
      buf.content ++ buf.writeableBuf.drop (buf.beginOffset + buf.contentSize) := by
    rw [content, ← List.drop_drop, List.take_append_drop]
  refine ⟨buf.writeableBuf.drop (buf.beginOffset + buf.contentSize),
    buf.writeableBuf.take (buf.beginOffset - bytes.length), ?_, ?_, ?_⟩
  · rw [Nat.add_zero, overwrite, if_pos (by omega), Nat.sub_add_cancel hroom, hsplit]
    simp only [List.append_assoc]
  · rw [List.length_take]
    omega
  · simp only [List.length_append, List.length_take, List.length_drop, length_content h.toValid]
    omega

/-- The old content is moved back, and the bytes are written where it was. -/
theorem store_before {grown : OwnedAutobuf} {old bytes : Bytes} (hfront : grown.beginOffset = 0)
    (hroom : bytes.length + old.length ≤ grown.writeableBuf.length) :
    ∃ moved, grown.store bytes.length old = .ok moved ∧ moved.store 0 bytes = .ok { grown with
      writeableBuf := bytes ++ old ++ grown.writeableBuf.drop (bytes.length + old.length) } := by
  have hmove : overwrite grown.writeableBuf bytes.length old =
      .ok (grown.writeableBuf.take bytes.length ++
        (old ++ grown.writeableBuf.drop (bytes.length + old.length))) := by
    rw [overwrite, if_pos hroom, List.append_assoc]
  refine ⟨{ grown with writeableBuf :=
    grown.writeableBuf.take bytes.length ++
      (old ++ grown.writeableBuf.drop (bytes.length + old.length)) }, ?_, ?_⟩
  · rw [store, hfront, Nat.zero_add, hmove, ok_bind]
    rfl
  · have hfits : bytes.length ≤ (grown.writeableBuf.take bytes.length ++
        (old ++ grown.writeableBuf.drop (bytes.length + old.length))).length := by
      simp only [List.length_append, List.length_take, List.length_drop]
      omega
    rw [store, Nat.add_zero]
    dsimp only
    rw [hfront, overwrite_zero hfits, List.drop_left' (by rw [List.length_take]; omega), ok_bind,
      List.append_assoc]
    rfl

theorem prepend_holds {bytes : Bytes} (h : Owned buf)
    (hfits : bytes.length ≤ buf.beginOffset ∨ bytes.length < buf.contentSize ∧ buf.contentSize < 2 ^ 31)
    (hfound : Found junk buf ((buf.contentSize + bytes.length) % 2 ^ 32)) :
    Holds (buf.prepend junk bytes) (bytes ++ buf.content) := by
  have hcontent := length_content h.toValid
  have hwithin := h.fits
  have hlt := h.bufSize_lt
  have hsum : (buf.contentSize + bytes.length) % 2 ^ 32 = buf.contentSize + bytes.length :=
    Nat.mod_eq_of_lt (by omega)
  rw [hsum] at hfound
  rw [prepend]
  split
  · rename_i hnone
    rw [List.length_eq_zero_iff.mp hnone, List.nil_append]
    exact ⟨buf, rfl, h, rfl⟩
  · split
    · rename_i hroom
      obtain ⟨rest, before, hwrite, hbefore, hlen⟩ := prepend_room h hroom
      rw [store]
      dsimp only
      rw [hwrite, ok_bind, pure_eq_ok, ok_bind]
      dsimp only
      rw [hsum]
      refine ⟨_, rfl, ⟨⟨hlen, by dsimp only; omega⟩, hlt⟩, ?_⟩
      rw [content]
      dsimp only
      rw [List.append_assoc, List.drop_left' hbefore,
        List.take_left' (by rw [List.length_append, hcontent, Nat.add_comm])]
    · rename_i hroom
      obtain ⟨hless, hsmall⟩ := hfits.resolve_left hroom
      obtain ⟨grown, halloc, hgrown⟩ := exists_grown h (by omega) hfound
      have hoffset : ptrOffsetMutable buf.contentSize bytes.length = .ok () :=
        (ptrOffsetMutable_ok_iff (by omega) (by omega)).mpr ⟨hless, hsmall⟩
      have hlen := hgrown.roomy.length_eq
      have hroom := hgrown.roomy.room
      have hboth : bytes.length + buf.content.length ≤ grown.writeableBuf.length := by omega
      obtain ⟨moved, hmoved, hstore⟩ := store_before hgrown.roomy.front hboth
      rw [hsum, halloc]
      dsimp only
      rw [load_grown h hgrown, hgrown.contentSize_eq, hoffset, ok_bind, ok_bind, hmoved, ok_bind, hstore,
        ok_bind]
      dsimp only
      rw [hgrown.contentSize_eq, hsum]
      refine holds_front hgrown.roomy.front rfl ?_ (hgrown.bufSize_lt hlt) ?_
      · simp only [List.length_append, List.length_drop]
        omega
      · dsimp only
        rw [List.length_append, hcontent, Nat.add_comm]

theorem fits_of_prepend {bytes : Bytes} {r : OwnedAutobuf} (h : Owned buf) (hlt : bytes.length < 2 ^ 32)
    (hfound : Found junk buf ((buf.contentSize + bytes.length) % 2 ^ 32))
    (hok : buf.prepend junk bytes = .ok r) :
    bytes.length ≤ buf.beginOffset ∨ bytes.length < buf.contentSize ∧ buf.contentSize < 2 ^ 31 := by
  by_cases hroom : bytes.length ≤ buf.beginOffset
  · exact .inl hroom
  · obtain ⟨grown, halloc, hgrown⟩ := exists_grown h (Nat.mod_lt _ (Nat.two_pow_pos 32)) hfound
    rw [prepend, if_neg (by omega), if_neg hroom, halloc] at hok
    dsimp only at hok
    obtain ⟨_, hoffset, _⟩ := bind_eq_ok.mp hok
    rw [hgrown.contentSize_eq] at hoffset
    exact .inr ((ptrOffsetMutable_ok_iff (contentSize_lt h) hlt).mp hoffset)

theorem growBuffer_holds {size : Nat} (h : Owned buf) (hle : buf.contentSize ≤ size) (hlt : size < 2 ^ 32)
    (hfits : size = buf.contentSize ∨ size < 2 ^ 31) (hfound : Found junk buf size) :
    Holds (buf.growBuffer junk size true) (buf.content ++ List.replicate (size - buf.content.length) 0) := by
  have hcontent := length_content h.toValid
  obtain ⟨grown, halloc, hgrown⟩ := exists_grown h hlt hfound
  have hzeros : buf.contentSize + (List.replicate (size - buf.contentSize) (0 : UInt8)).length ≤ size := by
    rw [List.length_replicate]
    omega
  obtain ⟨rest, hlen, hstore⟩ := store_behind h hgrown hzeros
  have hcreate : buf.createEmptyBuffer junk size false = .ok { grown with contentSize := size } := by
    rw [createEmptyBuffer, halloc]
    rfl
  rw [growBuffer, hcreate, ok_bind, hcontent]
  split
  · rename_i hmore
    have hmore : buf.contentSize < size := by simpa using hmore
    rw [(ptrOffsetMutable_ok_iff hlt (by omega)).mpr ⟨hmore, by omega⟩, ok_bind]
    have hwrite : { grown with contentSize := size }.store buf.contentSize
        (List.replicate (size - buf.contentSize) 0) = .ok { grown with
          writeableBuf := buf.content ++ List.replicate (size - buf.contentSize) 0 ++ rest
          contentSize := size } := by
      rw [store] at hstore ⊢
      obtain ⟨memory, hmemory, heq⟩ := bind_eq_ok.mp hstore
      dsimp only
      rw [hmemory, ok_bind]
      have hbuf := congrArg OwnedAutobuf.writeableBuf (Except.ok.inj heq)
      dsimp only at hbuf
      rw [hbuf]
      rfl
    rw [hwrite]
    refine holds_front hgrown.roomy.front rfl hlen (hgrown.bufSize_lt h.bufSize_lt) ?_
    simp only [List.length_append, List.length_replicate]
    omega
  · rename_i hsame
    have hsame : size = buf.contentSize := by
      have hnot : ¬ buf.contentSize < size := by simpa using hsame
      omega
    rw [hsame, Nat.sub_self, List.replicate_zero, List.append_nil]
    have howned := hgrown.owned h
    rw [← hgrown.contentSize_eq]
    exact ⟨grown, rfl, howned, hgrown.content⟩

theorem fits_of_growBuffer {size : Nat} {r : OwnedAutobuf} (h : Owned buf) (hle : buf.contentSize ≤ size)
    (hlt : size < 2 ^ 32) (hok : buf.growBuffer junk size true = .ok r) :
    size = buf.contentSize ∨ size < 2 ^ 31 := by
  rcases Nat.eq_or_lt_of_le hle with heq | hmore
  · exact .inl heq.symm
  · obtain ⟨grown, hcreate, hok⟩ := bind_eq_ok.mp hok
    obtain rfl := Except.ok.inj hcreate
    rw [if_pos (by simpa using hmore)] at hok
    obtain ⟨_, hoffset, _⟩ := bind_eq_ok.mp hok
    exact .inr ((ptrOffsetMutable_ok_iff hlt (contentSize_lt h)).mp hoffset).2

/-! ## Reading -/

theorem readFront_ok {len : Nat} (h : Owned buf) (hwithin : len ≤ buf.contentSize) :
    buf.readFront len = .ok (buf.content.take len) := by
  rw [readFront, if_neg (Nat.not_lt.mpr hwithin), load_content h (by omega), List.drop_zero]

/-- The last bytes of the content, as a part of it. -/
theorem load_rear {len : Nat} (h : Owned buf) (hwithin : len ≤ buf.contentSize) :
    buf.load (buf.contentSize - len) len = .ok (buf.content.drop (buf.content.length - len)) := by
  have hcontent := length_content h.toValid
  rw [load_content h (by omega), hcontent, List.take_of_length_le (by rw [List.length_drop]; omega)]

theorem readRear_ok {len : Nat} (h : Owned buf) (hwithin : len ≤ buf.contentSize)
    (hfits : buf.contentSize - len < 2 ^ 31) :
    buf.readRear len = .ok (buf.content.drop (buf.content.length - len)) := by
  rw [readRear, if_neg (Nat.not_lt.mpr hwithin), (ptrOffsetConst_ok_iff (by omega)).mpr hfits, ok_bind,
    load_rear h hwithin]

theorem fits_of_readRear {len : Nat} {r : Bytes} (h : Owned buf) (hwithin : len ≤ buf.contentSize)
    (hok : buf.readRear len = .ok r) : buf.contentSize - len < 2 ^ 31 := by
  have hlt := contentSize_lt h
  rw [readRear, if_neg (Nat.not_lt.mpr hwithin)] at hok
  obtain ⟨_, hoffset, _⟩ := bind_eq_ok.mp hok
  exact (ptrOffsetConst_ok_iff (by omega)).mp hoffset

theorem read_within {offset len : Nat} (h : Owned buf) (hwithin : offset + len ≤ buf.contentSize) :
    ¬ (offset + len) % 2 ^ 32 > buf.contentSize := by
  have hlt := contentSize_lt h
  rw [Nat.mod_eq_of_lt (by omega)]
  omega

theorem read_ok {offset len : Nat} (h : Owned buf) (hwithin : offset + len ≤ buf.contentSize)
    (hfits : offset < 2 ^ 31) : buf.read offset len = .ok ((buf.content.drop offset).take len) := by
  rw [OwnedAutobuf.read, if_neg (read_within h hwithin), (ptrOffsetConst_ok_iff (by omega)).mpr hfits,
    ok_bind, load_content h hwithin]

theorem fits_of_read {offset len : Nat} {r : Bytes} (h : Owned buf) (hwithin : offset + len ≤ buf.contentSize)
    (hok : buf.read offset len = .ok r) : offset < 2 ^ 31 := by
  have hlt := contentSize_lt h
  rw [OwnedAutobuf.read, if_neg (read_within h hwithin)] at hok
  obtain ⟨_, hoffset, _⟩ := bind_eq_ok.mp hok
  exact (ptrOffsetConst_ok_iff (by omega)).mp hoffset

section

variable {dest : OwnedAutobuf} (hdest : Owned dest)

include hdest

/-- Bytes of the content, copied into another buffer. -/
theorem copied_holds {len : Nat} {bytes : Bytes} (h : Owned buf) (hwithin : len ≤ buf.contentSize)
    (hlen : bytes.length = len) (hfound : Found junk dest len) :
      Holds (dest.setContent junk bytes) bytes := by
  have hlt := contentSize_lt h
  exact setContent_holds hdest (by omega) (by rw [hlen]; exact hfound)

theorem readFrontTo_holds {len : Nat} (h : Owned buf) (hwithin : len ≤ buf.contentSize)
    (hfound : Found junk dest len) : Holds (buf.readFrontTo junk dest len) (buf.content.take len) := by
  have hcontent := length_content h.toValid
  rw [readFrontTo, if_neg (Nat.not_lt.mpr hwithin), load_content h (by omega), ok_bind, List.drop_zero]
  exact copied_holds hdest h hwithin (by rw [List.length_take]; omega) hfound

theorem readRearTo_holds {len : Nat} (h : Owned buf) (hwithin : len ≤ buf.contentSize)
    (hfits : buf.contentSize < 2 ^ 31) (hfound : Found junk dest len) :
    Holds (buf.readRearTo junk dest len) (buf.content.drop (buf.content.length - len)) := by
  have hcontent := length_content h.toValid
  rw [readRearTo, if_neg (Nat.not_lt.mpr hwithin), (ptrOffsetConst_ok_iff (by omega)).mpr hfits, ok_bind,
    load_rear h hwithin, ok_bind]
  exact copied_holds hdest h hwithin (by rw [List.length_drop]; omega) hfound

theorem readTo_holds {offset len : Nat} (h : Owned buf) (hwithin : offset + len ≤ buf.contentSize)
    (hfits : offset < 2 ^ 31) (hfound : Found junk dest len) :
    Holds (buf.readTo junk dest offset len) ((buf.content.drop offset).take len) := by
  have hcontent := length_content h.toValid
  rw [readTo, if_neg (read_within h hwithin), (ptrOffsetConst_ok_iff (by omega)).mpr hfits, ok_bind,
    load_content h hwithin, ok_bind]
  exact copied_holds hdest h (by omega) (by rw [List.length_take, List.length_drop]; omega) hfound

end

theorem fits_of_readRearTo {dest r : OwnedAutobuf} {len : Nat} (h : Owned buf)
    (hwithin : len ≤ buf.contentSize)
    (hok : buf.readRearTo junk dest len = .ok r) : buf.contentSize < 2 ^ 31 := by
  rw [readRearTo, if_neg (Nat.not_lt.mpr hwithin)] at hok
  obtain ⟨_, hoffset, _⟩ := bind_eq_ok.mp hok
  exact (ptrOffsetConst_ok_iff (contentSize_lt h)).mp hoffset

theorem fits_of_readTo {dest r : OwnedAutobuf} {offset len : Nat} (h : Owned buf)
    (hwithin : offset + len ≤ buf.contentSize) (hok : buf.readTo junk dest offset len = .ok r) :
      offset < 2 ^ 31 := by
  have hlt := contentSize_lt h
  rw [readTo, if_neg (read_within h hwithin)] at hok
  obtain ⟨_, hoffset, _⟩ := bind_eq_ok.mp hok
  exact (ptrOffsetConst_ok_iff (by omega)).mp hoffset

end

/-! ## Any number of operations -/

/-- An operation that ends with these bytes in the buffer, having read those. -/
def Yields (r : Read (OwnedAutobuf × Bytes)) (p : Bytes × Bytes) : Prop :=
  ∃ buf, r = .ok (buf, p.2) ∧ Owned buf ∧ buf.content = p.1

theorem Holds.yields {r : Read OwnedAutobuf} {l : Bytes} (h : Holds r l) :
    Yields (r.map (·, [])) (l, []) := by
  obtain ⟨buf, rfl, howned, hcontent⟩ := h
  exact ⟨buf, rfl, howned, hcontent⟩

theorem yields_read {buf : OwnedAutobuf} {r : Read Bytes} {bytes : Bytes} (h : Owned buf)
    (hread : r = .ok bytes) :
    Yields (r.map (buf, ·)) (buf.content, bytes) := ⟨buf, by rw [hread]; rfl, h, rfl⟩

theorem Holds.yields_copied {buf : OwnedAutobuf} {r : Read OwnedAutobuf} {bytes : Bytes} (h : Owned buf)
    (hread : Holds r bytes) : Yields (r.map fun dest => (buf, dest.content)) (buf.content, bytes) := by
  obtain ⟨dest, rfl, _, hcontent⟩ := hread
  exact ⟨buf, by rw [← hcontent]; rfl, h, rfl⟩

section

variable {junk : Nat → UInt8} {buf : OwnedAutobuf} {op : AutobufOp}

/-- **One operation** that meets the condition is the one on the list. -/
theorem step_yields (h : Owned buf) (hadm : Admissible junk buf op) (hfits : Fits buf op) :
    Yields (AutobufOp.step junk buf op) (onList buf.content op) := by
  cases op with
  | setContent src => exact (setContent_holds h hadm.1 hadm.2).yields
  | append bytes => exact (append_holds h hfits hadm.2).yields
  | prepend bytes => exact (prepend_holds h hfits hadm.2).yields
  | plusSelf => exact (plusSelf_holds h hfits hadm).yields
  | plusOther other => exact (plusOther_holds h hfits hadm.2).yields
  | trimFront len => exact (trimFront_holds h len).yields
  | trimRear len => exact (trimRear_holds h len).yields
  | growBuffer size => exact (growBuffer_holds h hadm.1 hadm.2.1 hfits hadm.2.2).yields
  | readFront len => exact yields_read h (readFront_ok h hadm)
  | readRear len => exact yields_read h (readRear_ok h hadm hfits)
  | read offset len => exact yields_read h (read_ok h hadm hfits)
  | readFrontTo dest len => exact (readFrontTo_holds hadm.2.1 h hadm.1 hadm.2.2).yields_copied h
  | readRearTo dest len => exact (readRearTo_holds hadm.2.1 h hadm.1 hfits hadm.2.2).yields_copied h
  | readTo dest offset len => exact (readTo_holds hadm.2.1 h hadm.1 hfits hadm.2.2).yields_copied h

/-- An operation that does not meet the condition does not end well. -/
theorem fits_of_step {r : OwnedAutobuf × Bytes} (h : Owned buf) (hadm : Admissible junk buf op)
    (hok : AutobufOp.step junk buf op = .ok r) : Fits buf op := by
  cases op with
  | setContent _ => trivial
  | append bytes =>
      obtain ⟨_, hok, _⟩ := map_eq_ok.mp hok
      exact fits_of_append h hadm.2 hok
  | prepend bytes =>
      obtain ⟨_, hok, _⟩ := map_eq_ok.mp hok
      exact fits_of_prepend h hadm.1 hadm.2 hok
  | plusSelf =>
      obtain ⟨_, hok, _⟩ := map_eq_ok.mp hok
      exact fits_of_plusSelf h hadm hok
  | plusOther other =>
      obtain ⟨_, hok, _⟩ := map_eq_ok.mp hok
      exact fits_of_plusOther h hadm.1 hadm.2 hok
  | trimFront _ => trivial
  | trimRear _ => trivial
  | growBuffer size =>
      obtain ⟨_, hok, _⟩ := map_eq_ok.mp hok
      exact fits_of_growBuffer h hadm.1 hadm.2.1 hok
  | readFront _ => trivial
  | readRear len =>
      obtain ⟨_, hok, _⟩ := map_eq_ok.mp hok
      exact fits_of_readRear h hadm hok
  | read offset len =>
      obtain ⟨_, hok, _⟩ := map_eq_ok.mp hok
      exact fits_of_read h hadm hok
  | readFrontTo _ _ => trivial
  | readRearTo dest len =>
      obtain ⟨_, hok, _⟩ := map_eq_ok.mp hok
      exact fits_of_readRearTo h hadm.1 hok
  | readTo dest offset len =>
      obtain ⟨_, hok, _⟩ := map_eq_ok.mp hok
      exact fits_of_readTo h hadm.1 hok

end

/--
**A buffer is a list of bytes.** Whatever is asked of an owned buffer, with arguments
within its content and memory found for it: none of it aborts or leaves the memory, and
the content and what is read are those of a list of bytes throughout, exactly if every
operation meets the condition.
-/
theorem autobuf_refines_iff (junk : Nat → UInt8) (buf : OwnedAutobuf) (ops : List AutobufOp) (h : Owned buf)
    (hadm : Along (AutobufOp.step junk) (Admissible junk) buf ops) :
    Refines (AutobufOp.step junk) onList content buf buf.content ops ↔
      Along (AutobufOp.step junk) Fits buf ops := by
  refine refines_iff Owned ?_ ?_ ops buf h hadm
  · intro buf op buf' r h hadm hfits hok
    obtain ⟨_, hyields, howned, _⟩ := step_yields h hadm hfits
    obtain ⟨rfl, _⟩ := Prod.mk.inj (Except.ok.inj (hyields.symm.trans hok))
    exact howned
  · intro buf op h hadm
    refine ⟨?_, ?_⟩
    · intro ⟨_, hok, _⟩
      exact fits_of_step h hadm hok
    · intro hfits
      obtain ⟨buf', hok, _, hcontent⟩ := step_yields h hadm hfits
      exact ⟨buf', hok, hcontent⟩

/-- Room of four bytes on either side of four. -/
def roomyBuffer : OwnedAutobuf := ⟨[0, 0, 0, 0, 1, 2, 3, 4, 0, 0, 0, 0], 12, 4, 4⟩

/-- A trim at the front, a byte in its place and one in front of it, and a trim at the rear. -/
def shuffling : List AutobufOp :=
  [.trimFront 2, .prepend [7], .plusSelf, .prepend [8, 9], .trimRear 3, .read 1 2, .growBuffer 9]

theorem roomyBuffer_refines :
    Refines (AutobufOp.step fun _ => 0) onList content roomyBuffer roomyBuffer.content shuffling ↔
      Along (AutobufOp.step fun _ => 0) Fits roomyBuffer shuffling :=
  autobuf_refines_iff (fun _ => 0) roomyBuffer shuffling ⟨⟨rfl, by decide⟩, by decide⟩
    ⟨(by decide : 2 ≤ 4), ⟨by decide, rfl⟩, rfl, ⟨by decide, rfl⟩, (by decide : 3 ≤ 8),
      (by decide : 1 + 2 ≤ 5), ⟨(by decide : 5 ≤ 9), by decide, rfl⟩, trivial⟩

/-- A byte put in front of nothing aborts. -/
theorem prepend_onNothing_aborts :
    ¬ ∀ (junk : Nat → UInt8) (buf : OwnedAutobuf) (ops : List AutobufOp), Owned buf →
      Along (AutobufOp.step junk) (Admissible junk) buf ops →
        Refines (AutobufOp.step junk) onList content buf buf.content ops := by
  intro h
  obtain ⟨_, _, hok, _⟩ := h (fun _ => 0) {} [.prepend [1]] owned_fresh
    ⟨⟨by decide, rfl⟩, trivial⟩
  cases hok

end IronStack.Proof
