import IronStack.WriteableAutobuf
import IronStack.Lib.Machine
import IronStack.Proof.ByteList

/-!
# Buffers keep to their regions

A buffer is bounded if its content lies within its region and the size on record is the
size of the region. Methods that look at what `alloc` says abort where there is no room, as
long as no sum of sizes wraps around; those that do not look run over the end.
-/

namespace IronStack.Proof

open IronStack Lib WriteableAutobuf

namespace AutobufBounds

/-! ## The property and the condition -/

/-- A call ends with a bounded buffer, or aborts before it accesses what is not there. -/
def Contained : Read WriteableAutobuf → Prop
  | .ok buf => Bounded buf
  | .error e => e = .aborted

/-- Where the content begins when `alloc` is done. -/
def front (buf : WriteableAutobuf) : Nat := if buf.ownsMemory then 0 else buf.beginOffset

/-- There is room for so many bytes, or it is found. -/
def Room (buf : WriteableAutobuf) (found : Bool) (size : Nat) : Prop :=
  front buf + size ≤ buf.bufSize ∨ buf.ownsMemory = true ∧ found = true ∧ size ≤ 2 ^ 32 - 4096

/-- `alloc` does not say that there is room where there is none. -/
def Honest (buf : WriteableAutobuf) (found : Bool) (size : Nat) : Prop :=
  front buf + size < 2 ^ 32 ∧
    ¬ (buf.ownsMemory = true ∧ buf.pointer = .null ∧ found = true ∧ 2 ^ 32 - 4096 < size)

/-- A part whose end is a word, or that is refused all the same. -/
def Refusable (buf : WriteableAutobuf) (offset len : Nat) : Prop :=
  offset + len < 2 ^ 32 ∨ 2 ^ 31 ≤ offset ∨ buf.contentSize + 2 ^ 32 < offset + len

/-- The condition under which a call keeps to the region. -/
def Harmless (buf : WriteableAutobuf) (found : Bool) : AutobufCall → Prop
  | .setContent srcBuf => Honest buf found srcBuf.bytes.length
  | .inheritShared src => src.maxSize = 0 ∨ src.size ≤ src.maxSize
  | .memcpyTo size offset => buf.pointer = .null ∨ Refusable buf offset.toNat size.toNat
  | .read offset len => Refusable buf offset.toNat len.toNat
  | .plusSelf => buf.contentSize = 0 ∨ Honest buf found (buf.contentSize * 2)
  | .plusOther other => other.bytes.length = 0 ∨ Honest buf found (buf.contentSize + other.bytes.length)
  | .append bytes => bytes.bytes.length = 0 ∨ Room buf found (buf.contentSize + bytes.bytes.length)
  | .prepend bytes => bytes.bytes.length = 0 ∨ bytes.bytes.length ≤ buf.beginOffset ∨
      Honest buf found (buf.contentSize + bytes.bytes.length) ∨
        ¬ (bytes.bytes.length < buf.contentSize ∧ buf.contentSize < 2 ^ 31)
  | .load file got => ∀ bytes ∈ file, found = false ∧ bytes.length % 2 ^ 32 ≠ 0 ∨
      min got bytes.length ≤ OwnedAutobuf.requiredSize (bytes.length % 2 ^ 32)
  | .reserve size => ¬ (buf.ownsMemory = true ∧ buf.pointer = .region ∧ buf.bufSize < size.toNat ∧
      2 ^ 32 - 4096 < size.toNat)
  | .createEmptyBuffer size _ => Room buf found size.toNat
  | .growBuffer size zero => Room buf found size.toNat ∨
      zero = true ∧ buf.contentSize < size.toNat ∧ 2 ^ 31 ≤ size.toNat
  | .assign original => original.ownsMemory = false ∨ original.contentSize = 0 ∨
      found = true ∧ original.contentSize ≤ 2 ^ 32 - 4096
  | .copyAsShared original => original.beginOffset = 0
  | .clear | .reset | .memcpyFrom _ _ | .byteAt _ | .readFront _ | .readRear _ | .readRearTo _
  | .trimFront _ | .trimRear _ | .shrink => True

/-- The call on the buffer that there is, if there is one. -/
def HarmlessStep (state : Read WriteableAutobuf) (i : AutobufInput) : Prop :=
  ∀ buf, state = .ok buf → Harmless buf i.found i.call

/-! ## Accesses to the region -/

section Region

variable {buf : WriteableAutobuf} {off len : Nat} {bytes : Bytes}

theorem store_ok (h : buf.beginOffset + off + bytes.length ≤ buf.writeableBuf.length) :
    ∃ memory, memory.length = buf.writeableBuf.length ∧
      buf.store off bytes = .ok { buf with writeableBuf := memory } := by
  refine ⟨buf.writeableBuf.take (buf.beginOffset + off) ++ bytes ++
    buf.writeableBuf.drop (buf.beginOffset + off + bytes.length), ?_, ?_⟩
  · simp only [List.length_append, List.length_take, List.length_drop]
    omega
  · rw [WriteableAutobuf.store, overwrite, if_pos h]
    rfl

theorem store_outside (h : buf.writeableBuf.length < buf.beginOffset + off + bytes.length) :
    buf.store off bytes = .error .outOfBounds := by
  rw [WriteableAutobuf.store, overwrite, if_neg (Nat.not_le.mpr h)]
  rfl

theorem load_ok (h : buf.beginOffset + off + len ≤ buf.writeableBuf.length) :
    ∃ loaded, loaded.length = len ∧ buf.toOwnedAutobuf.load off len = .ok loaded := by
  refine ⟨_, ?_, slice_ok h⟩
  rw [List.length_take, List.length_drop]
  omega

theorem load_outside (h : buf.writeableBuf.length < buf.beginOffset + off + len) :
    buf.toOwnedAutobuf.load off len = .error .outOfBounds := slice_error h

/-- Other content in the same region. -/
theorem bounded_of_memory (h : Bounded buf) {memory : Bytes} (hlen : memory.length = buf.writeableBuf.length)
    {b c : Nat} (hwithin : b + c ≤ buf.bufSize) :
    Bounded { buf with writeableBuf := memory, beginOffset := b, contentSize := c } := by
  have hsize := h.bufSize_eq
  refine ⟨?_, ?_, h.bufSize_lt, h.live, ?_⟩
  · dsimp only
    omega
  · exact hsize.trans hlen.symm
  · intro hnull
    have hnone := h.null hnull
    rw [hnone] at hlen
    exact List.length_eq_zero_iff.mp hlen

theorem realign_ok (hwithin : buf.beginOffset + buf.contentSize ≤ buf.writeableBuf.length) :
    ∃ memory, memory.length = buf.writeableBuf.length ∧
      buf.realign = .ok { buf with writeableBuf := memory, beginOffset := 0 } := by
  rw [realign]
  split
  · obtain ⟨content, hlen, hload⟩ := @load_ok buf 0 buf.contentSize (by omega)
    rw [hload, ok_bind, overwrite_zero (by omega)]
    refine ⟨content ++ buf.writeableBuf.drop content.length, ?_, rfl⟩
    rw [List.length_append, List.length_drop]
    omega
  · rename_i hzero
    obtain ⟨⟨memory, bufSize, contentSize, beginOffset⟩, ownsMemory, pointer⟩ := buf
    obtain rfl : beginOffset = 0 := by
      dsimp only at hzero
      omega
    exact ⟨memory, rfl, rfl⟩

end Region

/-! ## `alloc` -/

/-- The pages for so many bytes hold them, unless their size wraps around to nothing. -/
theorem requiredSize_cases {size : Nat} (hsize : size < 2 ^ 32) :
    size ≤ 2 ^ 32 - 4096 ∧ size ≤ OwnedAutobuf.requiredSize size ∨
      2 ^ 32 - 4096 < size ∧ OwnedAutobuf.requiredSize size = 0 := by
  unfold OwnedAutobuf.requiredSize
  split
  · omega
  · omega

/-- What `alloc` makes of a bounded buffer, and what it says. -/
structure Allocated (buf : WriteableAutobuf) (found : Bool) (size : Nat) (grown : WriteableAutobuf)
    (status : Bool) : Prop where
  contentSize_eq : grown.contentSize = buf.contentSize
  beginOffset_eq : grown.beginOffset = front buf
  room : Room buf found size → Bounded grown ∧ front buf + size ≤ grown.bufSize ∧ status = true
  short : ¬ Room buf found size → grown.writeableBuf.length < front buf + size ∧
    (status = true ↔ ¬ Honest buf found size)

/-- If there is no room, the buffer is bounded as long as its region was not freed. -/
def Freed (buf : WriteableAutobuf) (size : Nat) : Prop :=
  buf.ownsMemory = true ∧ buf.pointer = .region ∧ 2 ^ 32 - 4096 < size

section Alloc

variable {junk : Nat → UInt8} {found : Bool} {buf grown : WriteableAutobuf} {size : Nat}

theorem allocated_of_room (hroom : Room buf found size) (hcontent : grown.contentSize = buf.contentSize)
    (hbegin : grown.beginOffset = front buf) (hbounded : Bounded grown)
    (hfits : front buf + size ≤ grown.bufSize) : Allocated buf found size grown true :=
  ⟨hcontent, hbegin, fun _ => ⟨hbounded, hfits, rfl⟩, fun hnone => absurd hroom hnone⟩

theorem front_owned (howns : buf.ownsMemory = true) : front buf = 0 := if_pos howns

theorem room_owned_iff (howns : buf.ownsMemory = true) :
    Room buf found size ↔ size ≤ buf.bufSize ∨ found = true ∧ size ≤ 2 ^ 32 - 4096 := by
  simp only [Room, front_owned howns, howns, Nat.zero_add, true_and]

theorem honest_owned_iff (howns : buf.ownsMemory = true) (hsize : size < 2 ^ 32) :
    Honest buf found size ↔ ¬ (buf.pointer = .null ∧ found = true ∧ 2 ^ 32 - 4096 < size) := by
  simp only [Honest, front_owned howns, howns, Nat.zero_add, hsize, true_and]

/-- The pages are found. -/
theorem allocated_grown (howns : buf.ownsMemory = true) (hpages : size ≤ 2 ^ 32 - 4096)
    (hcontent : grown.contentSize = buf.contentSize) (hbegin : grown.beginOffset = 0)
    (hbounded : Bounded grown) (hfits : size ≤ grown.bufSize) :
    Allocated buf true size grown true ∧ (¬ Room buf true size → (Bounded grown ↔ ¬ Freed buf size)) := by
  have hfront := front_owned howns
  have hroom : Room buf true size := (room_owned_iff howns).mpr (.inr ⟨rfl, hpages⟩)
  refine ⟨allocated_of_room hroom hcontent (hbegin.trans hfront.symm) hbounded ?_, fun h => absurd hroom h⟩
  rw [hfront, Nat.zero_add]
  exact hfits

/-- Nothing is found, and what there was stays. -/
theorem allocated_kept (howns : buf.ownsMemory = true) (hsize : size < 2 ^ 32)
    (hfits : ¬ size ≤ buf.bufSize) (hcontent : grown.contentSize = buf.contentSize)
    (hbegin : grown.beginOffset = 0) (hbounded : Bounded grown)
    (hlen : grown.writeableBuf.length = buf.bufSize) (hfreed : ¬ Freed buf size) :
    Allocated buf false size grown false ∧
      (¬ Room buf false size → (Bounded grown ↔ ¬ Freed buf size)) := by
  have hfront := front_owned howns
  have hshort : ¬ Room buf false size := by
    rw [room_owned_iff howns]
    rintro (h | ⟨h, _⟩)
    · exact hfits h
    · cases h
  have hhonest : Honest buf false size := by
    rw [honest_owned_iff howns hsize]
    rintro ⟨_, h, _⟩
    cases h
  refine ⟨⟨hcontent, hbegin.trans hfront.symm, fun h => absurd h hshort, fun _ => ⟨by omega, ?_⟩⟩,
    fun _ => iff_of_true hbounded hfreed⟩
  exact iff_of_false Bool.false_ne_true (not_not_intro hhonest)

/-- The pages for so many bytes are none, and what there was is freed. -/
theorem allocated_freed (howns : buf.ownsMemory = true) (hsize : size < 2 ^ 32)
    (hpages : 2 ^ 32 - 4096 < size) (hfits : ¬ size ≤ buf.bufSize) (hregion : buf.pointer = .region)
    (hcontent : grown.contentSize = buf.contentSize) (hbegin : grown.beginOffset = 0)
    (hempty : grown.writeableBuf = []) (hpointer : grown.pointer = .freed) :
    Allocated buf found size grown false ∧
      (¬ Room buf found size → (Bounded grown ↔ ¬ Freed buf size)) := by
  have hfront := front_owned howns
  have hshort : ¬ Room buf found size := by
    rw [room_owned_iff howns]
    omega
  have hhonest : Honest buf found size := by
    rw [honest_owned_iff howns hsize]
    rintro ⟨h, _⟩
    rw [hregion] at h
    cases h
  refine ⟨⟨hcontent, hbegin.trans hfront.symm, fun h => absurd h hshort, fun _ => ⟨?_, ?_⟩⟩, fun _ => ?_⟩
  · rw [hempty, List.length_nil]
    omega
  · exact iff_of_false Bool.false_ne_true (not_not_intro hhonest)
  · exact iff_of_false (fun h => h.live hpointer) (not_not_intro ⟨howns, hregion, hpages⟩)

/-- The pages for so many bytes are none, and the pointer to them is taken for memory. -/
theorem allocated_nothing (howns : buf.ownsMemory = true) (hsize : size < 2 ^ 32)
    (hpages : 2 ^ 32 - 4096 < size) (hfits : ¬ size ≤ buf.bufSize) (hnull : buf.pointer = .null)
    (hcontent : grown.contentSize = buf.contentSize) (hbegin : grown.beginOffset = 0)
    (hempty : grown.writeableBuf = []) (hbounded : Bounded grown) :
    Allocated buf true size grown true ∧ (¬ Room buf true size → (Bounded grown ↔ ¬ Freed buf size)) := by
  have hfront := front_owned howns
  have hshort : ¬ Room buf true size := by
    rw [room_owned_iff howns]
    omega
  have hdishonest : ¬ Honest buf true size := by
    rw [honest_owned_iff howns hsize]
    exact not_not_intro ⟨hnull, rfl, hpages⟩
  have hfreed : ¬ Freed buf size := by
    rintro ⟨_, h, _⟩
    rw [hnull] at h
    cases h
  refine ⟨⟨hcontent, hbegin.trans hfront.symm, fun h => absurd h hshort, fun _ => ⟨?_, ?_⟩⟩, fun _ => ?_⟩
  · rw [hempty, List.length_nil]
    omega
  · exact iff_of_true rfl hdishonest
  · exact iff_of_true hbounded hfreed

theorem alloc_owned (h : Bounded buf) (howns : buf.ownsMemory = true) (hsize : size < 2 ^ 32) :
    ∃ grown status, buf.alloc junk found size = .ok (grown, status) ∧
      Allocated buf found size grown status ∧
        (¬ Room buf found size → (Bounded grown ↔ ¬ Freed buf size)) := by
  have hfront := front_owned howns
  have hwithin := h.within
  have hbufSize := h.bufSize_eq
  obtain ⟨memory, hlen, hrealign⟩ := realign_ok hwithin
  have hmoved : Bounded { buf with writeableBuf := memory, beginOffset := 0 } :=
    bounded_of_memory h hlen (by omega)
  rw [alloc, if_pos howns, hrealign, ok_bind]
  dsimp only
  rw [Nat.zero_add, Nat.mod_eq_of_lt hsize]
  by_cases hfits : size ≤ buf.bufSize
  · have hroom : Room buf found size := (room_owned_iff howns).mpr (.inl hfits)
    rw [if_pos hfits]
    refine ⟨_, _, rfl, allocated_of_room hroom rfl hfront.symm hmoved ?_, fun h => absurd hroom h⟩
    rw [hfront, Nat.zero_add]
    exact hfits
  have hkept := @allocated_kept buf { buf with writeableBuf := memory, beginOffset := 0 } size howns hsize
    hfits rfl rfl hmoved (hlen.trans hbufSize.symm)
  rw [if_neg hfits, if_neg h.live]
  rcases requiredSize_cases hsize with ⟨hpages, hle⟩ | ⟨hpages, hnone⟩
  · -- the pages can be asked for
    rw [if_neg (by omega)]
    cases found with
    | true =>
        have hgrown : (realloc junk memory (OwnedAutobuf.requiredSize size)).length =
            OwnedAutobuf.requiredSize size := length_realloc (by omega)
        have hwrap : OwnedAutobuf.requiredSize size < 2 ^ 32 := Nat.mod_lt _ (Nat.two_pow_pos 32)
        rw [if_pos rfl]
        refine ⟨_, _, rfl, allocated_grown howns hpages rfl rfl ?_ hle⟩
        refine ⟨?_, hgrown.symm, hwrap, nofun, nofun⟩
        dsimp only
        rw [hgrown]
        omega
    | false =>
        rw [if_neg Bool.false_ne_true]
        exact ⟨_, _, rfl, hkept fun hfreed => absurd hfreed.2.2 (Nat.not_lt.mpr hpages)⟩
  · by_cases hregion : buf.pointer = .region
    · rw [if_pos ⟨hregion, hnone⟩]
      exact ⟨_, _, rfl, allocated_freed howns hsize hpages hfits hregion rfl rfl rfl rfl⟩
    · have hnull : buf.pointer = .null := by
        have hlive := h.live
        cases hpointer : buf.pointer with
        | null => rfl
        | region => exact absurd hpointer hregion
        | freed => exact absurd hpointer hlive
      rw [if_neg fun hboth => hregion hboth.1]
      cases found with
      | true =>
          have hnil := h.null hnull
          rw [hnil] at hlen hwithin
          obtain rfl := List.length_eq_zero_iff.mp hlen
          rw [if_pos rfl, hnone]
          refine ⟨_, _, rfl, allocated_nothing howns hsize hpages hfits hnull rfl rfl rfl ?_⟩
          refine ⟨?_, rfl, by dsimp only; omega, nofun, nofun⟩
          dsimp only
          rw [List.length_nil] at hwithin
          omega
      | false =>
          rw [if_neg Bool.false_ne_true]
          exact ⟨_, _, rfl, hkept fun hfreed => hregion hfreed.2.1⟩

/-- Memory that is shared is as large as it is. -/
theorem alloc_shared (h : Bounded buf) (howns : buf.ownsMemory = false) (hsize : size < 2 ^ 32) :
    ∃ grown status, buf.alloc junk found size = .ok (grown, status) ∧
      Allocated buf found size grown status ∧
        (¬ Room buf found size → (Bounded grown ↔ ¬ Freed buf size)) := by
  have hnot : ¬ buf.ownsMemory = true := by
    rw [howns]
    exact Bool.false_ne_true
  have hfront : front buf = buf.beginOffset := if_neg hnot
  have hwithin := h.within
  have hbufSize := h.bufSize_eq
  have hlt := h.bufSize_lt
  have hroom : Room buf found size ↔ buf.beginOffset + size ≤ buf.bufSize := by
    simp only [Room, hfront, howns, Bool.false_eq_true, false_and, or_false]
  have hhonest : Honest buf found size ↔ buf.beginOffset + size < 2 ^ 32 := by
    simp only [Honest, hfront, howns, Bool.false_eq_true, false_and, not_false_eq_true, and_true]
  rw [alloc, if_neg hnot]
  refine ⟨_, _, rfl, ⟨rfl, hfront.symm, ?_, ?_⟩, ?_⟩
  · intro hfits
    rw [hroom] at hfits
    refine ⟨h, ?_, ?_⟩
    · rw [hfront]
      exact hfits
    · rw [Nat.mod_eq_of_lt (by omega)]
      exact decide_eq_true hfits
  · intro hover
    rw [hroom] at hover
    rw [hfront, hhonest, decide_eq_true_eq]
    refine ⟨by omega, ?_⟩
    by_cases hwrap : buf.beginOffset + size < 2 ^ 32
    · rw [Nat.mod_eq_of_lt hwrap]
      exact ⟨fun h => absurd h hover, fun h => absurd hwrap h⟩
    · rw [Nat.mod_eq_sub_mod (Nat.not_lt.mp hwrap), Nat.mod_eq_of_lt (by omega)]
      exact ⟨fun _ => hwrap, fun _ => by omega⟩
  · exact fun _ => ⟨fun _ hfreed => hnot hfreed.1, fun _ => h⟩

theorem alloc_spec (junk : Nat → UInt8) (found : Bool) (h : Bounded buf) (hsize : size < 2 ^ 32) :
    ∃ grown status, buf.alloc junk found size = .ok (grown, status) ∧
      Allocated buf found size grown status ∧
        (¬ Room buf found size → (Bounded grown ↔ ¬ Freed buf size)) := by
  cases howns : buf.ownsMemory with
  | true => exact alloc_owned h howns hsize
  | false => exact alloc_shared h howns hsize

/-- **A sum of sizes** that wraps around always seems to fit. -/
theorem alloc_sum (junk : Nat → UInt8) (found : Bool) (h : Bounded buf)
    (hsize : size < buf.contentSize + 2 ^ 32) :
    ∃ grown status, buf.alloc junk found (size % 2 ^ 32) = .ok (grown, status) ∧
      Allocated buf found size grown status := by
  by_cases hlt : size < 2 ^ 32
  · rw [Nat.mod_eq_of_lt hlt]
    obtain ⟨grown, status, halloc, hgrown, _⟩ := alloc_spec junk found h hlt
    exact ⟨grown, status, halloc, hgrown⟩
  · have hwithin := h.within
    have hbufSize := h.bufSize_eq
    have hbufLt := h.bufSize_lt
    have hwrap : size % 2 ^ 32 = size - 2 ^ 32 := by
      omega
    have hfront : front buf + (size - 2 ^ 32) ≤ buf.bufSize := by
      unfold front
      split
      · omega
      · omega
    obtain ⟨grown, status, halloc, hgrown, _⟩ :=
      alloc_spec junk found h (Nat.mod_lt size (Nat.two_pow_pos 32))
    rw [hwrap] at halloc hgrown ⊢
    obtain ⟨hbounded, _, hstatus⟩ := hgrown.room (.inl hfront)
    have hgrownLt := hbounded.bufSize_lt
    have hgrownSize := hbounded.bufSize_eq
    refine ⟨grown, status, halloc, hgrown.contentSize_eq, hgrown.beginOffset_eq, ?_, fun _ => ⟨?_, ?_⟩⟩
    · rintro (hfits | ⟨_, _, hpages⟩)
      · omega
      · omega
    · omega
    · exact ⟨fun _ hhonest => absurd hhonest.1 (by omega), fun _ => hstatus⟩

theorem honest_of_room (h : Bounded buf) (hroom : Room buf found size) : Honest buf found size := by
  have hlt := h.bufSize_lt
  refine ⟨?_, ?_⟩
  · rcases hroom with hfits | ⟨howns, _, hpages⟩
    · omega
    · rw [front, if_pos howns]
      omega
  · rintro ⟨howns, hnull, _, hpages⟩
    have hbufSize := h.bufSize_eq
    rw [h.null hnull, List.length_nil] at hbufSize
    rcases hroom with hfits | ⟨_, _, hle⟩
    · omega
    · omega

/-! ## Methods that ask for memory -/

/-- **A method that looks at what `alloc` says** keeps to the region if `alloc` is honest. -/
theorem contained_alloc_iff {k : WriteableAutobuf → Read WriteableAutobuf} (h : Bounded buf)
    (hsize : size < buf.contentSize + 2 ^ 32)
    (hok : ∀ grown, Bounded grown → grown.contentSize = buf.contentSize → grown.beginOffset = front buf →
      front buf + size ≤ grown.bufSize → Contained (k grown))
    (hfault : ∀ grown, grown.contentSize = buf.contentSize → grown.beginOffset = front buf →
      grown.writeableBuf.length < front buf + size → k grown = .error .outOfBounds) :
    Contained ((buf.alloc junk found (size % 2 ^ 32)).bind fun (grown, status) =>
      if status then k grown else .error .aborted) ↔ Honest buf found size := by
  obtain ⟨grown, status, halloc, hgrown⟩ := alloc_sum junk found h hsize
  rw [halloc]
  dsimp only [Except.bind]
  by_cases hroom : Room buf found size
  · obtain ⟨hbounded, hfits, hstatus⟩ := hgrown.room hroom
    rw [if_pos hstatus]
    exact ⟨fun _ => honest_of_room h hroom,
      fun _ => hok grown hbounded hgrown.contentSize_eq hgrown.beginOffset_eq hfits⟩
  · obtain ⟨hlt, hstatus⟩ := hgrown.short hroom
    cases status with
    | true =>
        rw [if_pos rfl, hfault grown hgrown.contentSize_eq hgrown.beginOffset_eq hlt]
        exact ⟨nofun, fun hhonest => absurd hhonest (hstatus.mp rfl)⟩
    | false =>
        rw [if_neg Bool.false_ne_true]
        refine ⟨fun _ => ?_, fun _ => rfl⟩
        by_contra hnot
        exact Bool.false_ne_true (hstatus.mpr hnot)

/-- Bytes that are written into a buffer with room for them, and other content in it. -/
theorem store_bounded {bytes : Bytes} {off : Nat} (h : Bounded grown)
    (hfits : grown.beginOffset + off + bytes.length ≤ grown.bufSize) :
    ∃ memory, grown.store off bytes = .ok { grown with writeableBuf := memory } ∧
      ∀ b c, b + c ≤ grown.bufSize →
        Bounded { grown with writeableBuf := memory, beginOffset := b, contentSize := c } := by
  obtain ⟨memory, hlen, hstore⟩ := @store_ok grown off bytes (by rw [← h.bufSize_eq]; exact hfits)
  exact ⟨memory, hstore, fun _ _ => bounded_of_memory h hlen⟩

theorem contained_setContent_iff (h : Bounded buf) {srcBuf : Bytes} (hlt : srcBuf.length < 2 ^ 32) :
    Contained (buf.setContent junk found srcBuf) ↔ Honest buf found srcBuf.length := by
  have hiff := @contained_alloc_iff junk found buf srcBuf.length
    (fun buf => (buf.store 0 srcBuf).map fun buf =>
      { buf with beginOffset := 0, contentSize := srcBuf.length }) h (by omega) ?_ ?_
  · rw [Nat.mod_eq_of_lt hlt] at hiff
    exact hiff
  · intro grown hgrown _ hbegin hfits
    obtain ⟨memory, hstore, hbounded⟩ := @store_bounded grown srcBuf 0 hgrown (by omega)
    rw [hstore]
    exact hbounded 0 srcBuf.length (by omega)
  · intro grown _ hbegin hover
    rw [store_outside (by omega)]
    rfl

theorem contentSize_lt (h : Bounded buf) : buf.contentSize < 2 ^ 32 := by
  have hwithin := h.within
  have hbufSize := h.bufSize_eq
  have hlt := h.bufSize_lt
  omega

theorem contained_plusSelf_iff (h : Bounded buf) :
    Contained (buf.plusSelf junk found) ↔
      buf.contentSize = 0 ∨ Honest buf found (buf.contentSize * 2) := by
  have hlt := contentSize_lt h
  rw [plusSelf]
  split
  · rename_i hpos
    have hsome : ¬ buf.contentSize = 0 := Nat.ne_of_gt hpos
    rw [or_iff_right hsome]
    refine @contained_alloc_iff junk found buf (buf.contentSize * 2)
      (fun buf => (buf.toOwnedAutobuf.load 0 buf.contentSize).bind fun bytes =>
        (buf.store buf.contentSize bytes).map fun buf' =>
          { buf' with contentSize := buf'.contentSize * 2 % 2 ^ 32 }) h (by omega) ?_ ?_
    · intro grown hgrown hcontent hbegin hfits
      have hgrownSize := hgrown.bufSize_eq
      have hgrownLt := hgrown.bufSize_lt
      obtain ⟨bytes, hlen, hload⟩ := @load_ok grown 0 grown.contentSize (by omega)
      obtain ⟨memory, hstore, hbounded⟩ := @store_bounded grown bytes grown.contentSize hgrown (by omega)
      rw [hload]
      dsimp only [Except.bind]
      rw [hstore]
      exact hbounded _ _ (by dsimp only; omega)
    · intro grown hcontent hbegin hover
      by_cases hread : grown.beginOffset + 0 + grown.contentSize ≤ grown.writeableBuf.length
      · obtain ⟨bytes, hlen, hload⟩ := load_ok hread
        rw [hload]
        dsimp only [Except.bind]
        rw [store_outside (by omega)]
        rfl
      · rw [load_outside (Nat.not_le.mp hread)]
        rfl
  · rename_i hzero
    exact ⟨fun _ => .inl (by omega), fun _ => h⟩

theorem contained_plusOther_iff (h : Bounded buf) {other : Bytes} (hlt : other.length < 2 ^ 32) :
    Contained (buf.plusOther junk found other) ↔
      other.length = 0 ∨ Honest buf found (buf.contentSize + other.length) := by
  rw [plusOther]
  split
  · rename_i hnone
    exact ⟨fun _ => .inl hnone, fun _ => h⟩
  · rename_i hsome
    rw [or_iff_right hsome]
    split
    · rename_i hempty
      rw [hempty, Nat.zero_add]
      exact contained_setContent_iff h hlt
    · refine @contained_alloc_iff junk found buf (buf.contentSize + other.length)
        (fun grown => (grown.store grown.contentSize other).map fun grown =>
          { grown with contentSize := (buf.contentSize + other.length) % 2 ^ 32 }) h (by omega) ?_ ?_
      · intro grown hgrown hcontent hbegin hfits
        have hgrownLt := hgrown.bufSize_lt
        obtain ⟨memory, hstore, hbounded⟩ :=
          @store_bounded grown other grown.contentSize hgrown (by omega)
        rw [hstore]
        exact hbounded _ _ (by dsimp only; omega)
      · intro grown hcontent hbegin hover
        rw [store_outside (by omega)]
        rfl

/-- **A method that does not look** keeps to the region if there is room. -/
theorem contained_append_iff (h : Bounded buf) {bytes : Bytes} (hlt : bytes.length < 2 ^ 32) :
    Contained (buf.append junk found bytes) ↔
      bytes.length = 0 ∨ Room buf found (buf.contentSize + bytes.length) := by
  rw [append]
  split
  · rename_i hnone
    exact ⟨fun _ => .inl hnone, fun _ => h⟩
  · rename_i hsome
    rw [or_iff_right hsome]
    obtain ⟨grown, status, halloc, hgrown⟩ :=
      @alloc_sum buf (buf.contentSize + bytes.length) junk found h (by omega)
    have hcontent := hgrown.contentSize_eq
    have hbegin := hgrown.beginOffset_eq
    rw [halloc, ok_bind]
    dsimp only
    by_cases hroom : Room buf found (buf.contentSize + bytes.length)
    · obtain ⟨hbounded, hfits, _⟩ := hgrown.room hroom
      have hgrownLt := hbounded.bufSize_lt
      obtain ⟨memory, hstore, hbounded'⟩ :=
        @store_bounded grown bytes grown.contentSize hbounded (by omega)
      rw [hstore, ok_bind]
      exact ⟨fun _ => hroom, fun _ => hbounded' _ _ (by dsimp only; omega)⟩
    · obtain ⟨hover, _⟩ := hgrown.short hroom
      rw [store_outside (by omega)]
      exact ⟨nofun, fun h => absurd h hroom⟩

/-- An offset that is not taken is refused. -/
theorem ptrOffsetMutable_refused {size offset : Nat} (hsize : size < 2 ^ 32) (hoffset : offset < 2 ^ 32)
    (h : ¬ (offset < size ∧ size < 2 ^ 31)) : ptrOffsetMutable size offset = .error .aborted := by
  have hnot := mt (ptrOffsetMutable_ok_iff hsize hoffset).mp h
  rw [ptrOffsetMutable] at hnot ⊢
  split
  · rfl
  · rename_i hin
    rw [if_neg hin] at hnot
    exact absurd rfl hnot

/-- Room is made, but the offset behind it may still be refused. -/
theorem contained_prepend_iff (h : Bounded buf) {bytes : Bytes} (hlt : bytes.length < 2 ^ 32) :
    Contained (buf.prepend junk found bytes) ↔
      bytes.length = 0 ∨ bytes.length ≤ buf.beginOffset ∨
        Honest buf found (buf.contentSize + bytes.length) ∨
          ¬ (bytes.length < buf.contentSize ∧ buf.contentSize < 2 ^ 31) := by
  have hwithin := h.within
  have hbufSize := h.bufSize_eq
  have hbufLt := h.bufSize_lt
  rw [prepend]
  split
  · rename_i hnone
    exact ⟨fun _ => .inl hnone, fun _ => h⟩
  rename_i hsome
  rw [or_iff_right hsome]
  split
  · rename_i hfront
    have hmoved : Bounded { buf with beginOffset := buf.beginOffset - bytes.length } :=
      bounded_of_memory h rfl (by omega)
    obtain ⟨memory, hstore, hbounded⟩ := @store_bounded _ bytes 0 hmoved (by dsimp only; omega)
    rw [hstore, ok_bind]
    refine ⟨fun _ => .inl hfront, fun _ => ?_⟩
    exact hbounded _ _ (by dsimp only; omega)
  rename_i hbehind
  rw [or_iff_right hbehind]
  by_cases hoffset : bytes.length < buf.contentSize ∧ buf.contentSize < 2 ^ 31
  · rw [or_iff_left (not_not_intro hoffset)]
    have hptr : ptrOffsetMutable buf.contentSize bytes.length = .ok () :=
      (ptrOffsetMutable_ok_iff (contentSize_lt h) hlt).mpr hoffset
    refine @contained_alloc_iff junk found buf (buf.contentSize + bytes.length)
      (fun grown => do
        ptrOffsetMutable grown.contentSize bytes.length
        let old ← grown.toOwnedAutobuf.load 0 grown.contentSize
        let grown ← grown.store bytes.length old
        let grown ← grown.store 0 bytes
        return { grown with contentSize := (grown.contentSize + bytes.length) % 2 ^ 32 }) h (by omega) ?_ ?_
    · intro grown hgrown hcontent hbegin hfits
      have hgrownSize := hgrown.bufSize_eq
      have hgrownLt := hgrown.bufSize_lt
      rw [hcontent, hptr, ok_bind]
      obtain ⟨old, hold, hload⟩ := @load_ok grown 0 buf.contentSize (by omega)
      obtain ⟨memory, hstore, hbounded⟩ := @store_bounded grown old bytes.length hgrown (by omega)
      have hmoved := hbounded grown.beginOffset grown.contentSize (by omega)
      obtain ⟨memory', hstore', hbounded'⟩ := @store_bounded _ bytes 0 hmoved (by dsimp only; omega)
      rw [hload, ok_bind, hstore, ok_bind, hstore']
      exact hbounded' _ _ (by dsimp only; omega)
    · intro grown hcontent hbegin hover
      rw [hcontent, hptr, ok_bind]
      by_cases hread : grown.beginOffset + 0 + buf.contentSize ≤ grown.writeableBuf.length
      · obtain ⟨old, hold, hload⟩ := load_ok hread
        rw [hload, ok_bind, store_outside (by omega)]
        rfl
      · rw [load_outside (Nat.not_le.mp hread)]
        rfl
  · refine ⟨fun _ => .inr hoffset, fun _ => ?_⟩
    obtain ⟨grown, status, halloc, hgrown⟩ :=
      @alloc_sum buf (buf.contentSize + bytes.length) junk found h (by omega)
    rw [halloc, ok_bind]
    cases status with
    | true =>
        have hptr := ptrOffsetMutable_refused (contentSize_lt h) hlt hoffset
        dsimp only
        rw [if_pos rfl, hgrown.contentSize_eq, hptr]
        rfl
    | false => rfl

theorem contained_reserve_iff (h : Bounded buf) (hsize : size < 2 ^ 32) :
    Contained (buf.reserve junk found size) ↔
      ¬ (buf.ownsMemory = true ∧ buf.pointer = .region ∧ buf.bufSize < size ∧ 2 ^ 32 - 4096 < size) := by
  obtain ⟨grown, status, halloc, hgrown, hfreed⟩ := alloc_spec junk found h hsize
  rw [reserve, halloc, ok_bind]
  by_cases hroom : Room buf found size
  · refine ⟨fun _ => ?_, fun _ => (hgrown.room hroom).1⟩
    rintro ⟨howns, _, hover, hpages⟩
    rcases hroom with hfits | ⟨_, _, hle⟩
    · omega
    · omega
  · refine (hfreed hroom).trans (not_congr ?_)
    refine ⟨fun ⟨howns, hregion, hpages⟩ => ⟨howns, hregion, ?_, hpages⟩,
      fun ⟨howns, hregion, _, hpages⟩ => ⟨howns, hregion, hpages⟩⟩
    by_contra hfits
    refine hroom (.inl ?_)
    rw [front, if_pos howns]
    omega

/-- The size of the content is what was asked for, with or without room. -/
theorem createEmptyBuffer_cases (junk : Nat → UInt8) (found : Bool) (h : Bounded buf)
    (hsize : size < 2 ^ 32) :
    ∃ created, buf.createEmptyBuffer junk found size false = .ok created ∧ created.contentSize = size ∧
      (Room buf found size → Bounded created) ∧
        (¬ Room buf found size → created.writeableBuf.length < created.beginOffset + size) := by
  obtain ⟨grown, status, halloc, hgrown, _⟩ := alloc_spec junk found h hsize
  have hbegin := hgrown.beginOffset_eq
  refine ⟨{ grown with contentSize := size }, ?_, rfl, ?_, ?_⟩
  · rw [createEmptyBuffer, halloc]
    rfl
  · intro hroom
    obtain ⟨hbounded, hfits, _⟩ := hgrown.room hroom
    exact bounded_of_memory hbounded rfl (by omega)
  · intro hnone
    have hover := (hgrown.short hnone).1
    dsimp only
    omega

theorem createEmptyBuffer_zero (junk : Nat → UInt8) (found : Bool) {created : WriteableAutobuf}
    (hcreate : buf.createEmptyBuffer junk found size false = .ok created) :
    buf.createEmptyBuffer junk found size true = created.store 0 (List.replicate size 0) := by
  rw [createEmptyBuffer] at hcreate ⊢
  obtain ⟨⟨grown, status⟩, halloc, hcreated⟩ := bind_eq_ok.mp hcreate
  cases hcreated
  rw [halloc, ok_bind]
  rfl

theorem contained_createEmptyBuffer_iff (h : Bounded buf) (hsize : size < 2 ^ 32) (zero : Bool) :
    Contained (buf.createEmptyBuffer junk found size zero) ↔ Room buf found size := by
  obtain ⟨created, hcreate, hcontent, hroomy, hshort⟩ := createEmptyBuffer_cases junk found h hsize
  by_cases hroom : Room buf found size
  · have hbounded := hroomy hroom
    have hwithin := hbounded.within
    refine ⟨fun _ => hroom, fun _ => ?_⟩
    cases zero with
    | false =>
        rw [hcreate]
        exact hbounded
    | true =>
        have hsizes := hbounded.bufSize_eq
        obtain ⟨memory, hstore, hstored⟩ := @store_bounded created (List.replicate size 0) 0 hbounded
          (by rw [List.length_replicate]; omega)
        rw [createEmptyBuffer_zero junk found hcreate, hstore]
        exact hstored _ _ (by omega)
  · have hover := hshort hroom
    refine ⟨fun hcontained => ?_, fun h => absurd h hroom⟩
    cases zero with
    | false =>
        rw [hcreate] at hcontained
        have hwithin := Bounded.within hcontained
        omega
    | true =>
        rw [createEmptyBuffer_zero junk found hcreate,
          store_outside (by rw [List.length_replicate]; omega)] at hcontained
        cases hcontained

theorem contained_growBuffer_iff (h : Bounded buf) (hsize : size < 2 ^ 32) (zero : Bool) :
    Contained (buf.growBuffer junk found size zero) ↔
      Room buf found size ∨ zero = true ∧ buf.contentSize < size ∧ 2 ^ 31 ≤ size := by
  obtain ⟨created, hcreate, hcontent, hroomy, hshort⟩ := createEmptyBuffer_cases junk found h hsize
  rw [growBuffer, hcreate, ok_bind]
  split
  · rename_i hzero
    have hzero : zero = true ∧ buf.contentSize < size := by simpa using hzero
    rw [hcontent]
    by_cases hsmall : size < 2 ^ 31
    · have hptr := (ptrOffsetMutable_ok_iff hsize (by omega)).mpr ⟨hzero.2, hsmall⟩
      rw [hptr, ok_bind]
      refine ⟨fun hcontained => .inl ?_, fun hroom => ?_⟩
      · by_contra hnone
        have hover := hshort hnone
        rw [store_outside (by rw [List.length_replicate]; omega)] at hcontained
        cases hcontained
      · have hbounded := hroomy (hroom.resolve_right fun h => absurd h.2.2 (Nat.not_le.mpr hsmall))
        have hwithin := hbounded.within
        have hsizes := hbounded.bufSize_eq
        obtain ⟨memory, hstore, hstored⟩ := @store_bounded created
          (List.replicate (size - buf.contentSize) 0) buf.contentSize hbounded
            (by rw [List.length_replicate]; omega)
        rw [hstore]
        exact hstored _ _ (by omega)
    · have hptr := ptrOffsetMutable_refused hsize (contentSize_lt h) fun hin => hsmall hin.2
      rw [hptr]
      exact ⟨fun _ => .inr ⟨hzero.1, hzero.2, Nat.not_lt.mp hsmall⟩, fun _ => rfl⟩
  · rename_i hkept
    have hkept : ¬ (zero = true ∧ buf.contentSize < size) := by simpa using hkept
    refine ⟨fun hcontained => .inl ?_, fun hroom => ?_⟩
    · by_contra hnone
      have hover := hshort hnone
      have hwithin := Bounded.within hcontained
      omega
    · exact hroomy (hroom.resolve_right fun h => hkept ⟨h.1, h.2.1⟩)

end Alloc

/-! ## New buffers -/

section Fresh

variable {junk : Nat → UInt8} {found : Bool} {buf : WriteableAutobuf}

theorem bounded_fresh : Bounded {} := ⟨Nat.le_refl _, rfl, by decide, nofun, fun _ => rfl⟩

theorem reset_ok (h : Bounded buf) : buf.reset = .ok {} := if_neg fun hfreed => h.live hfreed.2

theorem contained_inheritShared_iff (h : Bounded buf) (src : SharedRegion) :
    Contained (buf.inheritShared src) ↔ src.maxSize = 0 ∨ src.size ≤ src.maxSize := by
  have hsize := UInt32.toNat_lt src.size
  have hmax := UInt32.toNat_lt src.maxSize
  have hlen := src.length_eq
  rw [WriteableAutobuf.inheritShared, reset_ok h, ok_bind, UInt32.le_iff_toNat_le]
  refine ⟨fun hcontained => ?_, fun hfits => ⟨?_, hlen.symm, ?_, nofun, nofun⟩⟩
  · have hwithin := Bounded.within hcontained
    dsimp only at hwithin
    rw [hlen, Nat.zero_add] at hwithin
    split at hwithin
    · exact .inl (by assumption)
    · exact .inr hwithin
  · dsimp only
    rw [hlen, Nat.zero_add]
    split
    · exact Nat.le_refl _
    · exact hfits.resolve_left (by assumption)
  · dsimp only
    split
    · exact hsize
    · exact hmax

theorem alloc_fresh_none {size : Nat} (hsize : size < 2 ^ 32) (hsome : size ≠ 0) :
    ({} : WriteableAutobuf).alloc junk false size = .ok ({}, false) := by
  have hover : ¬ (0 + size) % 2 ^ 32 ≤ 0 := by omega
  rw [alloc, if_pos rfl, realign, if_neg (Nat.lt_irrefl 0), pure_eq_ok, ok_bind, if_neg hover, if_neg nofun,
    if_neg nofun, if_neg Bool.false_ne_true]
  rfl

/-- A buffer that is new gets the pages for so many bytes, even if they are none. -/
theorem alloc_fresh {size : Nat} (hsize : size < 2 ^ 32) (hfound : size = 0 ∨ found = true) :
    ∃ grown, ({} : WriteableAutobuf).alloc junk found size = .ok (grown, true) ∧ grown.beginOffset = 0 ∧
      grown.pointer ≠ .freed ∧ (grown.pointer = .null → grown.writeableBuf = []) ∧
        grown.bufSize = grown.writeableBuf.length ∧ grown.bufSize = OwnedAutobuf.requiredSize size := by
  rw [alloc, if_pos rfl, realign, if_neg (Nat.lt_irrefl 0), pure_eq_ok, ok_bind]
  by_cases hzero : size = 0
  · rw [hzero]
    exact ⟨{}, rfl, rfl, nofun, fun _ => rfl, rfl, rfl⟩
  · have hover : ¬ (0 + size) % 2 ^ 32 ≤ 0 := by omega
    rw [if_neg hover, if_neg nofun, if_neg nofun, if_pos (hfound.resolve_left hzero)]
    exact ⟨_, rfl, rfl, nofun, nofun, (length_realloc (Nat.zero_le _)).symm, rfl⟩

/-- A file of which less than its size is read leaves nothing. -/
theorem contained_load_iff (h : Bounded buf) (file : Option Bytes) (got : Nat) :
    Contained (buf.load junk found file got) ↔
      ∀ bytes ∈ file, found = false ∧ bytes.length % 2 ^ 32 ≠ 0 ∨
        min got bytes.length ≤ OwnedAutobuf.requiredSize (bytes.length % 2 ^ 32) := by
  rw [load, reset_ok h, ok_bind]
  cases file with
  | none => exact ⟨fun _ _ => nofun, fun _ => bounded_fresh⟩
  | some bytes =>
      simp only [Option.mem_def, Option.some.injEq, forall_eq']
      split
      · rename_i hempty
        rw [hempty]
        exact ⟨fun _ => .inr (Nat.min_le_right _ _), fun _ => bounded_fresh⟩
      have hlt : bytes.length % 2 ^ 32 < 2 ^ 32 := Nat.mod_lt _ (Nat.two_pow_pos 32)
      have hpages : OwnedAutobuf.requiredSize (bytes.length % 2 ^ 32) < 2 ^ 32 :=
        Nat.mod_lt _ (Nat.two_pow_pos 32)
      by_cases habort : found = false ∧ bytes.length % 2 ^ 32 ≠ 0
      · rw [habort.1, alloc_fresh_none hlt habort.2]
        exact ⟨fun _ => .inl ⟨rfl, habort.2⟩, fun _ => rfl⟩
      · have hfound : bytes.length % 2 ^ 32 = 0 ∨ found = true := by
          by_contra hnone
          rw [not_or, Bool.not_eq_true] at hnone
          exact habort ⟨hnone.2, hnone.1⟩
        obtain ⟨grown, halloc, hbegin, hlive, hnull, hsize, hbufSize⟩ := @alloc_fresh junk found _ hlt hfound
        have hread : (bytes.take got).length = min got bytes.length := List.length_take
        rw [or_iff_right habort, halloc, ok_bind]
        dsimp only
        rw [if_pos rfl]
        by_cases hfits : min got bytes.length ≤ OwnedAutobuf.requiredSize (bytes.length % 2 ^ 32)
        · obtain ⟨memory, hmemory, hstore⟩ := @store_ok grown 0 (bytes.take got) (by omega)
          rw [hstore, ok_bind]
          refine ⟨fun _ => hfits, fun _ => ?_⟩
          split
          · rw [reset, if_neg fun hfreed => hlive hfreed.2]
            exact bounded_fresh
          · refine ⟨?_, hsize.trans hmemory.symm, ?_, hlive, ?_⟩
            · dsimp only
              omega
            · dsimp only
              omega
            · intro hpointer
              dsimp only at hpointer ⊢
              rw [hnull hpointer] at hmemory
              exact List.length_eq_zero_iff.mp hmemory
        · rw [store_outside (by omega)]
          exact ⟨nofun, fun h => absurd h hfits⟩

theorem contained_assign_iff (h : Bounded buf) (original : BoundedAutobuf) :
    Contained (buf.assign junk found original.toWriteableAutobuf) ↔
      original.ownsMemory = false ∨ original.contentSize = 0 ∨
        found = true ∧ original.contentSize ≤ 2 ^ 32 - 4096 := by
  have horiginal := original.bounded
  rw [assign, reset_ok h, ok_bind]
  split
  · rename_i howns
    have hnot : ¬ original.ownsMemory = false := by
      rw [howns]
      exact Bool.false_ne_true.symm
    obtain ⟨grown, status, halloc, hgrown, _⟩ :=
      alloc_spec junk found bounded_fresh (contentSize_lt horiginal)
    have hbegin := hgrown.beginOffset_eq
    have hfront : front {} = 0 := rfl
    have hroom : Room {} found original.contentSize ↔
        original.contentSize = 0 ∨ found = true ∧ original.contentSize ≤ 2 ^ 32 - 4096 := by
      rw [Room, hfront, Nat.zero_add]
      exact or_congr Nat.le_zero (and_iff_right rfl)
    have hwithin := horiginal.within
    obtain ⟨bytes, hlen, hload⟩ := @load_ok original.toWriteableAutobuf 0 original.contentSize (by omega)
    rw [or_iff_right hnot, ← hroom, halloc, ok_bind]
    dsimp only
    rw [hload, ok_bind]
    by_cases hfits : Room {} found original.contentSize
    · obtain ⟨hbounded, hle, _⟩ := hgrown.room hfits
      have hsize := hbounded.bufSize_eq
      rw [overwrite_zero (by omega), ok_bind]
      refine ⟨fun _ => hfits, fun _ => ?_⟩
      refine bounded_of_memory hbounded ?_ (by omega)
      rw [List.length_append, List.length_drop]
      omega
    · obtain ⟨hover, _⟩ := hgrown.short hfits
      rw [overwrite, if_neg (by omega)]
      refine ⟨fun hcontained => ?_, fun h => absurd h hfits⟩
      cases hcontained
  · rename_i hshared
    exact ⟨fun _ => .inl ((Bool.not_eq_true _).mp hshared), fun _ => horiginal⟩

/-- The region of a copy begins with the content, but its size is that of the whole. -/
theorem bounded_copyAsShared_iff (original : BoundedAutobuf) :
    Bounded original.toWriteableAutobuf.copyAsShared ↔ original.beginOffset = 0 := by
  have h := original.bounded
  have hwithin := h.within
  have hsize := h.bufSize_eq
  refine ⟨fun hcopy => ?_, fun hzero => ⟨?_, ?_, h.bufSize_lt, h.live, ?_⟩⟩
  · have hcopySize := hcopy.bufSize_eq
    rw [copyAsShared] at hcopySize
    dsimp only at hcopySize
    rw [List.length_drop] at hcopySize
    omega
  · rw [copyAsShared]
    dsimp only
    rw [List.length_drop]
    omega
  · rw [copyAsShared]
    dsimp only
    rw [List.length_drop]
    omega
  · intro hnull
    rw [copyAsShared]
    dsimp only
    rw [h.null hnull, List.drop_nil]

end Fresh

/-! ## Methods that ask for none -/

section Within

variable {buf : WriteableAutobuf}

theorem ok_ne {α : Type} (x : α) : (.ok x : Read α) ≠ .error .outOfBounds := by
  intro h
  cases h

theorem aborted_ne {α : Type} : (.error .aborted : Read α) ≠ .error .outOfBounds := by
  intro h
  cases h

theorem contained_read (h : Bounded buf) {r : Read Bytes} :
    Contained (r.map fun _ => buf) ↔ r ≠ .error .outOfBounds := by
  cases r with
  | ok bytes => exact ⟨fun _ => ok_ne bytes, fun _ => h⟩
  | error e =>
      cases e with
      | outOfBounds => exact ⟨nofun, fun hne => absurd rfl hne⟩
      | aborted => exact ⟨fun _ => aborted_ne, fun _ => rfl⟩

/-- An offset is refused or not. -/
theorem ptrOffsetConst_cases {offset : Nat} (hoffset : offset < 2 ^ 32) :
    offset < 2 ^ 31 ∧ OwnedAutobuf.ptrOffsetConst offset = .ok () ∨
      2 ^ 31 ≤ offset ∧ OwnedAutobuf.ptrOffsetConst offset = .error .aborted := by
  by_cases hsmall : offset < 2 ^ 31
  · exact .inl ⟨hsmall, (ptrOffsetConst_ok_iff hoffset).mpr hsmall⟩
  · have hneg := asInt_neg (Nat.not_lt.mp hsmall) hoffset
    exact .inr ⟨Nat.not_lt.mp hsmall, if_pos hneg⟩

theorem load_ne {off len : Nat} (h : buf.beginOffset + off + len ≤ buf.writeableBuf.length) :
    buf.toOwnedAutobuf.load off len ≠ .error .outOfBounds := by
  obtain ⟨bytes, _, hload⟩ := load_ok h
  rw [hload]
  exact ok_ne bytes

/-- An offset is computed, and what is read lies within the region. -/
theorem offset_load_ne {offset off len : Nat} (hoffset : offset < 2 ^ 32)
    (h : buf.beginOffset + off + len ≤ buf.writeableBuf.length) :
    (do OwnedAutobuf.ptrOffsetConst offset
        buf.toOwnedAutobuf.load off len) ≠ .error .outOfBounds := by
  rcases ptrOffsetConst_cases hoffset with ⟨_, hptr⟩ | ⟨_, hptr⟩
  · rw [hptr, ok_bind]
    exact load_ne h
  · rw [hptr]
    exact aborted_ne

/-- **A part of the content** that is read. Its end may wrap around, which is refused only if it is so
large. -/
theorem read_ne_iff (h : Bounded buf) {offset len : Nat} (hoffset : offset < 2 ^ 32) (hlen : len < 2 ^ 32) :
    buf.toOwnedAutobuf.read offset len ≠ .error .outOfBounds ↔ Refusable buf offset len := by
  have hwithin := h.within
  have hbufSize := h.bufSize_eq
  have hbufLt := h.bufSize_lt
  rw [OwnedAutobuf.read, Refusable]
  by_cases hwrap : offset + len < 2 ^ 32
  · refine ⟨fun _ => .inl hwrap, fun _ => ?_⟩
    rw [Nat.mod_eq_of_lt hwrap]
    split
    · exact aborted_ne
    · exact offset_load_ne hoffset (by omega)
  · rw [or_iff_right hwrap]
    have hmod : (offset + len) % 2 ^ 32 = offset + len - 2 ^ 32 := by
      omega
    rw [hmod]
    split
    · exact ⟨fun _ => .inr (by omega), fun _ => aborted_ne⟩
    · rename_i hnot
      rcases ptrOffsetConst_cases hoffset with ⟨hsmall, hptr⟩ | ⟨hlarge, hptr⟩
      · rw [hptr, ok_bind, load_outside (by omega)]
        exact ⟨fun hne => absurd rfl hne, fun h => by omega⟩
      · rw [hptr]
        exact ⟨fun _ => .inl hlarge, fun _ => aborted_ne⟩

theorem memcpyTo_ne_iff (h : Bounded buf) {size offset : Nat} (hsize : size < 2 ^ 32)
    (hoffset : offset < 2 ^ 32) :
    buf.memcpyTo size offset ≠ .error .outOfBounds ↔ buf.pointer = .null ∨ Refusable buf offset size := by
  by_cases hnull : buf.pointer = .null
  · refine ⟨fun _ => .inl hnull, fun _ => ?_⟩
    rw [memcpyTo]
    split
    · exact aborted_ne
    · exact aborted_ne
  · rw [or_iff_right hnull, ← read_ne_iff h hoffset hsize, memcpyTo, if_neg hnull]
    exact Iff.rfl

theorem readRear_ne (h : Bounded buf) {len : Nat} :
    buf.toOwnedAutobuf.readRear len ≠ .error .outOfBounds := by
  have hwithin := h.within
  have hlt := contentSize_lt h
  rw [OwnedAutobuf.readRear]
  split
  · exact aborted_ne
  · exact offset_load_ne (by omega) (by omega)

theorem readRearTo_ne (h : Bounded buf) {len : Nat} : buf.readRearTo len ≠ .error .outOfBounds := by
  have hwithin := h.within
  rw [readRearTo]
  split
  · exact aborted_ne
  · exact offset_load_ne (contentSize_lt h) (by omega)

theorem readFront_ne (h : Bounded buf) {len : Nat} :
    buf.toOwnedAutobuf.readFront len ≠ .error .outOfBounds := by
  have hwithin := h.within
  rw [OwnedAutobuf.readFront]
  split
  · exact aborted_ne
  · exact load_ne (by omega)

theorem contained_byteAt (h : Bounded buf) (offset : Int) :
    Contained ((buf.toOwnedAutobuf.byteAt offset).map fun _ => buf) := by
  have hwithin := h.within
  have hlt := contentSize_lt h
  rw [OwnedAutobuf.byteAt]
  split
  · rfl
  · rename_i hin
    have hsmall : buf.contentSize < 2 ^ 31 := by
      by_contra hlarge
      have hneg := asInt_neg (Nat.not_lt.mp hlarge) hlt
      omega
    rw [asInt_of_lt hsmall] at hin
    rw [readU8_of_lt (by omega)]
    exact h

theorem contained_memcpyFrom (h : Bounded buf) (srcBuf : Bytes) (offset : Nat) :
    Contained (buf.memcpyFrom srcBuf offset) := by
  have hwithin := h.within
  rw [memcpyFrom]
  split
  · rfl
  · rename_i hfits
    cases hptr : ptrOffsetMutable buf.contentSize offset with
    | ok _ =>
        obtain ⟨memory, hstore, hbounded⟩ := @store_bounded buf srcBuf offset h (by omega)
        rw [ok_bind, hstore]
        exact hbounded _ _ (by rw [h.bufSize_eq]; exact hwithin)
    | error e =>
        rw [ptrOffsetMutable] at hptr
        split at hptr
        · cases hptr
          rfl
        · cases hptr

theorem bounded_trimFront (h : Bounded buf) (len : Nat) :
    Bounded { buf with toOwnedAutobuf := buf.toOwnedAutobuf.trimFront len } := by
  have hwithin := h.within
  have hbufSize := h.bufSize_eq
  have hbufLt := h.bufSize_lt
  rw [OwnedAutobuf.trimFront]
  split
  · exact bounded_of_memory h rfl (by omega)
  · exact bounded_of_memory h rfl (by omega)

theorem bounded_trimRear (h : Bounded buf) (len : Nat) :
    Bounded { buf with toOwnedAutobuf := buf.toOwnedAutobuf.trimRear len } := by
  have hwithin := h.within
  have hbufSize := h.bufSize_eq
  rw [OwnedAutobuf.trimRear]
  split
  · exact bounded_of_memory h rfl (by omega)
  · exact bounded_of_memory h rfl (by omega)

theorem pages_mono {size size' : Nat} (h : size ≤ size') : pages size ≤ pages size' := by
  unfold pages
  split
  · split
    · omega
    · omega
  · split
    · omega
    · omega

/-- The content never takes more pages than there are. -/
theorem shrink_of_bounded (found : Bool) (h : Bounded buf) (howns : buf.ownsMemory = true)
    (hsome : buf.contentSize ≠ 0) : buf.shrink found = .ok buf := by
  have hwithin := h.within
  have hbufSize := h.bufSize_eq
  have hpages : pages buf.contentSize ≤ pages buf.bufSize := pages_mono (by omega)
  rw [shrink, if_neg (not_not_intro howns), if_neg hsome]
  exact if_neg (Nat.not_lt.mpr hpages)

theorem contained_shrink (found : Bool) (h : Bounded buf) : Contained (buf.shrink found) := by
  by_cases howns : buf.ownsMemory = true
  · by_cases hzero : buf.contentSize = 0
    · rw [shrink, if_neg (not_not_intro howns), if_pos hzero, reset_ok h]
      exact bounded_fresh
    · rw [shrink_of_bounded found h howns hzero]
      exact h
  · rw [shrink, if_pos howns]
    rfl

end Within

/-! ## Runs -/

section Runs

variable {junk : Nat → UInt8} {found : Bool} {buf : WriteableAutobuf}

/-- **A call keeps to the region** exactly if it meets the condition. -/
theorem contained_apply_iff (h : Bounded buf) (call : AutobufCall) :
    Contained (call.apply junk found buf) ↔ Harmless buf found call := by
  cases call with
  | clear =>
      have hwithin := h.within
      have hbufSize := h.bufSize_eq
      exact ⟨fun _ => trivial, fun _ => bounded_of_memory h rfl (by omega)⟩
  | reset =>
      refine ⟨fun _ => trivial, fun _ => ?_⟩
      rw [AutobufCall.apply, reset_ok h]
      exact bounded_fresh
  | setContent srcBuf => exact contained_setContent_iff h srcBuf.lt
  | inheritShared src => exact contained_inheritShared_iff h src
  | memcpyFrom srcBuf offset => exact ⟨fun _ => trivial, fun _ => contained_memcpyFrom h _ _⟩
  | memcpyTo size offset =>
      exact (contained_read h).trans (memcpyTo_ne_iff h (UInt32.toNat_lt _) (UInt32.toNat_lt _))
  | byteAt offset => exact ⟨fun _ => trivial, fun _ => contained_byteAt h _⟩
  | readFront len => exact ⟨fun _ => trivial, fun _ => (contained_read h).mpr (readFront_ne h)⟩
  | readRear len => exact ⟨fun _ => trivial, fun _ => (contained_read h).mpr (readRear_ne h)⟩
  | readRearTo len => exact ⟨fun _ => trivial, fun _ => (contained_read h).mpr (readRearTo_ne h)⟩
  | read offset len =>
      exact (contained_read h).trans (read_ne_iff h (UInt32.toNat_lt _) (UInt32.toNat_lt _))
  | trimFront len => exact ⟨fun _ => trivial, fun _ => bounded_trimFront h _⟩
  | trimRear len => exact ⟨fun _ => trivial, fun _ => bounded_trimRear h _⟩
  | plusSelf => exact contained_plusSelf_iff h
  | plusOther other => exact contained_plusOther_iff h other.lt
  | append bytes => exact contained_append_iff h bytes.lt
  | prepend bytes => exact contained_prepend_iff h bytes.lt
  | load file got => exact contained_load_iff h file got
  | reserve size => exact contained_reserve_iff h (UInt32.toNat_lt _)
  | createEmptyBuffer size zero => exact contained_createEmptyBuffer_iff h (UInt32.toNat_lt _) zero
  | growBuffer size zero => exact contained_growBuffer_iff h (UInt32.toNat_lt _) zero
  | shrink => exact ⟨fun _ => trivial, fun _ => contained_shrink found h⟩
  | assign original => exact contained_assign_iff h original
  | copyAsShared original =>
      rw [AutobufCall.apply, reset_ok h]
      exact bounded_copyAsShared_iff original

/--
**Buffers keep to their regions in a run**, whatever is asked of them, exactly if every call
of it meets the condition.
-/
theorem contained_run_iff {ts : List (Transition (Read WriteableAutobuf) AutobufInput)}
    {last : Read WriteableAutobuf} (hr : Run (autobufStep junk) (.ok {}) ts last) :
    (∀ tr ∈ ts, Contained tr.target) ↔
      ∀ tr ∈ ts, HarmlessStep tr.source tr.input := by
  refine hr.forall_good_iff (fun _ => True) (fun state => ∀ buf, state = .ok buf → Bounded buf) trivial ?_
    (fun _ _ _ _ _ => trivial) ?_ ?_
  · intro buf hbuf
    cases hbuf
    exact bounded_fresh
  · intro u i v _ _ _ hcontained buf hbuf
    dsimp only at hcontained
    rw [hbuf] at hcontained
    exact hcontained
  · intro u i v _ hbounded hstep
    cases u with
    | error e => cases hstep
    | ok buf =>
        cases hstep
        refine (contained_apply_iff (hbounded buf rfl) i.call).trans ?_
        refine ⟨fun hharmless buf' hbuf' => ?_, fun hharmless => hharmless buf rfl⟩
        cases hbuf'
        exact hharmless

end Runs

/-- A region of eight bytes, half of it in use. -/
def halfUsed : SharedRegion := ⟨[1, 2, 3, 4, 0, 0, 0, 0], 4, 8, rfl⟩

theorem halfUsed_contained : ∃ ts last, Run (autobufStep fun _ => 0) (.ok {}) ts last ∧
    last.map (fun buf => buf.content) = .ok [7, 3, 4, 5] ∧
      ((∀ tr ∈ ts, Contained tr.target) ↔ ∀ tr ∈ ts, HarmlessStep tr.source tr.input) := by
  have hr := Run.of_record (show record (autobufStep fun _ => 0) (.ok {}) [⟨.inheritShared halfUsed, true⟩,
    ⟨.append ⟨[5], by decide⟩, true⟩, ⟨.trimFront 2, true⟩, ⟨.prepend ⟨[7], by decide⟩, true⟩] =
      some (_, _) from rfl)
  exact ⟨_, _, hr, rfl, contained_run_iff hr⟩

/-- A byte that is appended to a region with no room for it is written behind it. -/
theorem fullRegion_overrun :
    ¬ ∀ (junk : Nat → UInt8) (ts : List (Transition (Read WriteableAutobuf) AutobufInput))
      (last : Read WriteableAutobuf), Run (autobufStep junk) (.ok {}) ts last →
        ∀ tr ∈ ts, Contained tr.target := by
  intro h
  have hr := Run.of_record (show record (autobufStep fun _ => 0) (.ok {})
    [⟨.inheritShared ⟨[1, 2, 3, 4], 4, 0, rfl⟩, true⟩, ⟨.append ⟨[5], by decide⟩, true⟩] =
      some (_, _) from rfl)
  cases h _ _ _ hr _ (List.mem_cons_of_mem _ List.mem_cons_self)

end AutobufBounds

end IronStack.Proof
