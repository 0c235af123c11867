import IronStack.Proof.ActionCodec

/-!
# What the decoder of action lists makes of arbitrary bytes

The decoder walks over the records it accepts. It turns down a record of an
unknown type, and every record whose length field is wrong. What it does not
expect is a list that stops in the middle: up to seven bytes behind the last
record are passed over in silence, and a record of 16 bytes is read without a
look at how many are left. A vendor action ends the whole controller.
-/

namespace IronStack.Proof

open IronStack Lib OfAction OpenflowActionList

/-! ## One record -/

/-- The size of the records of a type, for the types whose records are ever accepted. -/
def acceptedSize (type : UInt16) : Option Nat :=
  if type = Ofpat.output ∨ type = Ofpat.setVlanVid ∨ type = Ofpat.setVlanPcp ∨
      type = Ofpat.stripVlan ∨ type = Ofpat.setNwTos then
    some 8
  else if type = Ofpat.setDlSrc ∨ type = Ofpat.setDlDst ∨ type = Ofpat.enqueue then some 16
  else none

theorem acceptedSize_cases {type : UInt16} {size : Nat} (h : acceptedSize type = some size) :
    size = 8 ∧ (type = Ofpat.output ∨ type = Ofpat.setVlanVid ∨ type = Ofpat.setVlanPcp ∨
        type = Ofpat.stripVlan ∨ type = Ofpat.setNwTos) ∨
      size = 16 ∧ (type = Ofpat.setDlSrc ∨ type = Ofpat.setDlDst ∨ type = Ofpat.enqueue) := by
  unfold acceptedSize at h
  split at h
  · rename_i htype
    cases h
    exact .inl ⟨rfl, htype⟩
  · split at h
    · rename_i htype
      cases h
      exact .inr ⟨rfl, htype⟩
    · cases h

/-- How far the decoder for an accepted type reads. -/
def readExtent (type : UInt16) : Nat :=
  if type = Ofpat.enqueue then 16
  else if type = Ofpat.setDlSrc ∨ type = Ofpat.setDlDst then 10
  else 8

theorem actionType_cases (type : UInt16) :
    type = Ofpat.output ∨ type = Ofpat.setVlanVid ∨ type = Ofpat.setVlanPcp ∨
      type = Ofpat.stripVlan ∨ type = Ofpat.setDlSrc ∨ type = Ofpat.setDlDst ∨
      (type = Ofpat.setNwSrc ∨ type = Ofpat.setNwDst) ∨ type = Ofpat.setNwTos ∨
      (type = Ofpat.setTpSrc ∨ type = Ofpat.setTpDst) ∨ type = Ofpat.enqueue ∨
      type = Ofpat.vendor ∨ actionTypeOf type = .unknown := by
  unfold actionTypeOf
  grind

theorem deserialize_vendor (rest : Bytes) (n : Nat) :
    OfAction.deserialize ⟨be16 Ofpat.vendor ++ rest, n⟩ = .error .aborted := by
  rw [deserialize_header]
  rfl

/-- A record of the wrong length for its type is turned down, and so is one of an unknown type. -/
theorem deserialize_rejects {type len : UInt16} {rest : Bytes} {n : Nat} (hn : 8 ≤ n)
    (hvendor : type ≠ Ofpat.vendor) (h : acceptedSize type ≠ some len.toNat) :
    OfAction.deserialize ⟨be16 type ++ (be16 len ++ rest), n⟩ = .ok none := by
  rcases actionType_cases type with rfl | rfl | rfl | rfl | rfl | rfl | htype | rfl | htype | rfl |
    rfl | hunknown
  · exact deserialize_of_rejects deserializeOutputToPort (fun _ => rfl) (fun _ => rfl) hn
      fun _ hlen => h (congrArg some hlen).symm
  · exact deserialize_of_rejects deserializeSetVlanId (fun _ => rfl) (fun _ => rfl) hn
      fun _ hlen => h (congrArg some hlen).symm
  · exact deserialize_of_rejects deserializeSetVlanPcp (fun _ => rfl) (fun _ => rfl) hn
      fun _ hlen => h (congrArg some hlen).symm
  · exact deserialize_of_rejects deserializeStripVlan (fun _ => rfl) (fun _ => rfl) hn
      fun _ hlen => h (congrArg some hlen).symm
  · exact deserialize_of_rejects deserializeSetMacAddress (fun _ => rfl) (fun _ => rfl) hn
      fun _ hlen => h (congrArg some hlen).symm
  · exact deserialize_of_rejects deserializeSetMacAddress (fun _ => rfl) (fun _ => rfl) hn
      fun _ hlen => h (congrArg some hlen).symm
  · exact deserialize_setIpAddress hn htype
  · exact deserialize_of_rejects deserializeSetIpTypeOfService (fun _ => rfl) (fun _ => rfl) hn
      fun _ hlen => h (congrArg some hlen).symm
  · exact deserialize_setTcpudpPort hn htype
  · exact deserialize_of_rejects deserializeEnqueue (fun _ => rfl) (fun _ => rfl) hn
      fun _ hlen => h (congrArg some hlen).symm
  · exact absurd rfl hvendor
  · rw [deserialize_header, hunknown]
    rfl

/-- A record of the right length is accepted, if the bytes that are read are there. -/
theorem deserialize_accepts {type len : UInt16} {rest : Bytes} {n : Nat} (hn : 8 ≤ n)
    (h : acceptedSize type = some len.toNat)
    (hrest : readExtent type ≤ (be16 type ++ (be16 len ++ rest)).length) :
    ∃ a, OfAction.deserialize ⟨be16 type ++ (be16 len ++ rest), n⟩ = .ok (some a) ∧
      a.getDeserializationSize = len.toNat := by
  have hport : 6 ≤ (be16 type ++ (be16 len ++ rest)).length →
      ∃ v, readU16 (be16 type ++ (be16 len ++ rest)) 4 = .ok v := fun hle => exists_readU16 hle
  have hbyte : 5 ≤ (be16 type ++ (be16 len ++ rest)).length →
      ∃ v, readU8 (be16 type ++ (be16 len ++ rest)) 4 = .ok v := fun hle => exists_readU8 hle
  rcases acceptedSize_cases h with ⟨hlen, htype⟩ | ⟨hlen, htype⟩
  · have h8 : readExtent type = 8 := by
      rcases htype with rfl | rfl | rfl | rfl | rfl <;> rfl
    rw [h8] at hrest
    obtain ⟨port, hport⟩ := hport (by omega)
    obtain ⟨byte, hbyte⟩ := hbyte (by omega)
    rcases htype with rfl | rfl | rfl | rfl | rfl
    · refine ⟨.outputToPort (port == ofppController) port,
        deserialize_of_decoder deserializeOutputToPort (fun _ => rfl) (fun _ => rfl) hn
        rfl hlen ?_, hlen.symm⟩
      rw [hport, ok_bind, pure_eq_ok]
    · refine ⟨.setVlanId port, deserialize_of_decoder deserializeSetVlanId (fun _ => rfl) (fun _ => rfl) hn
        rfl hlen ?_, hlen.symm⟩
      rw [hport, ok_bind, pure_eq_ok]
    · refine ⟨.setVlanPcp byte, deserialize_of_decoder deserializeSetVlanPcp (fun _ => rfl) (fun _ => rfl) hn
        rfl hlen ?_, hlen.symm⟩
      rw [hbyte, ok_bind, pure_eq_ok]
    · exact ⟨_, deserialize_of_decoder deserializeStripVlan (fun _ => rfl) (fun _ => rfl) hn
        rfl hlen rfl, hlen.symm⟩
    · refine ⟨.setIpTypeOfService byte, deserialize_of_decoder deserializeSetIpTypeOfService (fun _ => rfl)
        (fun _ => rfl) hn rfl hlen ?_, hlen.symm⟩
      rw [hbyte, ok_bind, pure_eq_ok]
  · have hmac : 10 ≤ (be16 type ++ (be16 len ++ rest)).length →
        ∃ v, readVec 6 (be16 type ++ (be16 len ++ rest)) 4 = .ok v := fun hle => exists_readVec hle
    rcases htype with rfl | rfl | rfl
    · obtain ⟨addr, hmac⟩ := hmac hrest
      refine ⟨.setMacAddress true ⟨addr⟩, deserialize_of_decoder deserializeSetMacAddress
        (fun _ => rfl) (fun _ => rfl) hn rfl hlen ?_, hlen.symm⟩
      rw [readU16_be16, ok_bind, hmac]
      rfl
    · obtain ⟨addr, hmac⟩ := hmac hrest
      refine ⟨.setMacAddress false ⟨addr⟩, deserialize_of_decoder deserializeSetMacAddress
        (fun _ => rfl) (fun _ => rfl) hn rfl hlen ?_, hlen.symm⟩
      rw [readU16_be16, ok_bind, hmac]
      rfl
    · have h16 : 16 ≤ (be16 Ofpat.enqueue ++ (be16 len ++ rest)).length := hrest
      obtain ⟨port, hport⟩ := hport (by omega)
      obtain ⟨queueId, hqueue⟩ := exists_readU32 (show 12 + 4 ≤ _ from h16)
      refine ⟨.enqueue port queueId, deserialize_of_decoder deserializeEnqueue
        (fun _ => rfl) (fun _ => rfl) hn rfl hlen ?_, hlen.symm⟩
      rw [hport, ok_bind, hqueue, ok_bind, pure_eq_ok]

/-- A record of the right length is read past the end of the memory, if that comes too early. -/
theorem deserialize_truncated {type len : UInt16} {rest : Bytes} {n : Nat} (hn : 8 ≤ n)
    (h : acceptedSize type = some len.toNat)
    (hrest : (be16 type ++ (be16 len ++ rest)).length < readExtent type)
    (hge : 8 ≤ (be16 type ++ (be16 len ++ rest)).length) :
    OfAction.deserialize ⟨be16 type ++ (be16 len ++ rest), n⟩ = .error .outOfBounds := by
  rcases acceptedSize_cases h with ⟨_, htype⟩ | ⟨hlen, htype⟩
  · have h8 : readExtent type = 8 := by
      rcases htype with rfl | rfl | rfl | rfl | rfl <;> rfl
    omega
  · rcases htype with rfl | rfl | rfl
    · have hmac : readVec 6 (be16 Ofpat.setDlSrc ++ (be16 len ++ rest)) 4 = .error .outOfBounds :=
        readVec_error hrest
      rw [deserialize_eq_decoder deserializeSetMacAddress (fun _ => rfl) (fun _ => rfl) hn,
        readU16_be16, ok_bind, hmac, hlen]
      rfl
    · have hmac : readVec 6 (be16 Ofpat.setDlDst ++ (be16 len ++ rest)) 4 = .error .outOfBounds :=
        readVec_error hrest
      rw [deserialize_eq_decoder deserializeSetMacAddress (fun _ => rfl) (fun _ => rfl) hn,
        readU16_be16, ok_bind, hmac, hlen]
      rfl
    · have hqueue : readU32 (be16 Ofpat.enqueue ++ (be16 len ++ rest)) 12 = .error .outOfBounds :=
        readU32_error hrest
      obtain ⟨port, hport⟩ := exists_readU16
        (Nat.le_trans (by omega : 4 + 2 ≤ 8) hge)
      rw [deserialize_eq_decoder deserializeEnqueue (fun _ => rfl) (fun _ => rfl) hn, hport,
        ok_bind, hqueue, hlen]
      rfl

/-- The header of a record: its type, and the length it announces. -/
structure HasHeader (content : Bytes) (type len : UInt16) : Prop where
  type_eq : readU16 content 0 = .ok type
  len_eq : readU16 content 2 = .ok len

theorem hasHeader_append (type len : UInt16) (rest : Bytes) :
    HasHeader (be16 type ++ (be16 len ++ rest)) type len := by
  refine ⟨readU16_be16 .., ?_⟩
  rw [readU16_append_right (by simp)]
  simp

theorem HasHeader.unique {content : Bytes} {type len type' len' : UInt16}
    (h : HasHeader content type len) (h' : HasHeader content type' len') : type' = type ∧ len' = len := by
  have ht := h'.type_eq.symm.trans h.type_eq
  have hl := h'.len_eq.symm.trans h.len_eq
  exact ⟨Except.ok.inj ht, Except.ok.inj hl⟩

theorem exists_header {content : Bytes} (h : 8 ≤ content.length) :
    ∃ type len rest, content = be16 type ++ (be16 len ++ rest) := by
  obtain ⟨type, behind, rfl⟩ := exists_eq_be16_append (b := content) (by omega)
  rw [List.length_append, length_be16] at h
  obtain ⟨len, rest, rfl⟩ := exists_eq_be16_append (b := behind) (by omega)
  exact ⟨type, len, rest, rfl⟩

/-- A record is announced: its type is accepted, with the length it gives. -/
def Announces (content : Bytes) (n : Nat) : Prop :=
  ∃ type len, HasHeader content type len ∧ acceptedSize type = some n ∧ len.toNat = n

/-- The first record of some memory cannot be read without a fault. -/
def Faulty (memory : Bytes) : Prop :=
  ∃ type len, HasHeader memory type len ∧
    (type = Ofpat.vendor ∨ acceptedSize type = some len.toNat ∧ memory.length < readExtent type)

/-- **When a record faults**: it is a vendor action, or the memory ends before what is read of it. -/
theorem deserialize_fault_iff {memory : Bytes} {n : Nat} (hn : 8 ≤ n) (hmem : 8 ≤ memory.length) :
    (∃ e, OfAction.deserialize ⟨memory, n⟩ = .error e) ↔ Faulty memory := by
  obtain ⟨type, len, rest, rfl⟩ := exists_header hmem
  have hheader := hasHeader_append type len rest
  refine ⟨?_, ?_⟩
  · intro ⟨e, he⟩
    refine ⟨type, len, hheader, ?_⟩
    by_cases hvendor : type = Ofpat.vendor
    · exact .inl hvendor
    · right
      by_cases hsize : acceptedSize type = some len.toNat
      · refine ⟨hsize, ?_⟩
        by_contra hge
        obtain ⟨a, ha, _⟩ := deserialize_accepts hn hsize (Nat.le_of_not_lt hge)
        rw [ha] at he
        cases he
      · rw [deserialize_rejects hn hvendor hsize] at he
        cases he
  · intro ⟨type', len', hheader', h⟩
    obtain ⟨rfl, rfl⟩ := hheader.unique hheader'
    rcases h with rfl | ⟨hsize, hlt⟩
    · exact ⟨_, deserialize_vendor ..⟩
    · exact ⟨_, deserialize_truncated hn hsize hlt hmem⟩

/-- **When a record is accepted**: it is announced, and what is read of it is there. -/
theorem deserialize_some_iff {memory : Bytes} {n k : Nat} (hn : 8 ≤ n) (hmem : 8 ≤ memory.length) :
    (∃ a, OfAction.deserialize ⟨memory, n⟩ = .ok (some a) ∧ a.getDeserializationSize = k) ↔
      Announces memory k ∧ ¬ Faulty memory := by
  obtain ⟨type, len, rest, rfl⟩ := exists_header hmem
  have hheader := hasHeader_append type len rest
  refine ⟨?_, ?_⟩
  · intro ⟨a, ha, hk⟩
    have hfault : ¬ Faulty (be16 type ++ (be16 len ++ rest)) := by
      intro hfault
      obtain ⟨e, he⟩ := (deserialize_fault_iff hn hmem).mpr hfault
      rw [ha] at he
      cases he
    refine ⟨?_, hfault⟩
    have hvendor : type ≠ Ofpat.vendor := fun hvendor => hfault ⟨type, len, hheader, .inl hvendor⟩
    by_cases hsize : acceptedSize type = some len.toNat
    · have hge : readExtent type ≤ (be16 type ++ (be16 len ++ rest)).length := by
        by_contra hlt
        exact hfault ⟨type, len, hheader, .inr ⟨hsize, Nat.lt_of_not_le hlt⟩⟩
      obtain ⟨a', ha', hk'⟩ := deserialize_accepts hn hsize hge
      rw [ha] at ha'
      cases ha'
      exact ⟨type, len, hheader, by rw [hsize, ← hk', hk], by rw [← hk', hk]⟩
    · rw [deserialize_rejects hn hvendor hsize] at ha
      cases ha
  · intro ⟨⟨type', len', hheader', hsize, hlen⟩, hfault⟩
    obtain ⟨rfl, rfl⟩ := hheader.unique hheader'
    have hsize' : acceptedSize type' = some len'.toNat := by rw [hsize, hlen]
    have hge : readExtent type' ≤ (be16 type' ++ (be16 len' ++ rest)).length := by
      by_contra hlt
      exact hfault ⟨type', len', hheader, .inr ⟨hsize', Nat.lt_of_not_le hlt⟩⟩
    obtain ⟨a, ha, hk⟩ := deserialize_accepts hn hsize' hge
    exact ⟨a, ha, by rw [hk, hlen]⟩

theorem Announces.eq_or {content : Bytes} {n : Nat} (h : Announces content n) : n = 8 ∨ n = 16 := by
  obtain ⟨type, len, _, hsize, _⟩ := h
  rcases acceptedSize_cases hsize with ⟨rfl, _⟩ | ⟨rfl, _⟩
  · exact .inl rfl
  · exact .inr rfl

/-- A fault for want of bytes happens to a record of 16 bytes that is cut short. -/
theorem Faulty.vendor_or_short {memory : Bytes} (h : Faulty memory) (hmem : 8 ≤ memory.length) :
    readU16 memory 0 = .ok Ofpat.vendor ∨ Announces memory 16 ∧ memory.length < 16 := by
  obtain ⟨type, len, hheader, h⟩ := h
  rcases h with rfl | ⟨hsize, hlt⟩
  · exact .inl hheader.type_eq
  · right
    rcases acceptedSize_cases hsize with ⟨_, htype⟩ | ⟨hlen, htype⟩
    · have h8 : readExtent type = 8 := by
        rcases htype with rfl | rfl | rfl | rfl | rfl <;> rfl
      omega
    · have hle : readExtent type ≤ 16 := by
        rcases htype with rfl | rfl | rfl <;> decide
      exact ⟨⟨type, len, hheader, by rw [hsize, hlen], hlen⟩, by omega⟩

theorem Announces.not_faulty {memory : Bytes} {n : Nat} (h : Announces memory n)
    (hle : n ≤ memory.length) : ¬ Faulty memory := by
  intro ⟨type', len', hheader', hfault⟩
  obtain ⟨type, len, hheader, hsize, hlen⟩ := h
  obtain ⟨rfl, rfl⟩ := hheader.unique hheader'
  have hextent : readExtent type' ≤ n := by
    rcases acceptedSize_cases hsize with ⟨rfl, htype⟩ | ⟨rfl, htype⟩
    · rcases htype with rfl | rfl | rfl | rfl | rfl <;> decide
    · rcases htype with rfl | rfl | rfl <;> decide
  rcases hfault with rfl | ⟨_, hlt⟩
  · cases hsize
  · omega

/-! ## The walk over the records -/

/-- The cursors of the loop over actions, read off the memory. -/
inductive ActionWalk (memory : Bytes) (size : Nat) : Nat → Nat → Prop
  | here {off} : ActionWalk memory size off off
  | step {off n off'} (hmore : off + 8 ≤ size) (hann : Announces (memory.drop off) n)
      (hfault : ¬ Faulty (memory.drop off)) (htail : ActionWalk memory size (off + n) off') :
      ActionWalk memory size off off'

section Walk

variable {buf : Autobuf} {off : Nat}

/-- Where the loop faults, it faults at the record. -/
theorem one_fault_iff (hoff : off < 2 ^ 31) (hmore : off + 8 ≤ buf.size)
    (hmem : buf.size ≤ buf.memory.length) :
    (∃ e, deserializeOne buf off = .error e) ↔ Faulty (buf.memory.drop off) := by
  rw [← deserialize_fault_iff (n := buf.size - off) (by omega) (by rw [List.length_drop]; omega),
    deserializeOne_of_lt hoff]
  cases OfAction.deserialize ⟨buf.memory.drop off, buf.size - off⟩ with
  | error e => simp [Except.map]
  | ok r => simp [Except.map]

/-- The loop moves on by the size that a record announces. -/
theorem one_some_iff {n : Nat} (hoff : off < 2 ^ 31) (hmore : off + 8 ≤ buf.size)
    (hmem : buf.size ≤ buf.memory.length) :
    (∃ a, deserializeOne buf off = .ok (some (a, n))) ↔
      Announces (buf.memory.drop off) n ∧ ¬ Faulty (buf.memory.drop off) := by
  rw [← deserialize_some_iff (n := buf.size - off) (by omega) (by rw [List.length_drop]; omega),
    deserializeOne_of_lt hoff]
  refine exists_congr fun a => ?_
  rw [map_eq_some]
  refine ⟨?_, ?_⟩
  · intro ⟨a', ha, heq⟩
    cases heq
    exact ⟨ha, rfl⟩
  · intro ⟨ha, hn⟩
    exact ⟨a, ha, by rw [hn]⟩

theorem reaches_iff_walk {off' : Nat} (hsize : buf.size < 2 ^ 31)
    (hmem : buf.size ≤ buf.memory.length) :
    (deserializeLoop buf).Reaches off off' ↔ ActionWalk buf.memory buf.size off off' := by
  refine ⟨?_, ?_⟩
  · intro ⟨items, hreads⟩
    induction hreads with
    | nil => exact .here
    | cons hmore hone _ ih =>
        have hle := of_decide_eq_true hmore
        obtain ⟨hann, hfault⟩ := (one_some_iff (by omega) hle hmem).mp ⟨_, hone⟩
        exact .step hle hann hfault ih
  · intro hwalk
    induction hwalk with
    | here => exact .start
    | step hmore hann hfault _ ih =>
        obtain ⟨a, ha⟩ := (one_some_iff (by omega) hmore hmem).mpr ⟨hann, hfault⟩
        exact .next (decide_eq_true hmore) ha ih

/-- The walk over the actions comes to a record that faults. -/
def ActionsFault (memory : Bytes) (size : Nat) : Prop :=
  ∃ off, ActionWalk memory size 0 off ∧ off + 8 ≤ size ∧ Faulty (memory.drop off)

/-- The walk over the actions comes to the end. -/
def ActionsTaken (memory : Bytes) (size : Nat) : Prop :=
  size = 0 ∨ 8 ≤ size ∧ ∃ off, ActionWalk memory size 0 off ∧ size < off + 8

/-- **When a list inside a larger memory faults**, up to 2 GiB. -/
theorem actions_fault_iff (hsize : buf.size < 2 ^ 31) (hmem : buf.size ≤ buf.memory.length) :
    (∃ e, OpenflowActionList.deserialize buf = .error e) ↔ ActionsFault buf.memory buf.size := by
  unfold OpenflowActionList.deserialize ActionsFault
  split
  · simp
    omega
  · split
    · simp
      omega
    · simp only [map_eq_error]
      rw [RecordLoop.run_error_iff]
      refine exists_congr fun off' => ?_
      rw [reaches_iff_walk hsize hmem]
      refine and_congr_right fun _ => ?_
      refine ⟨?_, ?_⟩
      · intro ⟨hmore, he⟩
        have hle : off' + 8 ≤ buf.size := of_decide_eq_true hmore
        exact ⟨hle, (one_fault_iff (by omega) hle hmem).mp he⟩
      · intro ⟨hle, hfault⟩
        exact ⟨decide_eq_true hle, (one_fault_iff (by omega) hle hmem).mpr hfault⟩

/-- **When a list inside a larger memory is accepted**, up to 2 GiB. -/
theorem actions_taken_iff (hsize : buf.size < 2 ^ 31) (hmem : buf.size ≤ buf.memory.length) :
    (∃ r, OpenflowActionList.deserialize buf = .ok (some r)) ↔
      ActionsTaken buf.memory buf.size := by
  unfold OpenflowActionList.deserialize ActionsTaken
  split
  · simp [*]
  · rename_i hne
    split
    · simp
      omega
    · rename_i hge
      have hrun : (∃ r, ((deserializeLoop buf).run 0).map (Option.map fun r =>
          ((⟨r.1⟩ : OpenflowActionList), r.2)) = .ok (some r)) ↔
            ∃ r, (deserializeLoop buf).run 0 = .ok (some r) := by
        simp only [map_eq_some]
        refine ⟨?_, ?_⟩
        · intro ⟨_, r, hr, _⟩
          exact ⟨r, hr⟩
        · intro ⟨r, hr⟩
          exact ⟨_, r, hr, rfl⟩
      rw [hrun, RecordLoop.run_some_iff]
      refine ⟨?_, ?_⟩
      · intro ⟨off', hreach, hend⟩
        have hlt : ¬ off' + 8 ≤ buf.size := of_decide_eq_false hend
        exact .inr ⟨by omega, off', (reaches_iff_walk hsize hmem).mp hreach, by omega⟩
      · intro htaken
        rcases htaken with hzero | ⟨_, off', hwalk, hlt⟩
        · exact absurd hzero hne
        · have hnot : ¬ off' + 8 ≤ buf.size := by omega
          exact ⟨off', (reaches_iff_walk hsize hmem).mpr hwalk, decide_eq_false hnot⟩

end Walk

/-! ## The whole list -/

/-- The size that the type of a record requires; a vendor's records are as long as they like. -/
def SizeAllowed (type : UInt16) (size : Nat) : Prop :=
  if type = Ofpat.vendor then 8 ≤ size
  else if type = Ofpat.setNwSrc ∨ type = Ofpat.setNwDst ∨ type = Ofpat.setTpSrc ∨
      type = Ofpat.setTpDst then
    size = 8
  else acceptedSize type = some size

/-- A whole record: its length field is the size its type requires, a multiple of 8. -/
structure WellFormedRecord (record : Bytes) : Prop where
  header : ∃ type len, HasHeader record type len ∧ len.toNat = record.length ∧
    SizeAllowed type record.length
  aligned : 8 ∣ record.length

/-- A whole record of a type that is accepted. -/
def AcceptedRecord (record : Bytes) : Prop := Announces record record.length

theorem AcceptedRecord.length_eq_or {record : Bytes} (h : AcceptedRecord record) :
    record.length = 8 ∨ record.length = 16 := Announces.eq_or h

theorem AcceptedRecord.wellFormed {record : Bytes} (h : AcceptedRecord record) :
    WellFormedRecord record := by
  refine ⟨?_, ?_⟩
  · obtain ⟨type, len, hheader, hsize, hlen⟩ := h
    refine ⟨type, len, hheader, hlen, ?_⟩
    unfold SizeAllowed
    split
    · rename_i hvendor
      rw [hvendor] at hsize
      cases hsize
    · split
      · rename_i htype
        rcases htype with rfl | rfl | rfl | rfl <;> cases hsize
      · exact hsize
  · rcases h.length_eq_or with hlen | hlen <;> omega

/--
The decoder answers, and says yes only to a list of well-formed records, all of
which it has consumed.
-/
def DecodesSafely (input : Bytes) : Prop :=
  OpenflowActionList.deserialize (.ofBytes input) = .ok none ∨
    ∃ l, OpenflowActionList.deserialize (.ofBytes input) = .ok (some (l, input.length)) ∧
      ∃ records : List Bytes, (∀ r ∈ records, WellFormedRecord r) ∧ input = records.flatten

/-- Some bytes cut into accepted records, and what is left behind them. -/
structure Cut (input : Bytes) (records : List Bytes) (rest : Bytes) : Prop where
  accepted : ∀ r ∈ records, AcceptedRecord r
  eq_append : input = records.flatten ++ rest

theorem Cut.nil (input : Bytes) : Cut input [] input := ⟨by simp, rfl⟩

theorem Cut.cons {record input rest : Bytes} {records : List Bytes} (h : AcceptedRecord record)
    (hcut : Cut input records rest) : Cut (record ++ input) (record :: records) rest := by
  refine ⟨?_, ?_⟩
  · intro r hr
    rcases List.mem_cons.mp hr with rfl | hr
    · exact h
    · exact hcut.accepted r hr
  · rw [hcut.eq_append, List.flatten_cons, List.append_assoc]

/-- What goes wrong behind a number of bytes of accepted records, given what is left. -/
def Defect (off : Nat) (rest : Bytes) : Prop :=
  (0 < off ∧ 0 < rest.length ∧ rest.length < 8) ∨
    8 ≤ rest.length ∧
      (2 ^ 31 ≤ off ∨ readU16 rest 0 = .ok Ofpat.vendor ∨ Announces rest 16 ∧ rest.length < 16)

theorem HasHeader.append_iff {l r : Bytes} {type len : UInt16} (h : 4 ≤ l.length) :
    HasHeader (l ++ r) type len ↔ HasHeader l type len := by
  refine ⟨?_, ?_⟩
  · intro ⟨htype, hlen⟩
    rw [readU16_append_of_le (by omega)] at htype hlen
    exact ⟨htype, hlen⟩
  · intro ⟨htype, hlen⟩
    refine ⟨?_, ?_⟩
    · rwa [readU16_append_of_le (by omega)]
    · rwa [readU16_append_of_le (by omega)]

theorem Announces.append_iff {l r : Bytes} {n : Nat} (h : 4 ≤ l.length) :
    Announces (l ++ r) n ↔ Announces l n := by
  unfold Announces
  simp only [HasHeader.append_iff h]

section Loop

variable {input : Bytes}

theorem more_iff {off : Nat} :
    (deserializeLoop (.ofBytes input)).more off = true ↔ off + 8 ≤ input.length := decide_eq_true_iff

/-- A record that is announced is cut off, if it is there. -/
theorem acceptedRecord_take {content : Bytes} {n : Nat} (h : Announces content n)
    (hn : n ≤ content.length) : AcceptedRecord (content.take n) := by
  have hlen : (content.take n).length = n := List.length_take_of_le hn
  have hge : 4 ≤ (content.take n).length := by
    rcases h.eq_or with rfl | rfl <;> omega
  unfold AcceptedRecord
  rw [hlen]
  rw [← List.take_append_drop n content] at h
  exact (Announces.append_iff hge).mp h

/-- The records the loop has taken, unless a defect was on its way. -/
theorem reaches_cut {off off' : Nat} (h : (deserializeLoop (.ofBytes input)).Reaches off off')
    (hoff : off ≤ input.length) :
    (∃ records, Cut (input.drop off) records (input.drop off') ∧
        off' = off + records.flatten.length ∧ off' ≤ input.length) ∨
      ∃ records rest, Cut (input.drop off) records rest ∧
        Defect (off + records.flatten.length) rest := by
  obtain ⟨items, hreads⟩ := h
  induction hreads with
  | nil => exact .inl ⟨[], .nil _, rfl, hoff⟩
  | @cons off n item items off' hmore hone htail ih =>
      have hle := more_iff.mp hmore
      have hdrop : (input.drop off).length = input.length - off := List.length_drop
      by_cases hbig : 2 ^ 31 ≤ off
      · -- a cursor this far on is a defect in itself
        exact .inr ⟨[], input.drop off, .nil _, .inr ⟨by omega, .inl hbig⟩⟩
      obtain ⟨hann, _⟩ := (@one_some_iff (.ofBytes input) off _ (Nat.lt_of_not_le hbig) hle
        (Nat.le_refl _)).mp ⟨item, hone⟩
      by_cases hn : off + n ≤ input.length
      · have hrecord : AcceptedRecord ((input.drop off).take n) :=
          acceptedRecord_take hann (by omega)
        have htake : ((input.drop off).take n).length = n := List.length_take_of_le (by omega)
        have hsplit : input.drop off = (input.drop off).take n ++ input.drop (off + n) := by
          rw [← List.drop_drop, List.take_append_drop]
        rw [hsplit]
        rcases ih hn with ⟨records, hcut, hoff', hle'⟩ | ⟨records, rest, hcut, hdef⟩
        · refine .inl ⟨_, hcut.cons hrecord, ?_, hle'⟩
          rw [List.flatten_cons, List.length_append, htake, hoff']
          omega
        · refine .inr ⟨_, rest, hcut.cons hrecord, ?_⟩
          rw [List.flatten_cons, List.length_append, htake, ← Nat.add_assoc]
          exact hdef
      · -- a record of 16 bytes that is cut short
        rcases hann.eq_or with rfl | rfl
        · omega
        · exact .inr ⟨[], input.drop off, .nil _, .inr ⟨by omega, .inr (.inr ⟨hann, by omega⟩)⟩⟩

/-- A defect behind accepted records is one that the loop comes to. -/
theorem exists_unsound_of_defect {records : List Bytes} {rest : Bytes} {off : Nat}
    (hcut : Cut (input.drop off) records rest) (hoff : off < 2 ^ 31 + 16)
    (hdef : Defect (off + records.flatten.length) rest) :
    ∃ off', (deserializeLoop (.ofBytes input)).Reaches off off' ∧
      ¬ (deserializeLoop (.ofBytes input)).SoundAt (· = input.length) off' := by
  have hsize : (Autobuf.ofBytes input).size ≤ (Autobuf.ofBytes input).memory.length := Nat.le_refl _
  have hdrop : ∀ k, (input.drop k).length = input.length - k := fun k => List.length_drop
  induction records generalizing off with
  | nil =>
      obtain rfl : rest = input.drop off := by simpa using hcut.eq_append.symm
      rw [List.flatten_nil, List.length_nil, Nat.add_zero] at hdef
      have hlen := hdrop off
      rcases hdef with ⟨_, hpos, hlt⟩ | ⟨hge, hdef⟩
      · refine ⟨off, .start, RecordLoop.not_soundAt_of_end ?_ ?_⟩
        · exact Bool.eq_false_iff.mpr fun hmore => absurd (more_iff.mp hmore) (by omega)
        · omega
      · have hle : off + 8 ≤ input.length := by omega
        by_cases hbig : 2 ^ 31 ≤ off
        · exact ⟨off, .start, RecordLoop.not_soundAt_of_error (more_iff.mpr hle)
            (deserializeOne_of_ge hbig (by omega))⟩
        · by_cases hfault : Faulty (input.drop off)
          · obtain ⟨e, he⟩ := (@one_fault_iff (.ofBytes input) off (by omega) hle hsize).mpr hfault
            exact ⟨off, .start, RecordLoop.not_soundAt_of_error (more_iff.mpr hle) he⟩
          · rcases hdef with hbig' | hvendor | ⟨hann, hshort⟩
            · exact absurd hbig' hbig
            · obtain ⟨type, len, _, heq⟩ := exists_header (show 8 ≤ (input.drop off).length from hge)
              have hheader := hasHeader_append type len ‹_›
              rw [← heq] at hheader
              have htype : type = Ofpat.vendor :=
                Except.ok.inj (hheader.type_eq.symm.trans hvendor)
              exact absurd ⟨type, len, hheader, .inl htype⟩ hfault
            · -- the record is accepted, and the cursor moves past the end
              obtain ⟨a, ha⟩ := (@one_some_iff (.ofBytes input) off _ (by omega) hle hsize).mpr
                ⟨hann, hfault⟩
              refine ⟨off + 16, .next (more_iff.mpr hle) ha .start,
                RecordLoop.not_soundAt_of_end ?_ ?_⟩
              · exact Bool.eq_false_iff.mpr fun hmore => absurd (more_iff.mp hmore) (by omega)
              · omega
  -- a good record is read, and the defect is behind it
  | cons record records ih =>
      have hrecord := hcut.accepted record List.mem_cons_self
      have heq := hcut.eq_append
      rw [List.flatten_cons, List.append_assoc] at heq
      have hlen := congrArg List.length heq
      rw [hdrop, List.length_append] at hlen
      have hge : 8 ≤ record.length := by
        rcases hrecord.length_eq_or with h | h <;> omega
      have hle : off + 8 ≤ input.length := by omega
      by_cases hbig : 2 ^ 31 ≤ off
      · exact ⟨off, .start, RecordLoop.not_soundAt_of_error (more_iff.mpr hle)
          (deserializeOne_of_ge hbig (by omega))⟩
      · have hann : Announces (input.drop off) record.length := by
          rw [heq]
          exact (Announces.append_iff (by omega)).mpr hrecord
        obtain ⟨a, ha⟩ := (@one_some_iff (.ofBytes input) off _ (by omega) hle hsize).mpr
          ⟨hann, hann.not_faulty (by rw [hdrop]; omega)⟩
        have htail : Cut (input.drop (off + record.length)) records rest := by
          refine ⟨fun r hr => hcut.accepted r (List.mem_cons_of_mem _ hr), ?_⟩
          rw [← List.drop_drop, heq, List.drop_left]
        rw [List.flatten_cons, List.length_append, ← Nat.add_assoc] at hdef
        obtain ⟨off', hreach, hbad⟩ := ih htail
          (by rcases hrecord.length_eq_or with h | h <;> omega) hdef
        exact ⟨off', .next (more_iff.mpr hle) ha hreach, hbad⟩

/-- Without a defect, every cursor of the loop is sound. -/
theorem soundAt_of_no_defect (hinput : 8 ≤ input.length)
    (h : ∀ records rest, Cut input records rest → ¬ Defect records.flatten.length rest) {off : Nat}
    (hreach : (deserializeLoop (.ofBytes input)).Reaches 0 off) :
    (deserializeLoop (.ofBytes input)).SoundAt (· = input.length) off := by
  rcases reaches_cut hreach (Nat.zero_le _) with ⟨records, hcut, hoff, hle⟩ | ⟨records, rest, hcut, hdef⟩
  · rw [Nat.zero_add] at hoff
    rw [List.drop_zero] at hcut
    have hno : ¬ Defect off (input.drop off) := by
      rw [hoff] at hcut ⊢
      exact h records _ hcut
    have hlen : (input.drop off).length = input.length - off := List.length_drop
    cases hmore : (deserializeLoop (.ofBytes input)).more off with
    | true =>
        have hle8 := more_iff.mp hmore
        rw [RecordLoop.SoundAt, if_pos hmore]
        intro e he
        by_cases hbig : 2 ^ 31 ≤ off
        · exact hno (.inr ⟨by omega, .inl hbig⟩)
        · have hfault : Faulty (input.drop off) :=
            (@one_fault_iff (.ofBytes input) off (by omega) hle8 (Nat.le_refl _)).mp ⟨e, he⟩
          rcases hfault.vendor_or_short (by omega) with hvendor | hshort
          · exact hno (.inr ⟨by omega, .inr (.inl hvendor)⟩)
          · exact hno (.inr ⟨by omega, .inr (.inr hshort)⟩)
    | false =>
        have hnot : ¬ off + 8 ≤ input.length := fun hle8 => by
          rw [more_iff.mpr hle8] at hmore
          cases hmore
        rw [RecordLoop.SoundAt, if_neg (by simp [hmore])]
        by_contra hne
        exact hno (.inl ⟨by omega, by omega, by omega⟩)
  · rw [Nat.zero_add] at hdef
    exact absurd hdef (h records rest hcut)

end Loop

/-- What is too short for a record is turned down, and an empty list is accepted. -/
theorem decodesSafely_of_short {input : Bytes} (h : input.length < 8) : DecodesSafely input := by
  unfold DecodesSafely OpenflowActionList.deserialize
  by_cases hzero : input.length = 0
  · have hsize : (Autobuf.ofBytes input).size = 0 := hzero
    rw [if_pos hsize]
    refine .inr ⟨⟨[]⟩, by rw [hzero], [], by simp, ?_⟩
    exact List.length_eq_zero_iff.mp hzero
  · have hsize : (Autobuf.ofBytes input).size ≠ 0 := hzero
    have hlt : (Autobuf.ofBytes input).size < 8 := h
    rw [if_neg hsize, if_pos hlt]
    exact .inl rfl

/-- No defect shows in what is too short for a record. -/
theorem not_defect_of_short {input rest : Bytes} {records : List Bytes} (h : input.length < 8)
    (hcut : Cut input records rest) : ¬ Defect records.flatten.length rest := by
  have hlen := congrArg List.length hcut.eq_append
  rw [List.length_append] at hlen
  cases records with
  | nil =>
      intro hdef
      rcases hdef with ⟨hpos, _⟩ | ⟨hge, _⟩
      · exact absurd hpos (Nat.lt_irrefl 0)
      · omega
  | cons record records =>
      rw [List.flatten_cons, List.length_append] at hlen
      rcases (hcut.accepted record List.mem_cons_self).length_eq_or with h8 | h16 <;> omega

/--
**When the decoder of action lists is safe.** It is, exactly if no cut of the bytes
into accepted records and a rest shows a defect: one to seven bytes behind a
record, a vendor action, a record of 16 bytes cut short, or any record 2 GiB into
the list.
-/
theorem decodesSafely_iff (input : Bytes) :
    DecodesSafely input ↔
      ∀ records rest, Cut input records rest → ¬ Defect records.flatten.length rest := by
  by_cases hinput : 8 ≤ input.length
  · have hrun := deserialize_eq_run (.inr hinput)
    refine ⟨?_, ?_⟩
    · intro hsafe records rest hcut hdef
      have hsound : (deserializeLoop (.ofBytes input)).Sound (· = input.length) 0 := by
        rcases hsafe with hnone | ⟨l, hsome, _⟩
        · rw [hrun] at hnone
          cases hloop : (deserializeLoop (.ofBytes input)).run 0 with
          | error e =>
              rw [hloop] at hnone
              cases hnone
          | ok r =>
              rw [hloop] at hnone
              cases r with
              | none => exact .inl hloop
              | some r => cases hnone
        · rw [hrun] at hsome
          obtain ⟨⟨items, off⟩, hloop, heq⟩ := map_eq_some.mp hsome
          cases heq
          exact .inr ⟨items, _, hloop, rfl⟩
      rw [← Nat.zero_add records.flatten.length] at hdef
      obtain ⟨off, hreach, hbad⟩ := exists_unsound_of_defect
        (show Cut (input.drop 0) records rest from hcut) (by omega) hdef
      exact hbad (RecordLoop.sound_iff.mp hsound off hreach)
    · intro h
      have hsound : (deserializeLoop (.ofBytes input)).Sound (· = input.length) 0 :=
        RecordLoop.sound_iff.mpr fun off hreach => soundAt_of_no_defect hinput h hreach
      unfold DecodesSafely
      rw [hrun]
      rcases hsound with hnone | ⟨items, off, hsome, hgood⟩
      · rw [hnone]
        exact .inl rfl
      · rw [hsome, hgood]
        obtain ⟨hreads, _⟩ := RecordLoop.run_eq_some_iff.mp hsome
        rcases reaches_cut ⟨items, hreads⟩ (Nat.zero_le _) with ⟨records, hcut, _⟩ |
          ⟨records, rest, hcut, hdef⟩
        · refine .inr ⟨⟨items⟩, rfl, records, fun r hr => (hcut.accepted r hr).wellFormed, ?_⟩
          have heq := hcut.eq_append
          rwa [hgood, List.drop_length, List.append_nil, List.drop_zero] at heq
        · rw [Nat.zero_add] at hdef
          exact absurd hdef (h records rest hcut)
  · have hshort := Nat.lt_of_not_le hinput
    exact ⟨fun _ records rest hcut => not_defect_of_short hshort hcut,
      fun _ => decodesSafely_of_short hshort⟩

/-- The first half of an enqueue action is read as if the second half were there. -/
theorem half_enqueue_overread : ¬ ∀ input, DecodesSafely input := by
  intro h
  have hrun : (deserializeLoop (.ofBytes [0, 11, 0, 16, 0, 1, 0, 0])).run 0 = .error .outOfBounds :=
    RecordLoop.run_of_error (by decide) (by decide)
  have hread : OpenflowActionList.deserialize (.ofBytes [0, 11, 0, 16, 0, 1, 0, 0]) =
      .error .outOfBounds := by
    rw [deserialize_eq_run (.inr (by decide)), hrun]
    rfl
  rcases h [0, 11, 0, 16, 0, 1, 0, 0] with hnone | ⟨l, hsome, _⟩
  · rw [hread] at hnone
    cases hnone
  · rw [hread] at hsome
    cases hsome

end IronStack.Proof
