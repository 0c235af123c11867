import IronStack.OpenFlow.Message
import IronStack.Proof.ActionBounds

/-!
# What the decoders of statistics read

A record of a fixed size is read within its size, except for the name of a table,
which is read up to a terminator wherever that is. A record of a flow is read as
far as the walk over its actions goes, which may be beyond its own length.
-/

namespace IronStack.Proof

open IronStack Lib

/-! ## Records of a fixed size -/

theorem answers_port {input : Bytes} {off : Nat} (h : off + 48 ≤ input.length) :
    Answers (OpenflowPort.set input off) := by
  unfold OpenflowPort.set
  refine (answers_readU16 (by omega)).bind fun _ => ?_
  refine (answers_readVec (by omega)).bind fun _ => ?_
  refine (answers_slice (by omega)).bind fun _ => ?_
  refine (answers_readU32 (by omega)).bind fun _ => ?_
  refine (answers_readU32 (by omega)).bind fun _ => ?_
  refine (answers_readU32 (by omega)).bind fun _ => ?_
  refine (answers_readU32 (by omega)).bind fun _ => ?_
  refine (answers_readU32 (by omega)).bind fun _ => ?_
  refine (answers_readU32 (by omega)).bind fun _ => ?_
  exact answers_ok _

/-- A match of 40 bytes is always decoded. -/
theorem exists_match {input : Bytes} (h : input.length = 40) :
    ∃ m, OfMatch.deserialize input = .ok (some m) := by
  unfold OfMatch.deserialize
  rw [if_neg (by rw [h]; decide)]
  refine (answers_readU16 (by omega)).bind_some fun _ => ?_
  refine (answers_readVec (by omega)).bind_some fun _ => ?_
  refine (answers_readVec (by omega)).bind_some fun _ => ?_
  refine (answers_readU16 (by omega)).bind_some fun _ => ?_
  refine (answers_readU8 (by omega)).bind_some fun _ => ?_
  refine (answers_readU16 (by omega)).bind_some fun _ => ?_
  refine (answers_readU8 (by omega)).bind_some fun _ => ?_
  refine (answers_readU8 (by omega)).bind_some fun _ => ?_
  refine (answers_readVec (by omega)).bind_some fun _ => ?_
  refine (answers_readVec (by omega)).bind_some fun _ => ?_
  refine (answers_readU16 (by omega)).bind_some fun _ => ?_
  refine (answers_readU16 (by omega)).bind_some fun _ => ?_
  refine (answers_readU32 (by omega)).bind_some fun _ => ?_
  exact ⟨_, rfl⟩

theorem answers_switchDescription {input : Autobuf} (h : input.size ≤ input.memory.length) :
    Answers (SwitchDescription.deserialize input) := by
  unfold SwitchDescription.deserialize
  split
  · exact answers_ok _
  · refine (answers_slice (by omega)).bind fun _ => ?_
    refine (answers_slice (by omega)).bind fun _ => ?_
    refine (answers_slice (by omega)).bind fun _ => ?_
    refine (answers_slice (by omega)).bind fun _ => ?_
    refine (answers_slice (by omega)).bind fun _ => ?_
    exact answers_ok _

theorem answers_aggregateStats {input : Autobuf} (h : input.size ≤ input.memory.length) :
    Answers (AggregateStats.deserialize input) := by
  unfold AggregateStats.deserialize
  split
  · exact answers_ok _
  · refine (answers_readU64 (by omega)).bind fun _ => ?_
    refine (answers_readU64 (by omega)).bind fun _ => ?_
    refine (answers_readU32 (by omega)).bind fun _ => ?_
    exact answers_ok _

theorem answers_queueStats {input : Autobuf} (h : input.size ≤ input.memory.length) :
    Answers (QueueStats.deserialize input) := by
  unfold QueueStats.deserialize
  split
  · exact answers_ok _
  · refine (answers_readU16 (by omega)).bind fun _ => ?_
    refine (answers_readU32 (by omega)).bind fun _ => ?_
    refine (answers_readU64 (by omega)).bind fun _ => ?_
    refine (answers_readU64 (by omega)).bind fun _ => ?_
    refine (answers_readU64 (by omega)).bind fun _ => ?_
    exact answers_ok _

theorem answers_portStats {input : Autobuf} (h : input.size ≤ input.memory.length) :
    Answers (PortStats.deserialize input) := by
  have hcounter : 104 ≤ input.size → ∀ off, off + 8 ≤ 104 → Answers (readU64 input.memory off) :=
    fun hge off hle => answers_readU64 (by omega)
  unfold PortStats.deserialize
  split
  · exact answers_ok _
  · have hcounter := hcounter (by omega)
    refine (answers_readU16 (by omega)).bind fun _ => ?_
    refine (hcounter 8 (by decide)).bind fun _ => ?_
    refine (hcounter 16 (by decide)).bind fun _ => ?_
    refine (hcounter 24 (by decide)).bind fun _ => ?_
    refine (hcounter 32 (by decide)).bind fun _ => ?_
    refine (hcounter 40 (by decide)).bind fun _ => ?_
    refine (hcounter 48 (by decide)).bind fun _ => ?_
    refine (hcounter 56 (by decide)).bind fun _ => ?_
    refine (hcounter 64 (by decide)).bind fun _ => ?_
    refine (hcounter 72 (by decide)).bind fun _ => ?_
    refine (hcounter 80 (by decide)).bind fun _ => ?_
    refine (hcounter 88 (by decide)).bind fun _ => ?_
    refine (hcounter 96 (by decide)).bind fun _ => ?_
    exact answers_ok _

/-- A table is decoded if its name ends somewhere in the memory. -/
theorem tableStats_some {input : Autobuf} (hsize : 64 ≤ input.size)
    (h : input.size ≤ input.memory.length) (hname : (0 : UInt8) ∈ input.memory.drop 4) :
    ∃ stats, TableStats.deserialize input = .ok (some stats) := by
  unfold TableStats.deserialize readCString
  rw [if_neg (by omega), if_pos hname]
  refine (answers_readU8 (by omega)).bind_some fun _ => ?_
  refine (answers_readU32 (by omega)).bind_some fun _ => ?_
  refine (answers_ok _).bind_some fun _ => ?_
  refine (answers_readU32 (by omega)).bind_some fun _ => ?_
  refine (answers_readU32 (by omega)).bind_some fun _ => ?_
  refine (answers_readU64 (by omega)).bind_some fun _ => ?_
  refine (answers_readU64 (by omega)).bind_some fun _ => ?_
  exact ⟨_, rfl⟩

/-- A table whose name does not end is read to the end of the memory, and beyond. -/
theorem tableStats_fault {input : Autobuf} (hsize : 64 ≤ input.size)
    (h : input.size ≤ input.memory.length) (hname : (0 : UInt8) ∉ input.memory.drop 4) :
    TableStats.deserialize input = .error .outOfBounds := by
  unfold TableStats.deserialize readCString
  rw [if_neg (by omega), if_neg hname]
  refine (answers_readU8 (by omega)).bind_error fun _ => ?_
  exact (answers_readU32 (by omega)).bind_error fun _ => rfl

/-! ## Arrays of them -/

section FixedLoop

variable {α : Type} {size : Nat} {hsize : 0 < size} {decode : Autobuf → Read (Option α)} {body : Bytes}

theorem fixedLoop_more_iff {off : Nat} :
    (fixedLoop size hsize decode (.ofBytes body)).more off = true ↔ off < body.length :=
  decide_eq_true_iff

/-- Inside the array a record is decoded from the memory that is left. -/
theorem deserializeFixed_of_le {off : Nat} (hle : off + size ≤ body.length)
    (hbig : body.length < 2 ^ 31) :
    deserializeFixed size decode (.ofBytes body) off =
      (decode ⟨body.drop off, size⟩).map (Option.map fun stats => (stats, size)) := by
  have hptr : (Autobuf.ofBytes body).ptrOffsetConst off = .ok (body.drop off) := by
    unfold Autobuf.ptrOffsetConst
    rw [asInt_of_lt (by omega), if_neg (by omega)]
    rfl
  have hsize : ¬ (Autobuf.ofBytes body).size - off < size := by
    simp only [Autobuf.ofBytes]
    omega
  rw [deserializeFixed, if_neg hsize, hptr, ok_bind]
  cases decode ⟨body.drop off, size⟩ with
  | error e => rfl
  | ok r => rfl

theorem deserializeFixed_of_gt {off : Nat} (hgt : body.length < off + size) (hoff : off < body.length) :
    deserializeFixed size decode (.ofBytes body) off = .ok none := by
  have hsize : (Autobuf.ofBytes body).size - off < size := by
    simp only [Autobuf.ofBytes]
    omega
  rw [deserializeFixed, if_pos hsize]

/-- The loop over an array faults at a whole record inside it, if it does. -/
theorem fixedLoop_error_iff (hbig : body.length < 2 ^ 31) :
    (∃ e, (fixedLoop size hsize decode (.ofBytes body)).run 0 = .error e) ↔
      ∃ off, (fixedLoop size hsize decode (.ofBytes body)).Reaches 0 off ∧
        off + size ≤ body.length ∧ ∃ e, decode ⟨body.drop off, size⟩ = .error e := by
  rw [RecordLoop.run_error_iff]
  refine exists_congr fun off => and_congr_right fun _ => ?_
  rw [fixedLoop_more_iff]
  refine ⟨?_, ?_⟩
  · intro ⟨hoff, e, he⟩
    have hone : deserializeFixed size decode (.ofBytes body) off = .error e := he
    by_cases hle : off + size ≤ body.length
    · rw [deserializeFixed_of_le hle hbig] at hone
      exact ⟨hle, e, map_eq_error.mp hone⟩
    · rw [deserializeFixed_of_gt (by omega) hoff] at hone
      cases hone
  · intro ⟨hle, e, he⟩
    refine ⟨by omega, e, ?_⟩
    change deserializeFixed size decode (.ofBytes body) off = .error e
    rw [deserializeFixed_of_le hle hbig]
    exact map_eq_error.mpr he

theorem dvd_of_reaches {off : Nat}
    (h : (fixedLoop size hsize decode (.ofBytes body)).Reaches 0 off) : size ∣ off := by
  have key : ∀ {off off' : Nat} {items : List α},
      (fixedLoop size hsize decode (.ofBytes body)).Reads off items off' → size ∣ off → size ∣ off' := by
    intro off off' items hreads
    induction hreads with
    | nil => exact id
    | @cons off n item _ _ _ hone _ ih =>
        intro hdvd
        have hn : n = size := by
          change deserializeFixed size decode (.ofBytes body) off = _ at hone
          unfold deserializeFixed at hone
          split at hone
          · cases hone
          · obtain ⟨_, _, hone⟩ := bind_eq_ok.mp hone
            obtain ⟨stats, _, hone⟩ := bind_eq_ok.mp hone
            cases stats with
            | none => cases hone
            | some stats =>
                cases hone
                rfl
        rw [hn] at ih
        exact ih (Nat.dvd_add hdvd (Nat.dvd_refl size))
  obtain ⟨items, hreads⟩ := h
  exact key hreads (Nat.dvd_zero size)

end FixedLoop

/-- An array of records that are read within their size never faults. -/
theorem answers_fixedLoop {α : Type} {size : Nat} {hsize : 0 < size}
    {decode : Autobuf → Read (Option α)} {body : Bytes} (hbig : body.length < 2 ^ 31)
    (hdecode : ∀ input : Autobuf, input.size ≤ input.memory.length → Answers (decode input)) :
    Answers ((fixedLoop size hsize decode (.ofBytes body)).run 0) := by
  rw [answers_iff, fixedLoop_error_iff hbig]
  intro ⟨off, _, hle, herror⟩
  refine answers_iff.mp (hdecode ⟨body.drop off, size⟩ ?_) herror
  simp only [List.length_drop]
  omega

/-- Every whole record of an array of tables has a name that ends before the array does. -/
def TablesTerminated (body : Bytes) : Prop :=
  ∀ k, 64 * (k + 1) ≤ body.length → (0 : UInt8) ∈ body.drop (64 * k + 4)

/-- **When an array of tables is read**, or turned down: if the names of its records end. -/
theorem answers_tableLoop_iff {body : Bytes} {hsize : 0 < 64} (hbig : body.length < 2 ^ 31) :
    Answers ((fixedLoop 64 hsize TableStats.deserialize (.ofBytes body)).run 0) ↔
      TablesTerminated body := by
  rw [answers_iff, fixedLoop_error_iff hbig]
  refine ⟨?_, ?_⟩
  · intro hno k hk
    -- a table that is reached has a name that ends, and so the next one is reached
    have hnamed : ∀ j, 64 * (j + 1) ≤ body.length →
        (fixedLoop 64 hsize TableStats.deserialize (.ofBytes body)).Reaches 0 (64 * j) →
        (0 : UInt8) ∈ body.drop (64 * j + 4) := by
      intro j hj hreach
      by_contra hname
      refine hno ⟨64 * j, hreach, by omega, .outOfBounds, tableStats_fault (Nat.le_refl _) ?_ ?_⟩
      · simp only [List.length_drop]
        omega
      · rwa [List.drop_drop]
    have hreach : ∀ j, j ≤ k →
        (fixedLoop 64 hsize TableStats.deserialize (.ofBytes body)).Reaches 0 (64 * j) := by
      intro j
      induction j with
      | zero => exact fun _ => .start
      | succ j ih =>
          intro hj
          have hbefore := ih (by omega)
          have hname := hnamed j (by omega) hbefore
          have hmem : (⟨body.drop (64 * j), 64⟩ : Autobuf).size ≤
              (⟨body.drop (64 * j), 64⟩ : Autobuf).memory.length := by
            simp only [List.length_drop]
            omega
          obtain ⟨stats, hstats⟩ := tableStats_some (Nat.le_refl _) hmem (by rwa [List.drop_drop])
          have hlt : 64 * j < body.length := by omega
          have hone : deserializeFixed 64 TableStats.deserialize (.ofBytes body) (64 * j) =
              .ok (some (stats, 64)) := by
            rw [deserializeFixed_of_le (by omega) hbig, hstats]
            rfl
          exact hbefore.snoc (fixedLoop_more_iff.mpr hlt) hone
    exact hnamed k hk (hreach k (Nat.le_refl k))
  · intro hterm ⟨off, hreach, hle, e, he⟩
    obtain ⟨k, rfl⟩ := dvd_of_reaches hreach
    have hmem : (⟨body.drop (64 * k), 64⟩ : Autobuf).size ≤
        (⟨body.drop (64 * k), 64⟩ : Autobuf).memory.length := by
      simp only [List.length_drop]
      omega
    obtain ⟨stats, hstats⟩ := tableStats_some (Nat.le_refl _) hmem
      (by rw [List.drop_drop]; exact hterm k (by omega))
    rw [hstats] at he
    cases he

/-! ## Flows -/

/-- There is a whole record of a flow at an offset, and this is its length. -/
structure FlowAt (body : Bytes) (off len : Nat) : Prop where
  fixed : off + 88 ≤ body.length
  length_eq : ∃ l : UInt16, readU16 (body.drop off) 0 = .ok l ∧ l.toNat = len
  fixed_le : 88 ≤ len
  fits : off + len ≤ body.length

/-- The offsets of the flows that are read, one behind the other. -/
inductive FlowWalk (body : Bytes) : Nat → Nat → Prop
  | here {off} : FlowWalk body off off
  | step {off len off'} (hflow : FlowAt body off len)
      (hactions : ActionsTaken (body.drop (off + 88)) (len - 88))
      (htail : FlowWalk body (off + len) off') : FlowWalk body off off'

/-- No flow that is come to has actions that fault. -/
def FlowsReadable (body : Bytes) : Prop :=
  ∀ off len, FlowWalk body 0 off → FlowAt body off len →
    ¬ ActionsFault (body.drop (off + 88)) (len - 88)

section Flows

variable {body : Bytes} {off : Nat}

theorem flowLoop_more_iff : (flowLoop (.ofBytes body)).more off = true ↔ off < body.length :=
  decide_eq_true_iff

theorem ptrOffsetConst_ofBytes (hbig : body.length < 2 ^ 31) (hoff : off < body.length) :
    (Autobuf.ofBytes body).ptrOffsetConst off = .ok (body.drop off) := by
  unfold Autobuf.ptrOffsetConst
  rw [asInt_of_lt (by omega), if_neg (by omega)]
  rfl

/-- What is no whole record of a flow is turned down. -/
theorem deserializeFlow_of_not_flowAt (hbig : body.length < 2 ^ 31) (hoff : off < body.length)
    (h : ∀ len, ¬ FlowAt body off len) : deserializeFlow (.ofBytes body) off = .ok none := by
  have hsize : (Autobuf.ofBytes body).size = body.length := rfl
  have hdrop : (body.drop off).length = body.length - off := List.length_drop
  unfold deserializeFlow
  rw [hsize]
  split
  · rfl
  · obtain ⟨len, hlen⟩ := exists_readU16 (show 0 + 2 ≤ (body.drop off).length by omega)
    rw [ptrOffsetConst_ofBytes hbig hoff, ok_bind, hlen, ok_bind]
    split
    · rfl
    · by_cases hshort : len.toNat < 88
      · have hnone : FlowDescriptionAndStats.deserialize ⟨body.drop off, len.toNat⟩ = .ok none :=
          if_pos hshort
        rw [hnone]
        rfl
      · exact absurd ⟨by omega, ⟨len, hlen, rfl⟩, by omega, by omega⟩ (h len.toNat)

/-- The fixed part of a flow is always there, and what becomes of it depends on its actions. -/
theorem deserialize_flow {memory : Bytes} {len : UInt16} (hlen : readU16 memory 0 = .ok len)
    (hge : 88 ≤ len.toNat) (hmem : 88 ≤ memory.length) :
    ∃ f : OpenflowActionList × Nat → FlowDescriptionAndStats,
      FlowDescriptionAndStats.deserialize ⟨memory, len.toNat⟩ =
        (OpenflowActionList.deserialize ⟨memory.drop 88, len.toNat - 88⟩).map (Option.map f) := by
  obtain ⟨tableId, htable⟩ := answers_readU8 (show 2 + 1 ≤ memory.length by omega)
  obtain ⟨criteria, hmatch⟩ := exists_match
    (show ((memory.drop 4).take 40).length = 40 by rw [List.length_take, List.length_drop]; omega)
  obtain ⟨sec, hsec⟩ := answers_readU32 (show 44 + 4 ≤ memory.length by omega)
  obtain ⟨nsec, hnsec⟩ := answers_readU32 (show 48 + 4 ≤ memory.length by omega)
  obtain ⟨priority, hpriority⟩ := answers_readU16 (show 52 + 2 ≤ memory.length by omega)
  obtain ⟨idle, hidle⟩ := answers_readU16 (show 54 + 2 ≤ memory.length by omega)
  obtain ⟨hard, hhard⟩ := answers_readU16 (show 56 + 2 ≤ memory.length by omega)
  obtain ⟨cookie, hcookie⟩ := answers_readU64 (show 64 + 8 ≤ memory.length by omega)
  obtain ⟨packets, hpackets⟩ := answers_readU64 (show 72 + 8 ≤ memory.length by omega)
  obtain ⟨bytes, hbytes⟩ := answers_readU64 (show 80 + 8 ≤ memory.length by omega)
  have hactions : subU32 len.toNat 88 = len.toNat - 88 := by
    have hlt := UInt16.toNat_lt len
    exact subU32_of_le hge (by omega)
  refine ⟨fun r => ⟨⟨criteria, r.1, cookie, priority⟩, tableId, sec, nsec, idle, hard, packets,
    bytes⟩, ?_⟩
  unfold FlowDescriptionAndStats.deserialize
  rw [if_neg (by simpa using hge)]
  simp only [hlen, htable, hmatch, hsec, hnsec, hpriority, hidle, hhard, hcookie, hpackets, hbytes,
    hactions, ok_bind]
  cases OpenflowActionList.deserialize ⟨memory.drop 88, len.toNat - 88⟩ with
  | error e => rfl
  | ok r =>
      cases r with
      | none => rfl
      | some r => rfl

/-- A flow is read as its actions are. -/
theorem deserializeFlow_of_flowAt {len : Nat} (hbig : body.length < 2 ^ 31)
    (h : FlowAt body off len) :
    ∃ f : OpenflowActionList × Nat → FlowDescriptionAndStats, deserializeFlow (.ofBytes body) off =
      (OpenflowActionList.deserialize ⟨body.drop (off + 88), len - 88⟩).map
        (Option.map fun r => (f r, len)) := by
  obtain ⟨l, hl, rfl⟩ := h.length_eq
  have hfixed := h.fixed
  have hfits := h.fits
  have hsize : (Autobuf.ofBytes body).size = body.length := rfl
  obtain ⟨f, hf⟩ := deserialize_flow hl h.fixed_le (by rw [List.length_drop]; omega)
  refine ⟨f, ?_⟩
  rw [List.drop_drop] at hf
  unfold deserializeFlow
  rw [hsize, if_neg (by omega), ptrOffsetConst_ofBytes hbig (by omega), ok_bind, hl, ok_bind,
    if_neg (by omega), hf]
  cases OpenflowActionList.deserialize ⟨body.drop (off + 88), l.toNat - 88⟩ with
  | error e => rfl
  | ok r =>
      cases r with
      | none => rfl
      | some r => rfl

/-- What is behind the fixed part of a flow is a list of actions in a larger memory. -/
theorem FlowAt.actions_le {len : Nat} (h : FlowAt body off len) :
    len - 88 ≤ (body.drop (off + 88)).length := by
  have hfits := h.fits
  rw [List.length_drop]
  omega

theorem flow_fault_iff {len : Nat} (hbig : body.length < 2 ^ 31) (h : FlowAt body off len) :
    (∃ e, deserializeFlow (.ofBytes body) off = .error e) ↔
      ActionsFault (body.drop (off + 88)) (len - 88) := by
  obtain ⟨f, hf⟩ := deserializeFlow_of_flowAt hbig h
  have hfits := h.fits
  have hactions := @actions_fault_iff ⟨body.drop (off + 88), len - 88⟩
    (show len - 88 < 2 ^ 31 by omega) h.actions_le
  rw [hf, ← hactions]
  simp only [map_eq_error]

theorem flow_some_iff {len n : Nat} (hbig : body.length < 2 ^ 31) (h : FlowAt body off len) :
    (∃ flow, deserializeFlow (.ofBytes body) off = .ok (some (flow, n))) ↔
      ActionsTaken (body.drop (off + 88)) (len - 88) ∧ n = len := by
  obtain ⟨f, hf⟩ := deserializeFlow_of_flowAt hbig h
  have hfits := h.fits
  have hactions := @actions_taken_iff ⟨body.drop (off + 88), len - 88⟩
    (show len - 88 < 2 ^ 31 by omega) h.actions_le
  rw [hf, ← hactions]
  simp only [map_eq_some]
  refine ⟨?_, ?_⟩
  · intro ⟨flow, r, hr, heq⟩
    cases heq
    exact ⟨⟨r, hr⟩, rfl⟩
  · intro ⟨⟨r, hr⟩, hn⟩
    exact ⟨f r, r, hr, by rw [hn]⟩

theorem flow_reaches_iff_walk {off' : Nat} (hbig : body.length < 2 ^ 31) :
    (flowLoop (.ofBytes body)).Reaches off off' ↔ FlowWalk body off off' := by
  refine ⟨?_, ?_⟩
  · intro ⟨items, hreads⟩
    induction hreads with
    | nil => exact .here
    | @cons off n flow _ _ hmore hone _ ih =>
        have hoff := flowLoop_more_iff.mp hmore
        by_cases hflow : ∃ len, FlowAt body off len
        · obtain ⟨len, hflow⟩ := hflow
          obtain ⟨htaken, rfl⟩ := (flow_some_iff hbig hflow).mp ⟨flow, hone⟩
          exact .step hflow htaken ih
        · have hnone := deserializeFlow_of_not_flowAt hbig hoff fun len h => hflow ⟨len, h⟩
          have hsome : deserializeFlow (.ofBytes body) off = .ok (some (flow, n)) := hone
          rw [hnone] at hsome
          cases hsome
  · intro hwalk
    induction hwalk with
    | here => exact .start
    | step hflow htaken _ ih =>
        have hfixed := hflow.fixed
        obtain ⟨flow, hone⟩ := (flow_some_iff hbig hflow).mpr ⟨htaken, rfl⟩
        exact .next (flowLoop_more_iff.mpr (by omega)) hone ih

/-- **When an array of flows is read**, or turned down. -/
theorem answers_flowLoop_iff (hbig : body.length < 2 ^ 31) :
    Answers ((flowLoop (.ofBytes body)).run 0) ↔ FlowsReadable body := by
  rw [answers_iff, RecordLoop.run_error_iff]
  refine ⟨?_, ?_⟩
  · intro hno off len hwalk hflow hfault
    have hfixed := hflow.fixed
    exact hno ⟨off, (flow_reaches_iff_walk hbig).mpr hwalk, flowLoop_more_iff.mpr (by omega),
      (flow_fault_iff hbig hflow).mpr hfault⟩
  · intro hreadable ⟨off, hreach, hmore, e, he⟩
    have hoff := flowLoop_more_iff.mp hmore
    have herror : deserializeFlow (.ofBytes body) off = .error e := he
    by_cases hflow : ∃ len, FlowAt body off len
    · obtain ⟨len, hflow⟩ := hflow
      exact hreadable off len ((flow_reaches_iff_walk hbig).mp hreach) hflow
        ((flow_fault_iff hbig hflow).mp ⟨e, he⟩)
    · rw [deserializeFlow_of_not_flowAt hbig hoff fun len h => hflow ⟨len, h⟩] at herror
      cases herror

end Flows

end IronStack.Proof
