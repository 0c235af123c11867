import IronStack.OpenFlow.ActionCodec

/-!
# What survives the wire of an action list

A list of actions comes back as it was sent, record by record, but for three
kinds of actions. The decoders of the network addresses and of the TCP and UDP
ports turn every record down. An output to the controller is told from the port
number it is sent with, so that the flag and the number have to agree. And a
vendor action cannot be sent at all.
-/

namespace IronStack.Proof

open IronStack Lib OfAction OpenflowActionList

/-! ## One record -/

/-- An action that is read as it was written. -/
def Survives : OfAction → Prop
  | .outputToPort sendToController port => sendToController = (port == ofppController)
  | .setIpAddress _ _ | .setTcpudpPort _ _ | .vendor _ _ => False
  | _ => True

instance : DecidablePred Survives := fun a => by
  cases a <;> unfold Survives <;> infer_instance

@[simp] theorem length_untouched (junk : Nat → UInt8) (off n : Nat) :
    (untouched junk off n).length = n := by
  simp [untouched]

/-- A record has the size that its action announces, which is no more than 16 bytes. -/
theorem length_record {junk : Nat → UInt8} {a : OfAction} {record : Bytes}
    (h : a.serialize junk = .ok record) :
    record.length = a.getDeserializationSize ∧ 8 ≤ record.length ∧ record.length ≤ 16 := by
  cases a with
  | vendor _ _ => cases h
  | _ =>
      cases h
      simp [getDeserializationSize]

theorem deserialize_header (type : UInt16) (rest : Bytes) (n : Nat) :
    OfAction.deserialize ⟨be16 type ++ rest, n⟩ =
      deserializeAs (actionTypeOf type) ⟨be16 type ++ rest, n⟩ := by
  simp [OfAction.deserialize, inferType]

/-- What the decoder for a type makes of a record whose header says `type` and `len`. -/
theorem deserialize_eq_decoder {type len : UInt16} {rest : Bytes} {n size : Nat}
    {accepts : UInt16 → Bool} {fields : Bytes → Read OfAction}
    (decoder : Autobuf → Read (Option OfAction))
    (htype : ∀ content, deserializeAs (actionTypeOf type) content = decoder content)
    (hdecoder : ∀ content, decoder content = deserializeRecord content accepts size fields)
    (hn : 8 ≤ n) :
    OfAction.deserialize ⟨be16 type ++ (be16 len ++ rest), n⟩ =
      if accepts type && len.toNat == size then
        (fields (be16 type ++ (be16 len ++ rest))).map some
      else .ok none := by
  have hlen : readU16 (be16 type ++ (be16 len ++ rest)) 2 = .ok len := by
    rw [readU16_append_right (by simp)]
    simp
  rw [deserialize_header, htype, hdecoder, deserializeRecord, if_neg (Nat.not_lt.mpr hn)]
  simp only [readU16_be16, hlen, ok_bind]
  cases haccepts : accepts type with
  | false => simp
  | true =>
      by_cases hsize : len.toNat = size
      · simp only [hsize, beq_self_eq_true, bne_self_eq_false, Bool.not_true, Bool.or_self,
          Bool.and_self, if_true]
        rfl
      · simp [hsize]

/-- A record that the decoder for its type takes. -/
theorem deserialize_of_decoder {type len : UInt16} {rest : Bytes} {n size : Nat}
    {accepts : UInt16 → Bool} {fields : Bytes → Read OfAction} {a : OfAction}
    (decoder : Autobuf → Read (Option OfAction))
    (htype : ∀ content, deserializeAs (actionTypeOf type) content = decoder content)
    (hdecoder : ∀ content, decoder content = deserializeRecord content accepts size fields)
    (hn : 8 ≤ n) (haccepts : accepts type = true) (hlen : len.toNat = size)
    (hfields : fields (be16 type ++ (be16 len ++ rest)) = .ok a) :
    OfAction.deserialize ⟨be16 type ++ (be16 len ++ rest), n⟩ = .ok (some a) := by
  rw [deserialize_eq_decoder decoder htype hdecoder hn, haccepts, hlen, hfields]
  simp [Except.map]

/-- **An action that survives is read as it was written**, whatever is behind it. -/
theorem deserialize_record {junk : Nat → UInt8} {a : OfAction} (ha : Survives a) {record : Bytes}
    (h : a.serialize junk = .ok record) (rest : Bytes) {n : Nat} (hn : 8 ≤ n) :
    OfAction.deserialize ⟨record ++ rest, n⟩ = .ok (some a) := by
  cases a with
  | outputToPort sendToController port =>
      cases h
      -- the port that stands for the controller is written for the flag, and read back as the flag
      have hport : (if sendToController = true then ofppController else port) = port := by
        cases sendToController with
        | false => rfl
        | true => exact (beq_iff_eq.mp ha.symm).symm
      have ha' : (port == ofppController) = sendToController := ha.symm
      simp only [hport, List.append_assoc]
      refine deserialize_of_decoder deserializeOutputToPort (fun _ => rfl) (fun _ => rfl) hn ?_ ?_ ?_
      · rfl
      · rfl
      · simp (disch := simp) [readU16_append_right, ha']
  | enqueue port queueId =>
      cases h
      simp only [List.append_assoc]
      refine deserialize_of_decoder deserializeEnqueue (fun _ => rfl) (fun _ => rfl) hn ?_ ?_ ?_
      · rfl
      · rfl
      · simp (disch := simp) [readU16_append_right, readU32_append_right]
  | setVlanId vlanId =>
      cases h
      simp only [List.append_assoc]
      refine deserialize_of_decoder deserializeSetVlanId (fun _ => rfl) (fun _ => rfl) hn ?_ ?_ ?_
      · rfl
      · rfl
      · simp (disch := simp) [readU16_append_right]
  | setVlanPcp vlanPcp =>
      cases h
      simp only [List.append_assoc]
      refine deserialize_of_decoder deserializeSetVlanPcp (fun _ => rfl) (fun _ => rfl) hn ?_ ?_ ?_
      · rfl
      · rfl
      · simp (disch := simp) [readU8_append_right]
  | stripVlan =>
      cases h
      simp only [List.append_assoc]
      refine deserialize_of_decoder deserializeStripVlan (fun _ => rfl) (fun _ => rfl) hn ?_ ?_ ?_
      · rfl
      · rfl
      · rfl
  | setMacAddress setSrc newAddr =>
      cases h
      simp only [List.append_assoc]
      cases setSrc with
      | false =>
          refine deserialize_of_decoder deserializeSetMacAddress (fun _ => rfl) (fun _ => rfl) hn ?_ ?_ ?_
          · rfl
          · rfl
          · simp (disch := simp) [readVec_append_right]
            decide
      | true =>
          refine deserialize_of_decoder deserializeSetMacAddress (fun _ => rfl) (fun _ => rfl) hn ?_ ?_ ?_
          · rfl
          · rfl
          · simp (disch := simp) [readVec_append_right]
  | setIpTypeOfService typeOfService =>
      cases h
      simp only [List.append_assoc]
      refine deserialize_of_decoder deserializeSetIpTypeOfService (fun _ => rfl) (fun _ => rfl) hn ?_ ?_ ?_
      · rfl
      · rfl
      · simp (disch := simp) [readU8_append_right]
  -- these have no decoder that reads them back
  | setIpAddress setSrc newAddr => exact ha.elim
  | setTcpudpPort setSrcPort port => exact ha.elim
  | vendor vendor request => exact ha.elim

/-- A record that the decoder for its type turns down. -/
theorem deserialize_of_rejects {type len : UInt16} {rest : Bytes} {n size : Nat}
    {accepts : UInt16 → Bool} {fields : Bytes → Read OfAction}
    (decoder : Autobuf → Read (Option OfAction))
    (htype : ∀ content, deserializeAs (actionTypeOf type) content = decoder content)
    (hdecoder : ∀ content, decoder content = deserializeRecord content accepts size fields)
    (hn : 8 ≤ n) (haccepts : accepts type = true → len.toNat ≠ size) :
    OfAction.deserialize ⟨be16 type ++ (be16 len ++ rest), n⟩ = .ok none := by
  rw [deserialize_eq_decoder decoder htype hdecoder hn]
  cases hyes : accepts type with
  | false => simp
  | true => simp [haccepts hyes]

/-- No record with a network address is taken: the misplaced parenthesis sees to that. -/
theorem deserialize_setIpAddress {type len : UInt16} {rest : Bytes} {n : Nat} (hn : 8 ≤ n)
    (htype : type = Ofpat.setNwSrc ∨ type = Ofpat.setNwDst) :
    OfAction.deserialize ⟨be16 type ++ (be16 len ++ rest), n⟩ = .ok none := by
  rcases htype with rfl | rfl
  · exact deserialize_of_rejects deserializeSetIpAddress (fun _ => rfl) (fun _ => rfl) hn
      nofun
  · exact deserialize_of_rejects deserializeSetIpAddress (fun _ => rfl) (fun _ => rfl) hn
      nofun

/-- Nor is one with a TCP or UDP port. -/
theorem deserialize_setTcpudpPort {type len : UInt16} {rest : Bytes} {n : Nat} (hn : 8 ≤ n)
    (htype : type = Ofpat.setTpSrc ∨ type = Ofpat.setTpDst) :
    OfAction.deserialize ⟨be16 type ++ (be16 len ++ rest), n⟩ = .ok none := by
  rcases htype with rfl | rfl
  · exact deserialize_of_rejects deserializeSetTcpudpPort (fun _ => rfl) (fun _ => rfl) hn
      nofun
  · exact deserialize_of_rejects deserializeSetTcpudpPort (fun _ => rfl) (fun _ => rfl) hn
      nofun

/-- An output is read back with the flag that its port number stands for. -/
theorem deserialize_output {junk : Nat → UInt8} {sendToController : Bool} {port : UInt16}
    {record : Bytes} (h : (outputToPort sendToController port).serialize junk = .ok record)
    (rest : Bytes) {n : Nat} (hn : 8 ≤ n) :
    ∃ port', OfAction.deserialize ⟨record ++ rest, n⟩ =
      .ok (some (.outputToPort (port' == ofppController) port')) := by
  let port' := if sendToController then ofppController else port
  have hsame : (outputToPort (port' == ofppController) port').serialize junk = .ok record := by
    rw [← h, OfAction.serialize, OfAction.serialize]
    by_cases hport : port' = ofppController
    · simp [hport, port']
    · simp [hport, port']
  have hsurvives : Survives (outputToPort (port' == ofppController) port') := rfl
  exact ⟨port', deserialize_record hsurvives hsame rest hn⟩

theorem deserialize_record_ne {junk : Nat → UInt8} {a : OfAction} (ha : ¬ Survives a)
    {record : Bytes} (h : a.serialize junk = .ok record) (rest : Bytes) {n : Nat} (hn : 8 ≤ n) :
    OfAction.deserialize ⟨record ++ rest, n⟩ ≠ .ok (some a) := by
  cases a with
  | outputToPort sendToController port =>
      intro hread
      obtain ⟨port', hout⟩ := deserialize_output h rest hn
      rw [hread] at hout
      cases hout
      exact ha rfl
  | setIpAddress setSrc newAddr =>
      cases h
      have htype : (if setSrc then Ofpat.setNwSrc else Ofpat.setNwDst) = Ofpat.setNwSrc ∨
          (if setSrc then Ofpat.setNwSrc else Ofpat.setNwDst) = Ofpat.setNwDst := by
        cases setSrc <;> simp
      simp only [List.append_assoc]
      rw [deserialize_setIpAddress hn htype]
      simp
  | setTcpudpPort setSrcPort port =>
      cases h
      have htype : (if setSrcPort then Ofpat.setTpSrc else Ofpat.setTpDst) = Ofpat.setTpSrc ∨
          (if setSrcPort then Ofpat.setTpSrc else Ofpat.setTpDst) = Ofpat.setTpDst := by
        cases setSrcPort <;> simp
      simp only [List.append_assoc]
      rw [deserialize_setTcpudpPort hn htype]
      simp
  | vendor vendor request => cases h
  | _ => exact absurd trivial ha

/-! ## The list -/

/-- The bytes of a list of actions. -/
def totalSize (actions : List OfAction) : Nat := (actions.map getDeserializationSize).sum

@[simp] theorem totalSize_cons (a : OfAction) (actions : List OfAction) :
    totalSize (a :: actions) = a.getDeserializationSize + totalSize actions := List.sum_cons

theorem ptrOffsetMutable_eq_ok_iff {contentSize offset : Nat} :
    ptrOffsetMutable contentSize offset = .ok () ↔
      0 ≤ asInt offset ∧ asInt offset < asInt contentSize := by
  unfold ptrOffsetMutable
  split
  · simp
    omega
  · simp
    omega

theorem serializeAt_cons_iff {junk : Nat → UInt8} {contentSize offset : Nat} {a : OfAction}
    {actions : List OfAction} {bytes : Bytes} :
    serializeAt junk contentSize offset (a :: actions) = .ok bytes ↔
      ptrOffsetMutable contentSize offset = .ok () ∧
        ∃ record rest, a.serialize (fun i => junk (offset + i)) = .ok record ∧
          serializeAt junk contentSize (offset + a.getDeserializationSize) actions = .ok rest ∧
          bytes = record ++ rest := by
  rw [serializeAt, bind_eq_ok]
  refine ⟨?_, ?_⟩
  · intro ⟨_, hptr, h⟩
    obtain ⟨record, hrecord, h⟩ := bind_eq_ok.mp h
    obtain ⟨rest, hrest, h⟩ := bind_eq_ok.mp h
    cases h
    exact ⟨hptr, record, rest, hrecord, hrest, rfl⟩
  · intro ⟨hptr, record, rest, hrecord, hrest, hbytes⟩
    refine ⟨(), hptr, bind_eq_ok.mpr ⟨record, hrecord, bind_eq_ok.mpr ⟨rest, hrest, ?_⟩⟩⟩
    rw [hbytes, pure_eq_ok]

theorem length_serializeAt {junk : Nat → UInt8} {contentSize offset : Nat} {actions : List OfAction}
    {bytes : Bytes} (h : serializeAt junk contentSize offset actions = .ok bytes) :
    bytes.length = totalSize actions := by
  induction actions generalizing offset bytes with
  | nil =>
      cases h
      rfl
  | cons a actions ih =>
      obtain ⟨_, record, rest, hrecord, hrest, rfl⟩ := serializeAt_cons_iff.mp h
      rw [List.length_append, (length_record hrecord).1, ih hrest, totalSize_cons]

/-- What was written is empty, or long enough for a record. -/
theorem length_eq_zero_or_ge {junk : Nat → UInt8} {contentSize offset : Nat}
    {actions : List OfAction} {bytes : Bytes}
    (h : serializeAt junk contentSize offset actions = .ok bytes) :
    bytes.length = 0 ∨ 8 ≤ bytes.length := by
  cases actions with
  | nil =>
      cases h
      exact .inl rfl
  | cons a actions =>
      obtain ⟨_, record, rest, hrecord, _, rfl⟩ := serializeAt_cons_iff.mp h
      have hge := (length_record hrecord).2.1
      rw [List.length_append]
      omega

/-- An action that can be written: any but a vendor's. -/
def Writable (a : OfAction) : Prop := ∀ id request, a ≠ .vendor id request

theorem Survives.writable {a : OfAction} (h : Survives a) : Writable a := by
  intro id request heq
  rw [heq] at h
  exact h

theorem writable_iff (junk : Nat → UInt8) (a : OfAction) :
    Writable a ↔ ∃ record, a.serialize junk = .ok record := by
  refine ⟨?_, ?_⟩
  · intro h
    cases a with
    | vendor id request => exact absurd rfl (h id request)
    | _ => exact ⟨_, rfl⟩
  · intro ⟨record, hrecord⟩ id request heq
    rw [heq] at hrecord
    cases hrecord

/-- A list that fits is written, if there is no vendor action in it. -/
theorem exists_serializeAt (junk : Nat → UInt8) {contentSize offset : Nat} {actions : List OfAction}
    (hactions : ∀ a ∈ actions, Writable a) (hsize : offset + totalSize actions = contentSize)
    (hlt : contentSize < 2 ^ 31) : ∃ bytes, serializeAt junk contentSize offset actions = .ok bytes := by
  induction actions generalizing offset with
  | nil => exact ⟨[], rfl⟩
  | cons a actions ih =>
      obtain ⟨rest, hrest⟩ := @ih (offset + a.getDeserializationSize)
        (fun b hb => hactions b (List.mem_cons_of_mem _ hb)) (by rw [← hsize, totalSize_cons]; omega)
      have hpos := a.getDeserializationSize_pos
      have hptr : ptrOffsetMutable contentSize offset = .ok () := by
        rw [totalSize_cons] at hsize
        rw [ptrOffsetMutable_eq_ok_iff, asInt_of_lt (by omega), asInt_of_lt hlt]
        omega
      obtain ⟨record, hrecord⟩ := (writable_iff _ a).mp (hactions a List.mem_cons_self)
      exact ⟨record ++ rest, serializeAt_cons_iff.mpr ⟨hptr, record, rest, hrecord, hrest, rfl⟩⟩

theorem writable_of_serializeAt {junk : Nat → UInt8} {contentSize offset : Nat}
    {actions : List OfAction} {bytes : Bytes}
    (h : serializeAt junk contentSize offset actions = .ok bytes) : ∀ a ∈ actions, Writable a := by
  induction actions generalizing offset bytes with
  | nil => simp
  | cons a actions ih =>
      obtain ⟨_, record, rest, hrecord, hrest, _⟩ := serializeAt_cons_iff.mp h
      intro b hb
      rcases List.mem_cons.mp hb with rfl | hb
      · exact (writable_iff _ _).mpr ⟨record, hrecord⟩
      · exact ih hrest b hb

/-- A list of 2 GiB or more is not written: some offset into it is a negative `int`. -/
theorem totalSize_lt_of_serializeAt {junk : Nat → UInt8} {contentSize offset : Nat}
    {actions : List OfAction} {bytes : Bytes} (hne : actions ≠ [])
    (hsize : contentSize = (offset + totalSize actions) % 2 ^ 32) (hlt : offset < 2 ^ 31)
    (h : serializeAt junk contentSize offset actions = .ok bytes) :
    offset + totalSize actions < 2 ^ 31 := by
  induction actions generalizing offset bytes with
  | nil => exact absurd rfl hne
  | cons a actions ih =>
      obtain ⟨hptr, record, rest, hrecord, hrest, _⟩ := serializeAt_cons_iff.mp h
      obtain ⟨_, hbound⟩ := ptrOffsetMutable_eq_ok_iff.mp hptr
      obtain ⟨hlen, _, hle⟩ := length_record hrecord
      rw [totalSize_cons, ← Nat.add_assoc] at hsize ⊢
      cases actions with
      | nil =>
          -- the size itself has to be a positive `int`
          by_contra hge
          rw [asInt_of_lt hlt] at hbound
          have hneg : asInt contentSize < 0 := asInt_neg (by simp [totalSize] at *; omega) (by omega)
          omega
      | cons b actions =>
          obtain ⟨hnext, _⟩ := serializeAt_cons_iff.mp hrest
          obtain ⟨hnonneg, _⟩ := ptrOffsetMutable_eq_ok_iff.mp hnext
          refine ih (by simp) hsize ?_ hrest
          by_contra hge
          have hneg := asInt_neg (v := offset + a.getDeserializationSize) (by omega) (by omega)
          omega

/-- One turn of the decoder's loop. -/
theorem deserializeOne_of_lt {buf : Autobuf} {off : Nat} (h : off < 2 ^ 31) :
    deserializeOne buf off =
      (OfAction.deserialize ⟨buf.memory.drop off, buf.size - off⟩).map
        (Option.map fun a => (a, a.getDeserializationSize)) := by
  have hptr : buf.ptrOffsetConst off = .ok (buf.memory.drop off) := by
    unfold Autobuf.ptrOffsetConst
    rw [asInt_of_lt h, if_neg (by omega)]
  rw [deserializeOne, hptr, ok_bind]
  cases OfAction.deserialize ⟨buf.memory.drop off, buf.size - off⟩ with
  | error e => rfl
  | ok a => rfl

/-- At 2 GiB the offset becomes a negative `int`. -/
theorem deserializeOne_of_ge {buf : Autobuf} {off : Nat} (h : 2 ^ 31 ≤ off) (hlt : off < 2 ^ 32) :
    deserializeOne buf off = .error .aborted := by
  have hptr : buf.ptrOffsetConst off = .error .aborted := if_pos (asInt_neg h hlt)
  rw [deserializeOne, hptr, error_bind]

theorem deserializeOne_append {before content : Bytes} {size : Nat} (h : before.length < 2 ^ 31) :
    deserializeOne ⟨before ++ content, size⟩ before.length =
      (OfAction.deserialize ⟨content, size - before.length⟩).map
        (Option.map fun a => (a, a.getDeserializationSize)) := by
  rw [deserializeOne_of_lt h, List.drop_left]

/-- The loop reads a list that was written, if every action of it survives. -/
theorem reads_serializeAt {junk : Nat → UInt8} {contentSize : Nat} {actions : List OfAction}
    (hactions : ∀ a ∈ actions, Survives a) (before : Bytes) {bytes : Bytes}
    (h : serializeAt junk contentSize before.length actions = .ok bytes)
    (hlt : (before ++ bytes).length < 2 ^ 31) :
    (deserializeLoop (.ofBytes (before ++ bytes))).Reads before.length actions
      (before ++ bytes).length := by
  induction actions generalizing before bytes with
  | nil =>
      cases h
      rw [List.append_nil]
      exact .nil
  | cons a actions ih =>
      obtain ⟨_, record, rest, hrecord, hrest, rfl⟩ := serializeAt_cons_iff.mp h
      obtain ⟨hlen, hge, _⟩ := length_record hrecord
      rw [List.length_append, List.length_append] at hlt
      have hbehind : before.length + a.getDeserializationSize = (before ++ record).length := by
        rw [List.length_append, hlen]
      refine .cons (n := a.getDeserializationSize) ?_ ?_ ?_
      · refine decide_eq_true ?_
        simp only [Autobuf.ofBytes, List.length_append]
        omega
      · have hread := deserialize_record (hactions a List.mem_cons_self) hrecord rest
          (n := (before ++ (record ++ rest)).length - before.length)
          (by simp only [List.length_append]; omega)
        change deserializeOne _ _ = _
        rw [Autobuf.ofBytes, deserializeOne_append (by omega), hread]
        rfl
      · rw [hbehind] at hrest ⊢
        rw [← List.append_assoc]
        exact ih (fun b hb => hactions b (List.mem_cons_of_mem _ hb)) _ hrest
          (by simp only [List.length_append]; omega)

/-- A list that is read as it was written consists of actions that survive. -/
theorem survives_of_reads {junk : Nat → UInt8} {contentSize : Nat} {actions : List OfAction}
    (before : Bytes) {bytes : Bytes}
    (h : serializeAt junk contentSize before.length actions = .ok bytes)
    (hlt : (before ++ bytes).length < 2 ^ 31) {off : Nat}
    (hreads : (deserializeLoop (.ofBytes (before ++ bytes))).Reads before.length actions off) :
    ∀ a ∈ actions, Survives a := by
  induction actions generalizing before bytes with
  | nil => simp
  | cons a actions ih =>
      obtain ⟨_, record, rest, hrecord, hrest, rfl⟩ := serializeAt_cons_iff.mp h
      obtain ⟨hlen, hge, _⟩ := length_record hrecord
      rw [List.length_append, List.length_append] at hlt
      have hbehind : before.length + a.getDeserializationSize = (before ++ record).length := by
        rw [List.length_append, hlen]
      cases hreads with
      | cons _ hone htail =>
          change deserializeOne _ _ = _ at hone
          rw [Autobuf.ofBytes, deserializeOne_append (by omega)] at hone
          obtain ⟨a', hread, heq⟩ := map_eq_some.mp hone
          cases heq
          have hsize : 8 ≤ (before ++ (record ++ rest)).length - before.length := by
            simp only [List.length_append]
            omega
          have ha : Survives a := by
            by_contra hdead
            exact deserialize_record_ne hdead hrecord rest hsize hread
          rw [hbehind] at hrest htail
          rw [← List.append_assoc] at htail
          have hrec := ih _ hrest (by simp only [List.length_append]; omega) htail
          intro b hb
          rcases List.mem_cons.mp hb with rfl | hb
          · exact ha
          · exact hrec b hb

/-- The list of actions is read back from the bytes it was written to, all of them. -/
def RoundTrips (junk : Nat → UInt8) (l : OpenflowActionList) : Prop :=
  ∃ bytes, l.serialize junk = .ok bytes ∧
    OpenflowActionList.deserialize (.ofBytes bytes) = .ok (some (l, bytes.length))

/-- Before its loop the decoder only turns down what is too short for a record. -/
theorem deserialize_eq_run {b : Bytes} (h : b.length = 0 ∨ 8 ≤ b.length) :
    OpenflowActionList.deserialize (.ofBytes b) =
      ((deserializeLoop (.ofBytes b)).run 0).map (Option.map fun r => (⟨r.1⟩, r.2)) := by
  unfold OpenflowActionList.deserialize
  rcases h with h | h
  · have hstop : (deserializeLoop (.ofBytes b)).more 0 = false := by
      refine decide_eq_false ?_
      simp only [Autobuf.ofBytes]
      omega
    have hsize : (Autobuf.ofBytes b).size = 0 := h
    rw [if_pos hsize, RecordLoop.run_of_not_more hstop]
    rfl
  · have hsize : 8 ≤ (Autobuf.ofBytes b).size := h
    rw [if_neg (by omega), if_neg (by omega)]

theorem serialize_eq_serializeAt (junk : Nat → UInt8) (l : OpenflowActionList) :
    l.serialize junk = serializeAt junk l.getSerializationSize 0 l.actions := by
  unfold OpenflowActionList.serialize
  split
  · rename_i hempty
    rw [List.isEmpty_iff.mp hempty]
    rfl
  · rfl

/--
**When a list of actions survives the wire.** Whatever the buffer held before, the
list comes back as it was exactly if it is smaller than 2 GiB, sets no network
address and no TCP or UDP port, has no vendor action, and outputs to the
controller under the controller's port number and no other.
-/
theorem action_list_round_trip_iff (junk : Nat → UInt8) (l : OpenflowActionList) :
    RoundTrips junk l ↔ (∀ a ∈ l.actions, Survives a) ∧ totalSize l.actions < 2 ^ 31 := by
  have hmod : l.getSerializationSize = (0 + totalSize l.actions) % 2 ^ 32 := by
    rw [Nat.zero_add]
    rfl
  refine ⟨?_, ?_⟩
  · intro ⟨bytes, hwrite, hread⟩
    rw [serialize_eq_serializeAt] at hwrite
    have hlen := length_serializeAt hwrite
    cases hl : l.actions with
    | nil => simp [totalSize]
    | cons a actions =>
        have hlt := totalSize_lt_of_serializeAt (by simp [hl]) hmod (by omega) hwrite
        rw [Nat.zero_add] at hlt
        rw [deserialize_eq_run (length_eq_zero_or_ge hwrite)] at hread
        obtain ⟨r, hrun, heq⟩ := map_eq_some.mp hread
        obtain ⟨items, off⟩ := r
        cases heq
        obtain ⟨hreads, _⟩ := RecordLoop.run_eq_some_iff.mp hrun
        rw [← hl]
        exact ⟨survives_of_reads [] hwrite (by simpa [hlen] using hlt) hreads, hlt⟩
  · intro ⟨hactions, hlt⟩
    have hsize : 0 + totalSize l.actions = l.getSerializationSize := by omega
    obtain ⟨bytes, hwrite⟩ := exists_serializeAt junk (fun a ha => (hactions a ha).writable) hsize (by omega)
    have hlen := length_serializeAt hwrite
    have hreads := reads_serializeAt hactions [] hwrite (by simpa [hlen] using hlt)
    rw [List.nil_append] at hreads
    have hstop : (deserializeLoop (.ofBytes bytes)).more bytes.length = false := by
      refine decide_eq_false ?_
      simp only [Autobuf.ofBytes]
      omega
    refine ⟨bytes, (serialize_eq_serializeAt junk l).trans hwrite, ?_⟩
    have hrun : (deserializeLoop (.ofBytes bytes)).run 0 = .ok (some (l.actions, bytes.length)) :=
      RecordLoop.run_eq_some_iff.mpr ⟨hreads, hstop⟩
    rw [deserialize_eq_run (length_eq_zero_or_ge hwrite), hrun]
    rfl

/-- A list that sets a network address does not come back. -/
theorem setIpAddress_lost :
    ¬ ∀ (junk : Nat → UInt8) (l : OpenflowActionList),
      (∀ a ∈ l.actions, ∀ id request, a ≠ .vendor id request) → RoundTrips junk l := by
  intro h
  obtain ⟨bytes, hwrite, hread⟩ := h (fun _ => 0) ⟨[.setIpAddress true .nil]⟩ (by simp)
  have hbytes : OpenflowActionList.serialize (fun _ => 0) ⟨[.setIpAddress true .nil]⟩ =
      .ok [0, 6, 0, 8, 0, 0, 0, 0] := by
    decide
  rw [hbytes] at hwrite
  cases hwrite
  have hrun : (deserializeLoop (.ofBytes [0, 6, 0, 8, 0, 0, 0, 0])).run 0 = .ok none :=
    RecordLoop.run_of_none (by decide) (by decide)
  rw [deserialize_eq_run (.inr (by decide)), hrun] at hread
  cases hread

end IronStack.Proof
