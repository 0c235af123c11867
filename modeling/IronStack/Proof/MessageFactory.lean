import IronStack.Proof.StatsCodec

/-!
# Which messages the factory decodes

The decoders trust the switch in different ways. A type that only a controller
sends ends the controller, and so do statistics of an unknown kind. A vendor
message, a features reply and a packet-in of the wrong length are copied from
beyond the end of the message; so is the name of a table that does not end, and
an action that is cut short.
-/

namespace IronStack.Proof

open IronStack Lib OfMessage

/-! ## One decoder -/

theorem answers_readPorts {input : Bytes} {n off : Nat} (h : off + 48 * n ≤ input.length) :
    Answers (readPorts input n off) := by
  induction n generalizing off with
  | zero => exact answers_ok _
  | succ n ih =>
      rw [readPorts]
      refine (answers_port (by omega)).bind fun _ => ?_
      refine (ih (by omega)).bind fun _ => ?_
      exact answers_ok _

/-- Below the size of a features reply the room for ports wraps around, at 16 bytes to whole ports. -/
theorem subU32_wraps {n : Nat} (h8 : 8 ≤ n) (hlt : n < 32) : subU32 n 32 % 48 = 0 ↔ n = 16 := by
  have hsum : 2 ^ 32 + n - 32 < 2 ^ 32 := by omega
  rw [subU32, Nat.mod_eq_of_lt hsum]
  omega

section Decoders

variable {input : Bytes} {header : MessageHeader}
  (hheader : MessageHeader.deserialize input = .ok (some header))

include hheader

theorem answers_hello : Answers (deserializeHello input) := by
  rw [deserializeHello, hheader, ok_bind]
  dsimp only
  split
  · exact answers_ok _
  · exact answers_ok _

theorem answers_barrierReply : Answers (deserializeBarrierReply input) := by
  rw [deserializeBarrierReply, hheader, ok_bind]
  dsimp only
  split
  · exact answers_ok _
  · exact answers_ok _

theorem answers_error (hsize : header.msgSize.toNat = input.length) :
    Answers (deserializeError input) := by
  rw [deserializeError, hheader, ok_bind]
  dsimp only
  split
  · exact answers_ok _
  · rename_i hge
    have hdata : (header.msgSize - 12).toNat = input.length - 12 := by
      rw [UInt16.toNat_sub_of_le _ _ (UInt16.le_iff_toNat_le.mpr (by rw [hsize]; exact Nat.le_of_not_lt hge)),
        hsize]
      rfl
    refine (answers_readU16 (by omega)).bind fun _ => ?_
    refine (answers_readU16 (by omega)).bind fun _ => ?_
    refine (answers_slice (by omega)).bind fun _ => ?_
    exact answers_ok _

theorem answers_echo (hsize : header.msgSize.toNat = input.length) (h8 : 8 ≤ input.length)
    (make : MessageHeader → Bytes → OfMessage) : Answers (deserializeEcho make input) := by
  have hlt := UInt16.toNat_lt header.msgSize
  have hpayload : subU32 header.msgSize.toNat 8 = input.length - 8 := by
    rw [subU32_of_le (by omega) (by omega), hsize]
  rw [deserializeEcho, hheader, ok_bind]
  dsimp only
  rw [hpayload, readRear, if_neg (by omega)]
  exact answers_ok _

/-- A vendor message is copied up to its twelfth byte. -/
theorem answers_vendor_iff (hsize : header.msgSize.toNat = input.length) (h8 : 8 ≤ input.length) :
    Answers (deserializeVendor input) ↔ 12 ≤ input.length := by
  rw [deserializeVendor, hheader, ok_bind]
  dsimp only
  rw [if_neg (by simp [hsize])]
  refine ⟨?_, ?_⟩
  · intro h
    by_contra hlt
    rw [readU32_error (by omega), error_bind] at h
    exact not_answers_error _ h
  · intro hge
    refine (answers_readU32 (by omega)).bind fun _ => ?_
    split
    · refine (answers_slice (by omega)).bind fun _ => ?_
      exact answers_ok _
    · exact answers_ok _

/-- In a message of 16 bytes the missing 16 look like whole ports to the check of the length. -/
theorem answers_featuresReply_iff (htype : header.msgType = Ofpt.featuresReply)
    (hsize : header.msgSize.toNat = input.length) (h8 : 8 ≤ input.length) :
    Answers (deserializeFeaturesReply input) ↔ input.length ≠ 16 := by
  have hlt := UInt16.toNat_lt header.msgSize
  rw [deserializeFeaturesReply, hheader, ok_bind]
  dsimp only
  rw [if_neg (by simp [htype]), hsize]
  by_cases hge : 32 ≤ input.length
  · have hdefn : subU32 input.length 32 = input.length - 32 := subU32_of_le hge (by omega)
    rw [hdefn]
    refine ⟨fun _ => by omega, fun _ => ?_⟩
    split
    · exact answers_ok _
    · rename_i hmod
      have hdvd : (input.length - 32) % 48 = 0 := by simpa using hmod
      rw [if_neg (by omega)]
      refine (answers_slice (by omega)).bind fun _ => ?_
      refine (answers_readU32 (by omega)).bind fun _ => ?_
      refine (answers_readU8 (by omega)).bind fun _ => ?_
      refine (answers_readU32 (by omega)).bind fun _ => ?_
      refine (answers_readU32 (by omega)).bind fun _ => ?_
      refine (answers_readVec (by omega)).bind fun _ => ?_
      refine (answers_readPorts (by omega)).bind fun _ => ?_
      exact answers_ok _
  · have hwrap := subU32_wraps h8 (Nat.lt_of_not_le hge)
    generalize subU32 input.length 32 = portDefnSize at hwrap ⊢
    by_cases h16 : input.length = 16
    · have hmod : portDefnSize % 48 = 0 := hwrap.mpr h16
      rw [if_neg (by simp [hmod]), if_pos (by omega)]
      refine ⟨fun h => ?_, fun hne => absurd h16 hne⟩
      exact absurd h (not_answers_error _)
    · have hmod : portDefnSize % 48 ≠ 0 := fun h => h16 (hwrap.mp h)
      rw [if_pos (by simp [hmod])]
      exact ⟨fun _ => h16, fun _ => answers_ok _⟩

theorem answers_getConfigReply : Answers (deserializeGetConfigReply input) := by
  have hconfig : Answers (deserializeConfig input) := by
    unfold deserializeConfig
    split
    · exact answers_ok _
    · refine (answers_readU16 (by omega)).bind fun _ => ?_
      refine (answers_readU16 (by omega)).bind fun _ => ?_
      exact answers_ok _
  rw [deserializeGetConfigReply, hheader, ok_bind]
  dsimp only
  split
  · exact answers_ok _
  · refine hconfig.bind fun config => ?_
    cases config with
    | none => exact answers_ok _
    | some config => exact answers_ok _

/-- A packet-in is read up to its reason, and the packet for as long as it says it is. -/
theorem answers_packetIn_iff (htype : header.msgType = Ofpt.packetIn) :
    Answers (deserializePacketIn input) ↔ 17 ≤ input.length ∧
      ∀ totalLen, readU16 input 12 = .ok totalLen →
        totalLen = 0 ∨ 18 + totalLen.toNat ≤ input.length := by
  rw [deserializePacketIn, hheader, ok_bind]
  dsimp only
  rw [if_neg (by simp [htype])]
  by_cases hge : 17 ≤ input.length
  · obtain ⟨bufferId, hbuffer⟩ := answers_readU32 (show 8 + 4 ≤ input.length by omega)
    obtain ⟨totalLen, htotal⟩ := answers_readU16 (show 12 + 2 ≤ input.length by omega)
    obtain ⟨inPort, hport⟩ := answers_readU16 (show 14 + 2 ≤ input.length by omega)
    obtain ⟨reason, hreason⟩ := answers_readU8 (show 16 + 1 ≤ input.length by omega)
    rw [hbuffer, ok_bind, htotal, ok_bind, hport, ok_bind, hreason, ok_bind]
    refine ⟨?_, ?_⟩
    · intro h
      refine ⟨hge, ?_⟩
      intro totalLen' htotal'
      cases htotal'
      by_contra hbad
      rw [not_or] at hbad
      rw [if_neg hbad.1, slice_error (by omega)] at h
      exact not_answers_error _ h
    · intro ⟨_, h⟩
      rcases h totalLen rfl with hzero | hle
      · rw [if_pos hzero]
        exact answers_ok _
      · split
        · exact answers_ok _
        · exact (answers_slice hle).bind fun _ => answers_ok _
  · refine ⟨?_, fun h => absurd h.1 hge⟩
    intro h
    obtain ⟨_, _, h⟩ := h.of_bind
    obtain ⟨_, _, h⟩ := h.of_bind
    obtain ⟨_, _, h⟩ := h.of_bind
    rw [readU8_error (by omega), error_bind] at h
    exact absurd h (not_answers_error _)

theorem answers_flowRemoved (hsize : header.msgSize.toNat = input.length) :
    Answers (deserializeFlowRemoved input) := by
  rw [deserializeFlowRemoved, hheader, ok_bind]
  dsimp only
  split
  · exact answers_ok _
  · rename_i hcheck
    have hlen : input.length = 88 := by
      have hmsg : header.msgSize = 88 := by
        by_contra hne
        exact hcheck (by simp [hne])
      rw [← hsize, hmsg]
      rfl
    obtain ⟨criteria, hmatch⟩ := exists_match
      (show ((input.drop 8).take 40).length = 40 by rw [List.length_take, List.length_drop]; omega)
    rw [hmatch, ok_bind]
    dsimp only
    refine (answers_readU64 (by omega)).bind fun _ => ?_
    refine (answers_readU16 (by omega)).bind fun _ => ?_
    refine (answers_readU8 (by omega)).bind fun _ => ?_
    refine (answers_readU32 (by omega)).bind fun _ => ?_
    refine (answers_readU32 (by omega)).bind fun _ => ?_
    refine (answers_readU64 (by omega)).bind fun _ => ?_
    refine (answers_readU64 (by omega)).bind fun _ => ?_
    exact answers_ok _

theorem answers_portStatus (hsize : header.msgSize.toNat = input.length) :
    Answers (deserializePortStatus input) := by
  rw [deserializePortStatus, hheader, ok_bind]
  dsimp only
  split
  · exact answers_ok _
  · rename_i hcheck
    have hlen : input.length = 64 := by
      have hmsg : header.msgSize = 64 := by
        by_contra hne
        exact hcheck (by simp [hne])
      rw [← hsize, hmsg]
      rfl
    refine (answers_readU8 (by omega)).bind fun _ => ?_
    refine (answers_port (by omega)).bind fun _ => ?_
    exact answers_ok _

end Decoders

/-! ## Statistics replies -/

section Statistics

variable {input : Bytes} {header : MessageHeader}
  (hheader : MessageHeader.deserialize input = .ok (some header))
  (htype : header.msgType = Ofpt.statsReply)

include hheader htype

/-- The start of a statistics reply is read, and its body if it is long enough. -/
theorem statsHeader_of_type {type : UInt16} (minSize : Nat) (h12 : 12 ≤ input.length)
    (hstats : readU16 input 8 = .ok type) :
    (input.length < minSize → statsHeader type minSize input = .ok none) ∧
      (minSize ≤ input.length → ∃ more, statsHeader type minSize input = .ok (some (header, more))) := by
  rw [statsHeader, hheader, ok_bind]
  dsimp only
  rw [htype]
  refine ⟨?_, ?_⟩
  · intro hshort
    rw [if_pos (by simp [hshort])]
    rfl
  · intro hle
    obtain ⟨flags, hflags⟩ := answers_readU16 (show 10 + 2 ≤ input.length by omega)
    rw [if_neg (by simpa using hle), hstats, ok_bind, if_neg (by simp), hflags, ok_bind]
    exact ⟨_, rfl⟩

theorem answers_switchDescription_reply (h12 : 12 ≤ input.length)
    (hstats : readU16 input 8 = .ok Ofpst.desc) : Answers (deserializeSwitchDescription input) := by
  obtain ⟨hshort, hlong⟩ := statsHeader_of_type hheader htype (12 + 1056) h12 hstats
  unfold deserializeSwitchDescription
  by_cases hle : 12 + 1056 ≤ input.length
  · obtain ⟨more, hmore⟩ := hlong hle
    rw [hmore, ok_bind]
    refine (answers_switchDescription ?_).bind fun description => ?_
    · simp only [List.length_drop]
      omega
    · cases description with
      | none => exact answers_ok _
      | some description => exact answers_ok _
  · rw [hshort (Nat.lt_of_not_le hle)]
    exact answers_ok _

theorem answers_aggregateStats_reply (h12 : 12 ≤ input.length)
    (hstats : readU16 input 8 = .ok Ofpst.aggregate) : Answers (deserializeAggregateStats input) := by
  obtain ⟨hshort, hlong⟩ := statsHeader_of_type hheader htype (12 + 24) h12 hstats
  unfold deserializeAggregateStats
  by_cases hle : 12 + 24 ≤ input.length
  · obtain ⟨more, hmore⟩ := hlong hle
    rw [hmore, ok_bind]
    refine (answers_aggregateStats ?_).bind fun stats => ?_
    · simp only [List.length_drop]
      omega
    · cases stats with
      | none => exact answers_ok _
      | some stats => exact answers_ok _
  · rw [hshort (Nat.lt_of_not_le hle)]
    exact answers_ok _

/-- A reply with an array of records is decoded as its array is. -/
theorem answers_array_iff {α : Type} {type : UInt16} {size : Nat} {hsize : 0 < size}
    {decode : Autobuf → Read (Option α)} {make : MessageHeader → Bool → List α → OfMessage}
    (h12 : 12 ≤ input.length) (hstats : readU16 input 8 = .ok type) :
    Answers (deserializeArray type size hsize decode make input) ↔
      Answers ((fixedLoop size hsize decode (.ofBytes (input.drop 12))).run 0) := by
  obtain ⟨more, hmore⟩ := (statsHeader_of_type hheader htype 12 h12 hstats).2 h12
  rw [deserializeArray, hmore, ok_bind]
  dsimp only
  refine ⟨?_, ?_⟩
  · intro h
    obtain ⟨r, hr, _⟩ := h.of_bind
    exact ⟨r, hr⟩
  · intro h
    refine h.bind fun r => ?_
    cases r with
    | none => exact answers_ok _
    | some r => exact answers_ok _

theorem answers_flowStats_iff (h12 : 12 ≤ input.length) (hlt : input.length < 2 ^ 16)
    (hstats : readU16 input 8 = .ok Ofpst.flow) :
    Answers (deserializeFlowStats input) ↔ FlowsReadable (input.drop 12) := by
  obtain ⟨more, hmore⟩ := (statsHeader_of_type hheader htype 12 h12 hstats).2 h12
  have hdrop : (input.drop 12).length = input.length - 12 := List.length_drop
  rw [← answers_flowLoop_iff (by omega), deserializeFlowStats, hmore, ok_bind]
  dsimp only
  split
  · rename_i hempty
    have hend : (flowLoop (.ofBytes (input.drop 12))).more 0 = false := by
      refine decide_eq_false ?_
      change ¬ 0 < (input.drop 12).length
      omega
    rw [RecordLoop.run_of_not_more hend]
    exact ⟨fun _ => answers_ok _, fun _ => answers_ok _⟩
  · refine ⟨?_, ?_⟩
    · intro h
      obtain ⟨r, hr, _⟩ := h.of_bind
      exact ⟨r, hr⟩
    · intro h
      refine h.bind fun r => ?_
      cases r with
      | none => exact answers_ok _
      | some r => exact answers_ok _

/-- The statistics replies that are decoded, or turned down. -/
structure StatsDecodable (input : Bytes) : Prop where
  complete : 12 ≤ input.length
  known : ∃ type, readU16 input 8 = .ok type ∧ type ∈ [Ofpst.desc, Ofpst.flow, Ofpst.aggregate,
    Ofpst.table, Ofpst.port, Ofpst.queue]
  tables : readU16 input 8 = .ok Ofpst.table → TablesTerminated (input.drop 12)
  flows : readU16 input 8 = .ok Ofpst.flow → FlowsReadable (input.drop 12)

theorem answers_statsReply_iff (hlt : input.length < 2 ^ 16) :
    Answers (deserializeStatsReply input) ↔ StatsDecodable input := by
  have hbody : (input.drop 12).length = input.length - 12 := List.length_drop
  unfold deserializeStatsReply
  split
  · rename_i hshort
    exact ⟨fun h => absurd h (not_answers_error _), fun h => absurd h.complete (by omega)⟩
  · rename_i hge
    have h12 : 12 ≤ input.length := Nat.le_of_not_lt hge
    obtain ⟨type, hstats⟩ := answers_readU16 (show 8 + 2 ≤ input.length by omega)
    rw [hstats, ok_bind]
    -- a kind with no condition of its own
    have hplain : type ∈ [Ofpst.desc, Ofpst.aggregate, Ofpst.port, Ofpst.queue] →
        StatsDecodable input := by
      intro hmem
      have hkind : type ≠ Ofpst.table ∧ type ≠ Ofpst.flow := by
        simp only [List.mem_cons, List.not_mem_nil, or_false] at hmem
        rcases hmem with rfl | rfl | rfl | rfl <;> decide
      refine ⟨h12, ⟨type, hstats, ?_⟩, ?_, ?_⟩
      · simp only [List.mem_cons, List.not_mem_nil, or_false] at hmem ⊢
        tauto
      · intro htable
        rw [hstats] at htable
        exact absurd (Except.ok.inj htable) hkind.1
      · intro hflow
        rw [hstats] at hflow
        exact absurd (Except.ok.inj hflow) hkind.2
    split
    · rename_i hkind
      subst hkind
      exact ⟨fun _ => hplain (by simp),
        fun _ => answers_switchDescription_reply hheader htype h12 hstats⟩
    · split
      · rename_i hkind
        subst hkind
        rw [answers_flowStats_iff hheader htype h12 hlt hstats]
        refine ⟨fun hflows => ⟨h12, ⟨_, hstats, by simp⟩, ?_, fun _ => hflows⟩,
          fun h => h.flows hstats⟩
        intro htable
        rw [hstats] at htable
        exact absurd (Except.ok.inj htable) (by decide)
      · split
        · rename_i hkind
          subst hkind
          exact ⟨fun _ => hplain (by simp),
            fun _ => answers_aggregateStats_reply hheader htype h12 hstats⟩
        · split
          · rename_i hkind
            subst hkind
            rw [deserializeTableStats, answers_array_iff hheader htype h12 hstats,
              answers_tableLoop_iff (by omega)]
            refine ⟨fun htables => ⟨h12, ⟨_, hstats, by simp⟩, fun _ => htables, ?_⟩,
              fun h => h.tables hstats⟩
            intro hflow
            rw [hstats] at hflow
            exact absurd (Except.ok.inj hflow) (by decide)
          · split
            · rename_i hkind
              subst hkind
              rw [deserializePortStats, answers_array_iff hheader htype h12 hstats]
              exact ⟨fun _ => hplain (by simp),
                fun _ => answers_fixedLoop (by omega) fun _ => answers_portStats⟩
            · split
              · rename_i hkind
                subst hkind
                rw [deserializeQueueStats, answers_array_iff hheader htype h12 hstats]
                exact ⟨fun _ => hplain (by simp),
                  fun _ => answers_fixedLoop (by omega) fun _ => answers_queueStats⟩
              · refine ⟨fun h => absurd h (not_answers_error _), ?_⟩
                intro h
                obtain ⟨type', hstats', hmem⟩ := h.known
                rw [hstats] at hstats'
                cases hstats'
                simp only [List.mem_cons, List.not_mem_nil, or_false] at hmem
                tauto

end Statistics

/-! ## The factory -/

/-- The types whose decoding ends the controller, whatever the message. -/
def abortingTypes : List UInt8 :=
  [Ofpt.featuresRequest, Ofpt.getConfigRequest, Ofpt.setConfig, Ofpt.packetOut, Ofpt.statsRequest,
    Ofpt.barrierRequest, Ofpt.queueGetConfigRequest, Ofpt.queueGetConfigReply]

/-- The messages of a type that are decoded, or turned down. -/
structure MessageDecodable (input : Bytes) (type : UInt8) : Prop where
  accepted : type ∉ abortingTypes
  vendor : type = Ofpt.vendor → 12 ≤ input.length
  featuresReply : type = Ofpt.featuresReply → input.length ≠ 16
  packetIn : type = Ofpt.packetIn → 17 ≤ input.length ∧
    ∀ totalLen, readU16 input 12 = .ok totalLen →
      totalLen = 0 ∨ 18 + totalLen.toNat ≤ input.length
  statsReply : type = Ofpt.statsReply → StatsDecodable input

theorem le_of_mem_abortingTypes {type : UInt8} (h : type ∈ abortingTypes) :
    type ≤ Ofpt.queueGetConfigReply := by
  simp only [abortingTypes, List.mem_cons, List.not_mem_nil, or_false] at h
  rcases h with rfl | rfl | rfl | rfl | rfl | rfl | rfl | rfl <;> decide

/-- A header is turned down, or read off a message of its type. -/
theorem messageHeader_cases (input : Bytes) : MessageHeader.deserialize input = .ok none ∨
    ∃ header, MessageHeader.deserialize input = .ok (some header) ∧ 8 ≤ input.length ∧
      readU8 input 1 = .ok header.msgType := by
  by_cases h8 : 8 ≤ input.length
  · obtain ⟨type, htype⟩ := answers_readU8 (show 1 + 1 ≤ input.length by omega)
    obtain ⟨version, hversion⟩ := answers_readU8 (show 0 + 1 ≤ input.length by omega)
    obtain ⟨size, hsize⟩ := answers_readU16 (show 2 + 2 ≤ input.length by omega)
    obtain ⟨xid, hxid⟩ := answers_readU32 (show 4 + 4 ≤ input.length by omega)
    rw [MessageHeader.deserialize, if_neg (by omega), htype, ok_bind]
    split
    · exact .inl rfl
    · right
      rw [hversion, ok_bind, hsize, ok_bind, hxid, ok_bind]
      exact ⟨_, rfl, h8, rfl⟩
  · left
    rw [MessageHeader.deserialize, if_pos (by omega)]

/-- The header of a message of a known type. -/
theorem deserialize_messageHeader {input : Bytes} {type : UInt8} {size : UInt16}
    (h8 : 8 ≤ input.length) (htype : readU8 input 1 = .ok type) (hknown : ¬ type > Ofpt.queueGetConfigReply)
    (hsize : readU16 input 2 = .ok size) :
    ∃ version xid, MessageHeader.deserialize input = .ok (some ⟨version, type, size, xid⟩) := by
  obtain ⟨version, hversion⟩ := answers_readU8 (show 0 + 1 ≤ input.length by omega)
  obtain ⟨xid, hxid⟩ := answers_readU32 (show 4 + 4 ≤ input.length by omega)
  refine ⟨version, xid, ?_⟩
  rw [MessageHeader.deserialize, if_neg (by omega), htype, ok_bind, if_neg hknown, hversion, ok_bind, hsize,
    ok_bind, hxid, ok_bind, pure_eq_ok]

theorem deserializeAs_aborts {input : Bytes} {type : UInt8} (h : type ∈ abortingTypes) :
    OfMessage.deserializeAs type input = .error .aborted := by
  simp only [abortingTypes, List.mem_cons, List.not_mem_nil, or_false] at h
  rcases h with rfl | rfl | rfl | rfl | rfl | rfl | rfl | rfl <;> rfl

/-- The other types, but for four, are decoded or turned down whatever the message. -/
theorem answers_deserializeAs {input : Bytes} {header : MessageHeader}
    (hheader : MessageHeader.deserialize input = .ok (some header))
    (hsize : header.msgSize.toNat = input.length) (h8 : 8 ≤ input.length) {type : UInt8}
    (haborting : type ∉ abortingTypes) (hvendor : type ≠ Ofpt.vendor)
    (hfeatures : type ≠ Ofpt.featuresReply) (hpacket : type ≠ Ofpt.packetIn)
    (hstats : type ≠ Ofpt.statsReply) : Answers (OfMessage.deserializeAs type input) := by
  simp only [abortingTypes, List.mem_cons, List.not_mem_nil, or_false, not_or] at haborting
  obtain ⟨h5, h7, h9, h13, h16, h18, h20, h21⟩ := haborting
  unfold OfMessage.deserializeAs
  refine .ite (fun _ => answers_hello hheader) fun _ => ?_
  refine .ite (fun _ => answers_error hheader hsize) fun _ => ?_
  refine .ite (fun _ => answers_echo hheader hsize h8 _) fun _ => ?_
  refine .ite (fun _ => answers_echo hheader hsize h8 _) fun _ => ?_
  refine .ite (fun h => absurd h hvendor) fun _ => ?_
  refine .ite (fun h => absurd h h5) fun _ => ?_
  refine .ite (fun h => absurd h hfeatures) fun _ => ?_
  refine .ite (fun h => absurd h h7) fun _ => ?_
  refine .ite (fun _ => answers_getConfigReply hheader) fun _ => ?_
  refine .ite (fun h => absurd h h9) fun _ => ?_
  refine .ite (fun h => absurd h hpacket) fun _ => ?_
  refine .ite (fun _ => answers_flowRemoved hheader hsize) fun _ => ?_
  refine .ite (fun _ => answers_portStatus hheader hsize) fun _ => ?_
  refine .ite (fun h => absurd h h13) fun _ => ?_
  refine .ite (fun _ => answers_flowRemoved hheader hsize) fun _ => ?_
  refine .ite (fun _ => answers_portStatus hheader hsize) fun _ => ?_
  refine .ite (fun h => absurd h h16) fun _ => ?_
  refine .ite (fun h => absurd h hstats) fun _ => ?_
  refine .ite (fun h => absurd h h18) fun _ => ?_
  refine .ite (fun _ => answers_barrierReply hheader) fun _ => ?_
  refine .ite (fun h => absurd h h20) fun _ => ?_
  refine .ite (fun h => absurd h h21) fun _ => ?_
  exact answers_ok _

/--
**When a message is decoded, or turned down.** Given a message whose header has its
length right, the factory returns exactly if the type is not one that only a
controller sends (nor a reply on queues), and for four types something more: a
vendor message has its vendor, a features reply is not 16 bytes long, a packet-in
holds the packet it announces, and a statistics reply is of a known kind, with
names and actions that end before it does.
-/
theorem deserializeMessage_answers_iff {input : Bytes} {type : UInt8} {size : UInt16}
    (h8 : 8 ≤ input.length) (hsize : readU16 input 2 = .ok size) (hlen : size.toNat = input.length)
    (htype : readU8 input 1 = .ok type) :
    Answers (deserializeMessage input) ↔ MessageDecodable input type := by
  have hlt : input.length < 2 ^ 16 := by
    rw [← hlen]
    exact UInt16.toNat_lt size
  unfold deserializeMessage
  by_cases hknown : type > Ofpt.queueGetConfigReply
  -- a type that is not known is rejected with the header, so nothing else is read
  · have hnone : MessageHeader.deserialize input = .ok none := by
      rw [MessageHeader.deserialize, if_neg (by omega), htype, ok_bind, if_pos hknown]
      rfl
    have hne : ∀ t, t ≤ Ofpt.queueGetConfigReply → type ≠ t := by
      intro t ht heq
      rw [heq] at hknown
      exact UInt8.not_lt.mpr ht hknown
    rw [hnone, ok_bind]
    refine ⟨fun _ => ⟨?_, ?_, ?_, ?_, ?_⟩, fun _ => answers_ok _⟩
    · intro hmem
      exact hne type (le_of_mem_abortingTypes hmem) rfl
    · exact fun h => absurd h (hne _ (by decide))
    · exact fun h => absurd h (hne _ (by decide))
    · exact fun h => absurd h (hne _ (by decide))
    · exact fun h => absurd h (hne _ (by decide))
  · obtain ⟨version, xid, hheader⟩ := deserialize_messageHeader h8 htype hknown hsize
    rw [hheader, ok_bind]
    dsimp only
    -- one case for each type that can fail, and one for all others
    by_cases haborting : type ∈ abortingTypes
    · rw [deserializeAs_aborts haborting]
      exact ⟨fun h => absurd h (not_answers_error _), fun h => absurd haborting h.accepted⟩
    by_cases hvendor : type = Ofpt.vendor
    · subst hvendor
      change Answers (deserializeVendor input) ↔ _
      rw [answers_vendor_iff hheader hlen h8]
      refine ⟨fun h => ⟨haborting, fun _ => h, ?_, ?_, ?_⟩, fun h => h.vendor rfl⟩
      all_goals exact fun heq => absurd heq (by decide)
    by_cases hfeatures : type = Ofpt.featuresReply
    · subst hfeatures
      change Answers (deserializeFeaturesReply input) ↔ _
      rw [answers_featuresReply_iff hheader rfl hlen h8]
      refine ⟨fun h => ⟨haborting, ?_, fun _ => h, ?_, ?_⟩, fun h => h.featuresReply rfl⟩
      all_goals exact fun heq => absurd heq (by decide)
    by_cases hpacket : type = Ofpt.packetIn
    · subst hpacket
      change Answers (deserializePacketIn input) ↔ _
      rw [answers_packetIn_iff hheader rfl]
      refine ⟨fun h => ⟨haborting, ?_, ?_, fun _ => h, ?_⟩, fun h => h.packetIn rfl⟩
      all_goals exact fun heq => absurd heq (by decide)
    by_cases hstats : type = Ofpt.statsReply
    · subst hstats
      change Answers (deserializeStatsReply input) ↔ _
      rw [answers_statsReply_iff hheader rfl hlt]
      refine ⟨fun h => ⟨haborting, ?_, ?_, ?_, fun _ => h⟩, fun h => h.statsReply rfl⟩
      all_goals exact fun heq => absurd heq (by decide)
    · refine ⟨fun _ => ⟨haborting, ?_, ?_, ?_, ?_⟩, fun _ => ?_⟩
      · exact fun h => absurd h hvendor
      · exact fun h => absurd h hfeatures
      · exact fun h => absurd h hpacket
      · exact fun h => absurd h hstats
      · exact answers_deserializeAs hheader hlen h8 haborting hvendor hfeatures hpacket hstats

/-- A hello is decoded, or turned down. -/
theorem hello_answers : Answers (deserializeMessage [1, 0, 0, 8, 0, 0, 0, 0]) :=
  (deserializeMessage_answers_iff (by decide) rfl rfl rfl).mpr
    ⟨by decide, nofun, nofun,
      nofun, nofun⟩

/-- A bare header that says packet-in is read for a packet it does not have. -/
theorem bare_packetIn_overread :
    ¬ ∀ (input : Bytes) (size : UInt16), 8 ≤ input.length → readU16 input 2 = .ok size →
      size.toNat = input.length → Answers (deserializeMessage input) := by
  intro h
  have hfault : deserializeMessage [1, 10, 0, 8, 0, 0, 0, 0] = .error .outOfBounds := by
    decide
  have hreturn := h [1, 10, 0, 8, 0, 0, 0, 0] 8 (by decide) rfl rfl
  rw [hfault] at hreturn
  exact not_answers_error _ hreturn

end IronStack.Proof
