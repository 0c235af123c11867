import IronStack.OpenFlow.Commands
import IronStack.Proof.ActionCodec
import IronStack.Proof.MatchCodec
import IronStack.Proof.MessageFactory

/-!
# What survives the wire of a flow-mod

A flow-mod is written field by field, and read back the same way but for its cookie,
of which the decoder forgets the byte order. Its match comes back as matches do. The
decoder asks for no more bytes than its match has.
-/

namespace IronStack.Proof

open IronStack Lib

/-! ## The round trip -/

/-- The flow-mod has an encoding that fits into a message. -/
structure Sendable (m : OfMessageModifyFlow) (actions : Bytes) : Prop where
  src_le : m.flowDescription.criteria.wildcardIpSrcLsbCount ≤ 32
  dest_le : m.flowDescription.criteria.wildcardIpDestLsbCount ≤ 32
  outPort_ne : m.useOutPort = true → m.outPort ≠ ofppNone
  actions_eq : m.flowDescription.actionList.serialize (fun _ => 0) = .ok actions
  fits : OfMessageModifyFlow.fixedSize + actions.length ≤ 65535

/--
The flow-mod is written in as many bytes as its header says, and read back with every
field as it was but for the actions, which are not decoded.
-/
def FlowModRoundTrips (m : OfMessageModifyFlow) : Prop :=
  ∃ bytes size, m.serialize = .ok bytes ∧ readU16 bytes 2 = .ok size ∧ size.toNat = bytes.length ∧
    OfMessageModifyFlow.deserialize bytes = .ok (some
      { m with msgSize := size, flowDescription := { m.flowDescription with actionList := .clear } })

/-- The flow-mod has nothing in it that is read as something else. -/
structure FlowModSurvives (m : OfMessageModifyFlow) : Prop where
  /-- The bytes of the cookie are the same in both directions. -/
  cookie : (be64 m.flowDescription.cookie).reverse = be64 m.flowDescription.cookie
  src : m.flowDescription.criteria.wildcardIpSrcLsbCount = 0 ∨
    m.flowDescription.criteria.wildcardIpSrcLsbCount = 32
  dest : m.flowDescription.criteria.wildcardIpDestLsbCount = 0 ∨
    m.flowDescription.criteria.wildcardIpDestLsbCount = 32
  /-- A port that is not used is not sent. -/
  outPort : m.useOutPort = false → m.outPort = ofppNone

theorem ofU16?_toU16 (c : FlowModCommand) : FlowModCommand.ofU16? c.toU16 = some c := by
  cases c with
  | add => rfl
  | modify => rfl
  | modifyStrict => rfl
  | delete => rfl
  | deleteStrict => rfl

/-- Each flag has a bit of its own. -/
theorem flags_and (m : OfMessageModifyFlow) :
    decide (m.flags &&& ofpffSendFlowRem > 0) = m.flagSendFlowRemovalMessage ∧
      decide (m.flags &&& ofpffCheckOverlap > 0) = m.flagCheckOverlap ∧
      decide (m.flags &&& ofpffEmerg > 0) = m.flagEmergencyFlow := by
  unfold OfMessageModifyFlow.flags
  have hall : ∀ a b c : Bool,
      decide (((if a then ofpffSendFlowRem else 0) ||| (if b then ofpffCheckOverlap else 0) |||
          (if c then ofpffEmerg else 0)) &&& ofpffSendFlowRem > 0) = a ∧
        decide (((if a then ofpffSendFlowRem else 0) ||| (if b then ofpffCheckOverlap else 0) |||
          (if c then ofpffEmerg else 0)) &&& ofpffCheckOverlap > 0) = b ∧
        decide (((if a then ofpffSendFlowRem else 0) ||| (if b then ofpffCheckOverlap else 0) |||
          (if c then ofpffEmerg else 0)) &&& ofpffEmerg > 0) = c := by
    decide
  exact hall ..

theorem length_flowModFixed (m : OfMessageModifyFlow) (sizeRequired : Nat) :
    (m.serializeFixed sizeRequired).length = OfMessageModifyFlow.fixedSize := by
  simp [OfMessageModifyFlow.serializeFixed, OfMessageModifyFlow.fixedSize, length_serialize, OfMatch.wireSize]

/-- The port on the wire. -/
def sentPort (m : OfMessageModifyFlow) : UInt16 := if m.useOutPort then m.outPort else ofppNone

/-- The flow-mod read back, for one that was written. -/
def rereadFlowMod (m : OfMessageModifyFlow) (sizeRequired : Nat) : OfMessageModifyFlow :=
  { m with
    msgSize := UInt16.ofNat sizeRequired
    flowDescription := {
      criteria := reread m.flowDescription.criteria
      actionList := .clear
      cookie := UInt64.ofNat (ofBE (be64 m.flowDescription.cookie).reverse)
      priority := m.flowDescription.priority }
    useOutPort := sentPort m != ofppNone
    outPort := sentPort m }

/-- The header of the fixed part. -/
theorem flowModFixed_header (m : OfMessageModifyFlow) (sizeRequired : Nat) (behind : Bytes) :
    MessageHeader.deserialize (m.serializeFixed sizeRequired ++ behind) =
      .ok (some ⟨m.version, Ofpt.flowMod, UInt16.ofNat sizeRequired, m.xid⟩) := by
  have hroom : ¬ (m.serializeFixed sizeRequired ++ behind).length < 8 := by
    rw [List.length_append, length_flowModFixed, OfMessageModifyFlow.fixedSize]
    omega
  rw [MessageHeader.deserialize, if_neg hroom]
  simp (disch := simp) only [OfMessageModifyFlow.serializeFixed, List.append_assoc, List.cons_append,
    List.nil_append, readU8_cons, readU8_cons_succ, readU16_cons_succ, readU32_cons_succ,
    readU32_append_right, readU16_be16, readU32_be32, length_be16, Nat.reduceSub, ok_bind]
  rfl

/-- Its match, and its cookie. -/
theorem flowModFixed_slices (m : OfMessageModifyFlow) (sizeRequired : Nat) (behind : Bytes) :
    slice (m.serializeFixed sizeRequired ++ behind) 8 40 = .ok m.flowDescription.criteria.serialize ∧
      slice (m.serializeFixed sizeRequired ++ behind) 48 8 = .ok (be64 m.flowDescription.cookie) := by
  have hmatch : (m.flowDescription.criteria.serialize).length = 40 := length_serialize _
  have hfst := slice_append_left m.flowDescription.criteria.serialize (be64 m.flowDescription.cookie ++
    (be16 m.command.toU16 ++ (be16 m.idleTimeout ++ (be16 m.hardTimeout ++ (be16 m.flowDescription.priority ++
      (be32 m.bufferId ++ (be16 (sentPort m) ++ (be16 m.flags ++ behind))))))))
  have hsnd := slice_append_left (be64 m.flowDescription.cookie)
    (be16 m.command.toU16 ++ (be16 m.idleTimeout ++ (be16 m.hardTimeout ++ (be16 m.flowDescription.priority ++
      (be32 m.bufferId ++ (be16 (sentPort m) ++ (be16 m.flags ++ behind)))))))
  rw [hmatch] at hfst
  rw [length_be64] at hsnd
  simp (disch := simp [hmatch]) only [OfMessageModifyFlow.serializeFixed, List.append_assoc,
    List.cons_append, List.nil_append, slice_cons, slice_append_right, length_be16, length_be32, hmatch,
    Nat.reduceSub]
  exact ⟨hfst, hsnd⟩

/-- And the numbers behind them. -/
theorem flowModFixed_reads (m : OfMessageModifyFlow) (sizeRequired : Nat) (behind : Bytes) :
    readU16 (m.serializeFixed sizeRequired ++ behind) 56 = .ok m.command.toU16 ∧
      readU16 (m.serializeFixed sizeRequired ++ behind) 58 = .ok m.idleTimeout ∧
      readU16 (m.serializeFixed sizeRequired ++ behind) 60 = .ok m.hardTimeout ∧
      readU16 (m.serializeFixed sizeRequired ++ behind) 62 = .ok m.flowDescription.priority ∧
      readU32 (m.serializeFixed sizeRequired ++ behind) 64 = .ok m.bufferId ∧
      readU16 (m.serializeFixed sizeRequired ++ behind) 68 = .ok (sentPort m) ∧
      readU16 (m.serializeFixed sizeRequired ++ behind) 70 = .ok m.flags := by
  have hmatch : (m.flowDescription.criteria.serialize).length = 40 := length_serialize _
  simp (disch := simp [hmatch]) only [OfMessageModifyFlow.serializeFixed, List.append_assoc,
    List.cons_append, List.nil_append, readU16_cons_succ, readU32_cons_succ, readU16_append_right,
    readU32_append_right, readU16_be16, readU32_be32, length_be16, length_be32, length_be64, hmatch,
    Nat.reduceSub, true_and]
  exact ⟨rfl, trivial⟩

/-- What the decoder makes of the fixed part, whatever is behind it. -/
theorem deserialize_flowModFixed (m : OfMessageModifyFlow) (sizeRequired : Nat) (behind : Bytes) :
    OfMessageModifyFlow.deserialize (m.serializeFixed sizeRequired ++ behind) =
      .ok (some (rereadFlowMod m sizeRequired)) := by
  obtain ⟨hmatch, hcookie⟩ := flowModFixed_slices m sizeRequired behind
  obtain ⟨hcommand, hidle, hhard, hpriority, hbuffer, hport, hflags⟩ :=
    flowModFixed_reads m sizeRequired behind
  obtain ⟨hsend, hoverlap, hemerg⟩ := flags_and m
  have hlong : ¬ (decide ((m.serializeFixed sizeRequired ++ behind).length < OfMatch.wireSize) ||
      (Ofpt.flowMod != Ofpt.flowMod)) = true := by
    simp [length_flowModFixed, OfMessageModifyFlow.fixedSize, OfMatch.wireSize]
    omega
  rw [OfMessageModifyFlow.deserialize, flowModFixed_header, ok_bind]
  dsimp only
  rw [if_neg hlong]
  simp only [OfMatch.wireSize, hmatch, hcookie, ok_bind, deserialize_serialize, hcommand, ofU16?_toU16,
    hidle, hhard, hpriority, hbuffer, hport, hflags, hsend, hoverlap, hemerg]
  rfl

/--
A flow-mod can be written with these actions: they take no room in 32 bits, so that they
are left out, or there is no vendor action among them and the message stays below 2 GiB.
-/
def Serializable (l : OpenflowActionList) : Prop :=
  totalSize l.actions % 2 ^ 32 = 0 ∨
    (∀ a ∈ l.actions, Writable a) ∧ OfMessageModifyFlow.fixedSize + totalSize l.actions < 2 ^ 31

theorem exists_serialize_flowMod_iff (m : OfMessageModifyFlow) :
    (∃ bytes, m.serialize = .ok bytes) ↔ Serializable m.flowDescription.actionList := by
  have hsize : m.flowDescription.actionList.getSerializationSize =
      totalSize m.flowDescription.actionList.actions % 2 ^ 32 := rfl
  unfold OfMessageModifyFlow.serialize Serializable
  simp only [hsize, OfMessageModifyFlow.fixedSize]
  generalize m.flowDescription.actionList = l at *
  by_cases hzero : totalSize l.actions % 2 ^ 32 = 0
  · -- nothing is written behind the fixed part
    rw [hzero, if_neg (by decide), if_neg (by decide)]
    exact ⟨fun _ => Or.inl rfl, fun _ => ⟨_, rfl⟩⟩
  · refine ⟨?_, ?_⟩
    · intro ⟨bytes, h⟩
      refine Or.inr ?_
      split at h
      · cases h
      · rename_i hfits
        rw [if_pos (Nat.pos_of_ne_zero hzero)] at h
        obtain ⟨_, hptr, h⟩ := bind_eq_ok.mp h
        obtain ⟨actions, hactions, _⟩ := bind_eq_ok.mp h
        have hbelow := (ptrOffsetMutable_eq_ok_iff.mp hptr).2
        rw [serialize_eq_serializeAt] at hactions
        have hne : l.actions ≠ [] := by
          intro hnil
          exact hzero (by rw [hnil]; rfl)
        have htotal := totalSize_lt_of_serializeAt hne (by rw [hsize, Nat.zero_add]) (by decide) hactions
        refine ⟨writable_of_serializeAt hactions, ?_⟩
        -- behind 2 GiB the size of the message is a negative `int`
        by_contra hge
        have hneg := asInt_neg (v := (72 + totalSize l.actions % 2 ^ 32) % 2 ^ 32) (by omega) (by omega)
        rw [asInt_of_lt (by decide)] at hbelow
        omega
    · intro h
      obtain ⟨hwritable, hlt⟩ := h.resolve_left hzero
      have hmod : totalSize l.actions % 2 ^ 32 = totalSize l.actions := Nat.mod_eq_of_lt (by omega)
      have hmod' : (72 + totalSize l.actions) % 2 ^ 32 = 72 + totalSize l.actions :=
        Nat.mod_eq_of_lt (by omega)
      have hptr : ptrOffsetMutable (72 + totalSize l.actions) 72 = .ok () := by
        rw [ptrOffsetMutable_eq_ok_iff, asInt_of_lt (by omega), asInt_of_lt (by omega)]
        omega
      have hwhole : 0 + totalSize l.actions = l.getSerializationSize := by
        rw [Nat.zero_add, hsize, hmod]
      obtain ⟨actions, hactions⟩ := exists_serializeAt (fun _ => 0) hwritable hwhole (by omega)
      rw [hmod, hmod', if_neg (by omega), if_pos (by omega), hptr, ok_bind,
        serialize_eq_serializeAt, hactions, ok_bind, pure_eq_ok]
      exact ⟨_, rfl⟩

/-- The actions are written behind the fixed part, if there are any. -/
theorem serialize_flowMod {m : OfMessageModifyFlow} {actions : Bytes} (h : Sendable m actions) :
    m.serialize = .ok (m.serializeFixed (OfMessageModifyFlow.fixedSize + actions.length) ++ actions) := by
  have hactions := h.actions_eq
  have hfits := h.fits
  have hlen : actions.length = totalSize m.flowDescription.actionList.actions := by
    rw [serialize_eq_serializeAt] at hactions
    exact length_serializeAt hactions
  rw [OfMessageModifyFlow.fixedSize] at hfits
  have hlist : m.flowDescription.actionList.getSerializationSize = actions.length := by
    rw [hlen]
    exact Nat.mod_eq_of_lt (show totalSize m.flowDescription.actionList.actions < 2 ^ 32 by omega)
  have hmod : (72 + actions.length) % 2 ^ 32 = 72 + actions.length := Nat.mod_eq_of_lt (by omega)
  simp only [OfMessageModifyFlow.serialize, hlist, OfMessageModifyFlow.fixedSize, hmod]
  rw [if_neg (by omega)]
  split
  · have hptr : ptrOffsetMutable (72 + actions.length) 72 = .ok () := by
      rw [ptrOffsetMutable_eq_ok_iff, asInt_of_lt (by omega), asInt_of_lt (by omega)]
      omega
    rw [hptr, ok_bind, hactions, ok_bind, pure_eq_ok]
  · rename_i hnone
    rw [List.length_eq_zero_iff.mp (Nat.eq_zero_of_not_pos hnone), List.append_nil, pure_eq_ok]

/-- The flow-mod read back is the one that was written exactly if nothing in it is read as something else. -/
theorem rereadFlowMod_eq_iff {m : OfMessageModifyFlow} {actions : Bytes} (h : Sendable m actions)
    (sizeRequired : Nat) :
    rereadFlowMod m sizeRequired = { m with
      msgSize := UInt16.ofNat sizeRequired
      flowDescription := { m.flowDescription with actionList := .clear } } ↔ FlowModSurvives m := by
  have hcookie : UInt64.ofNat (ofBE (be64 m.flowDescription.cookie).reverse) = m.flowDescription.cookie ↔
      (be64 m.flowDescription.cookie).reverse = be64 m.flowDescription.cookie := eq_be64_iff (by simp)
  refine ⟨?_, ?_⟩
  · intro heq
    have hdescription := congrArg (fun m => m.flowDescription) heq
    have hport : sentPort m = m.outPort := congrArg (fun m => m.outPort) heq
    obtain ⟨hsrc, hdest⟩ := (reread_eq_iff h.src_le h.dest_le).mp
      (congrArg FlowDescription.criteria hdescription)
    refine ⟨hcookie.mp (congrArg FlowDescription.cookie hdescription), hsrc, hdest, ?_⟩
    intro hunused
    rw [← hport, sentPort, hunused]
    rfl
  · intro hs
    have hcriteria := (reread_eq_iff h.src_le h.dest_le).mpr ⟨hs.src, hs.dest⟩
    have hport : sentPort m = m.outPort ∧ (sentPort m != ofppNone) = m.useOutPort := by
      unfold sentPort
      cases huse : m.useOutPort with
      | false => exact ⟨(hs.outPort huse).symm, rfl⟩
      | true => exact ⟨rfl, bne_iff_ne.mpr (h.outPort_ne huse)⟩
    rw [rereadFlowMod, hcriteria, hcookie.mpr hs.cookie, hport.1]
    rw [hport.1] at hport
    rw [hport.2]

theorem flowMod_survives_iff {m : OfMessageModifyFlow} {actions : Bytes} (h : Sendable m actions) :
    FlowModRoundTrips m ↔ FlowModSurvives m := by
  have hfits := h.fits
  have hsize : (UInt16.ofNat (OfMessageModifyFlow.fixedSize + actions.length)).toNat =
      (m.serializeFixed (OfMessageModifyFlow.fixedSize + actions.length) ++ actions).length := by
    rw [UInt16.toNat_ofNat', Nat.mod_eq_of_lt (by omega), List.length_append, length_flowModFixed]
  have hlength : readU16 (m.serializeFixed (OfMessageModifyFlow.fixedSize + actions.length) ++ actions) 2 =
      .ok (UInt16.ofNat (OfMessageModifyFlow.fixedSize + actions.length)) := by
    simp (disch := simp) only [OfMessageModifyFlow.serializeFixed, List.append_assoc, List.cons_append,
      List.nil_append, readU16_cons_succ, readU16_be16]
  rw [← rereadFlowMod_eq_iff h (OfMessageModifyFlow.fixedSize + actions.length)]
  refine ⟨?_, ?_⟩
  · intro ⟨bytes, size, hbytes, hread, _, hdecode⟩
    rw [serialize_flowMod h] at hbytes
    obtain rfl := Except.ok.inj hbytes
    rw [hlength] at hread
    obtain rfl := Except.ok.inj hread
    rw [deserialize_flowModFixed] at hdecode
    exact Option.some.inj (Except.ok.inj hdecode)
  · intro heq
    refine ⟨_, _, serialize_flowMod h, hlength, hsize, ?_⟩
    rw [deserialize_flowModFixed, heq]

/-! ## Reading past the end -/

/-- A flow-mod with a match, but not with all that is read of it; an unknown command stops the decoder. -/
structure FlowModCut (input : Bytes) : Prop where
  type_eq : readU8 input 1 = .ok Ofpt.flowMod
  match_le : OfMatch.wireSize ≤ input.length
  lt_fixed : input.length < OfMessageModifyFlow.fixedSize
  command : ∀ cmd, readU16 input 56 = .ok cmd → FlowModCommand.ofU16? cmd ≠ none

theorem flowMod_overread {input : Bytes} (h : FlowModCut input) :
    OfMessageModifyFlow.deserialize input = .error .outOfBounds := by
  have hmatch : 40 ≤ input.length := h.match_le
  have hlt : input.length < 72 := h.lt_fixed
  obtain ⟨size, hsize⟩ := answers_readU16 (show 2 + 2 ≤ input.length by omega)
  obtain ⟨version, xid, hheader⟩ := deserialize_messageHeader (by omega) h.type_eq (by decide) hsize
  have hlong : ¬ (decide (input.length < OfMatch.wireSize) || (Ofpt.flowMod != Ofpt.flowMod)) = true := by
    simpa only [bne_self_eq_false, Bool.or_false, decide_eq_true_eq, Nat.not_lt] using h.match_le
  rw [OfMessageModifyFlow.deserialize, hheader, ok_bind]
  dsimp only
  rw [if_neg hlong]
  by_cases h48 : 8 + 40 ≤ input.length
  · obtain ⟨criteria, hcriteria⟩ := exists_match
      (show ((input.drop 8).take 40).length = 40 by rw [List.length_take, List.length_drop]; omega)
    rw [OfMatch.wireSize, slice_ok h48, ok_bind, hcriteria, ok_bind]
    dsimp only
    refine (inBoundsOrOver_slice ..).bind_over fun cookie => ?_
    cases hcmd : readU16 input 56 with
    | error e =>
        rcases (inBoundsOrOver_slice input 56 2).map fun l => UInt16.ofNat (ofBE l) with hover | ⟨cmd, hok⟩
        · rw [readU16, hover] at hcmd
          cases hcmd
          rfl
        · rw [readU16, hok] at hcmd
          cases hcmd
    | ok cmd =>
        rw [ok_bind]
        cases hcommand : FlowModCommand.ofU16? cmd with
        | none => exact absurd hcommand (h.command cmd hcmd)
        | some command =>
            dsimp only
            refine ((inBoundsOrOver_slice ..).map _).bind_over fun idle => ?_
            refine ((inBoundsOrOver_slice ..).map _).bind_over fun hard => ?_
            refine ((inBoundsOrOver_slice ..).map _).bind_over fun priority => ?_
            refine ((inBoundsOrOver_slice ..).map _).bind_over fun buffer => ?_
            refine ((inBoundsOrOver_slice ..).map _).bind_over fun port => ?_
            rw [readU16_error (by omega), error_bind]
  · rw [OfMatch.wireSize, slice_error (by omega), error_bind]

theorem flowMod_answers {input : Bytes} (h : ¬ FlowModCut input) :
    Answers (OfMessageModifyFlow.deserialize input) := by
  rw [OfMessageModifyFlow.deserialize]
  rcases messageHeader_cases input with hnone | ⟨header, hheader, _, htype⟩
  · rw [hnone]
    exact answers_ok _
  rw [hheader, ok_bind]
  dsimp only
  split
  · exact answers_ok _
  rename_i hlong
  simp only [Bool.or_eq_true, decide_eq_true_eq, bne_iff_ne, not_or, not_not, Nat.not_lt] at hlong
  rw [hlong.2] at htype
  -- the message is whole, or its command is there and stops the decoder
  have hwhole : 72 ≤ input.length ∨
      ∃ cmd, readU16 input 56 = .ok cmd ∧ FlowModCommand.ofU16? cmd = none := by
    by_contra hno
    rw [not_or] at hno
    refine h ⟨htype, hlong.1, Nat.lt_of_not_le hno.1, ?_⟩
    intro cmd hcmd hunknown
    exact hno.2 ⟨cmd, hcmd, hunknown⟩
  have h58 : 58 ≤ input.length := by
    rcases hwhole with h72 | ⟨cmd, hcmd, _⟩
    · omega
    · exact le_of_readU16 hcmd
  obtain ⟨criteria, hcriteria⟩ := exists_match
    (show ((input.drop 8).take 40).length = 40 by rw [List.length_take, List.length_drop]; omega)
  obtain ⟨cmd, hcmd⟩ := answers_readU16 (show 56 + 2 ≤ input.length by omega)
  rw [OfMatch.wireSize, slice_ok (by omega), ok_bind, hcriteria, ok_bind]
  dsimp only
  rw [slice_ok (by omega), ok_bind, hcmd, ok_bind]
  cases hcommand : FlowModCommand.ofU16? cmd with
  | none => exact answers_ok _
  | some command =>
      have h72 : 72 ≤ input.length := by
        rcases hwhole with h72 | ⟨cmd', hcmd', hunknown⟩
        · exact h72
        · rw [hcmd] at hcmd'
          rw [← Except.ok.inj hcmd', hcommand] at hunknown
          cases hunknown
      dsimp only
      refine (answers_readU16 (by omega)).bind fun idle => ?_
      refine (answers_readU16 (by omega)).bind fun hard => ?_
      refine (answers_readU16 (by omega)).bind fun priority => ?_
      refine (answers_readU32 (by omega)).bind fun buffer => ?_
      refine (answers_readU16 (by omega)).bind fun port => ?_
      exact (answers_readU16 (by omega)).bind fun flags => answers_ok _

theorem flowMod_within_iff (input : Bytes) :
    OfMessageModifyFlow.deserialize input ≠ .error .outOfBounds ↔ ¬ FlowModCut input := by
  refine ⟨fun h hcut => h (flowMod_overread hcut), ?_⟩
  intro h hover
  obtain ⟨r, hr⟩ := flowMod_answers h
  rw [hr] at hover
  cases hover

/-! ## Both -/

/--
**When a flow-mod survives the wire, and when reading one stays inside it.** It comes
back as it was exactly if its cookie is the same in both byte orders, its match
ignores none or all of the bits of each address, and a port it does not use is
`OFPP_NONE`. The decoder reads on behind a message exactly if that has the size of a
match, but not of a flow-mod, and no unknown command stops it before.
-/
theorem flowMod_round_trip_iff (m : OfMessageModifyFlow) (actions input : Bytes) :
    (Sendable m actions → (FlowModRoundTrips m ↔ FlowModSurvives m)) ∧
      (OfMessageModifyFlow.deserialize input ≠ .error .outOfBounds ↔ ¬ FlowModCut input) :=
  ⟨flowMod_survives_iff, flowMod_within_iff input⟩

/-- A flow-mod that matches everything, puts it on VLAN 7 and sends it out of port 1. -/
def forwardTagged (cookie : UInt64) : OfMessageModifyFlow where
  version := 1
  msgSize := 0
  xid := 5
  flowDescription := ⟨OfMatch.clear.wildcardAll, ⟨[.setVlanId 7, .outputToPort false 1]⟩, cookie, 100⟩
  hardTimeout := 30

/-- Its actions on the wire. -/
def forwardTaggedActions : Bytes := [0, 1, 0, 8, 0, 7, 0, 0, 0, 0, 0, 8, 0, 1, 0xff, 0xff]

theorem forwardTagged_sendable (cookie : UInt64) : Sendable (forwardTagged cookie) forwardTaggedActions := by
  have hactions : OpenflowActionList.serialize (fun _ => 0) ⟨[.setVlanId 7, .outputToPort false 1]⟩ =
      .ok forwardTaggedActions := by decide
  refine ⟨?_, ?_, ?_, hactions, by decide⟩
  · exact (by decide : (32 : UInt8) ≤ 32)
  · exact (by decide : (32 : UInt8) ≤ 32)
  · intro h
    cases h

/-- It survives with a cookie that is the same from both ends. -/
theorem forwardTagged_survives : FlowModRoundTrips (forwardTagged 0x0100020000020001) := by
  have hiff := (flowMod_round_trip_iff (forwardTagged 0x0100020000020001) forwardTaggedActions []).1
    (forwardTagged_sendable _)
  exact hiff.mpr ⟨by decide, .inr rfl, .inr rfl, fun _ => rfl⟩

/-- With cookie 1 it comes back with another cookie. -/
theorem forwardTagged_changed :
    ¬ ((∀ (m : OfMessageModifyFlow) (actions : Bytes), Sendable m actions → FlowModRoundTrips m) ∧
      ∀ input : Bytes, OfMessageModifyFlow.deserialize input ≠ .error .outOfBounds) := by
  intro h
  have hsendable := forwardTagged_sendable 1
  have hsurvives := (flowMod_survives_iff hsendable).mp (h.1 (forwardTagged 1) forwardTaggedActions hsendable)
  exact absurd hsurvives.cookie (by decide)

end IronStack.Proof
