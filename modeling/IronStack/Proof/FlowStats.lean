import IronStack.Proof.MatchCodec
import IronStack.Proof.MessageFactory

/-!
# What a reply with flows says

What the bytes of a reply with flow statistics mean, as the records of OpenFlow have it:
a match with its two counts of ignored bits, actions one behind the other, and flows as
long as they say they are. The decoder is then compared with it. It turns down actions
that have a meaning, takes lists of actions that have none, and does not look at the
flag in a reply without flows.
-/

namespace IronStack.Proof

open IronStack Lib OfAction OpenflowActionList OfMatch

/-! ## A match -/

/-- One of the two counts in the wildcard word, of which 32 and more are all the same. -/
def ignoredBits (wildcards shift : UInt32) : Nat := ((wildcards >>> shift) &&& 63).toNat

/-- The wildcard word of a match. -/
structure WildcardsSay (wildcards : UInt32) (m : OfMatch) : Prop where
  inPort : m.wildcardInPort = hasFlag wildcards Ofpfw.inPort
  ethernetSrc : m.wildcardEthernetSrc = hasFlag wildcards Ofpfw.dlSrc
  ethernetDest : m.wildcardEthernetDest = hasFlag wildcards Ofpfw.dlDst
  vlanId : m.wildcardVlanId = hasFlag wildcards Ofpfw.dlVlan
  vlanPcp : m.wildcardVlanPcp = hasFlag wildcards Ofpfw.dlVlanPcp
  ethernetFrameType : m.wildcardEthernetFrameType = hasFlag wildcards Ofpfw.dlType
  ipTypeOfService : m.wildcardIpTypeOfService = hasFlag wildcards Ofpfw.nwTos
  ipProtocol : m.wildcardIpProtocol = hasFlag wildcards Ofpfw.nwProto
  tcpudpSrcPort : m.wildcardTcpudpSrcPort = hasFlag wildcards Ofpfw.tpSrc
  tcpudpDestPort : m.wildcardTcpudpDestPort = hasFlag wildcards Ofpfw.tpDst
  ipSrcLsbCount : m.wildcardIpSrcLsbCount.toNat = min 32 (ignoredBits wildcards Ofpfw.nwSrcShift)
  ipDestLsbCount : m.wildcardIpDestLsbCount.toNat = min 32 (ignoredBits wildcards Ofpfw.nwDstShift)

/-- `struct ofp_match`. -/
structure MatchSays (b : Bytes) (m : OfMatch) : Prop where
  wildcards : ∃ w, readU32 b 0 = .ok w ∧ WildcardsSay w m
  inPort : readU16 b 4 = .ok m.inPort
  ethernetSrc : readVec 6 b 6 = .ok m.ethernetSrc.addr
  ethernetDest : readVec 6 b 12 = .ok m.ethernetDest.addr
  vlanId : readU16 b 18 = .ok m.vlanId
  vlanPcp : readU8 b 20 = .ok m.vlanPcp
  ethernetFrameType : readU16 b 22 = .ok m.ethernetFrameType
  ipTypeOfService : readU8 b 24 = .ok m.ipTypeOfService
  ipProtocol : readU8 b 25 = .ok m.ipProtocol
  ipSrcAddress : readVec 4 b 28 = .ok m.ipSrcAddress.octets
  ipDestAddress : readVec 4 b 32 = .ok m.ipDestAddress.octets
  tcpudpSrcPort : readU16 b 36 = .ok m.tcpudpSrcPort
  tcpudpDestPort : readU16 b 38 = .ok m.tcpudpDestPort

/-- A count that the decoder reads as it is: no bits are ignored, or all. -/
def CountKept (wildcards shift : UInt32) : Prop :=
  ignoredBits wildcards shift = 0 ∨ 32 ≤ ignoredBits wildcards shift

/-- Both counts of the match at the start of some bytes are read as they are. -/
def CountsKept (b : Bytes) : Prop :=
  ∃ w, readU32 b 0 = .ok w ∧ CountKept w Ofpfw.nwSrcShift ∧ CountKept w Ofpfw.nwDstShift

/-- What the decoder makes of the six bits of a count, which it moves by their number. -/
def recounted (shift bits : UInt32) : UInt8 :=
  if (bits &&& 32) <<< shift ≠ 0 then 32 else ((bits <<< shift) >>> 6).toUInt8

theorem lsbCount_eq (w shift : UInt32) :
    lsbCount w ((32 : UInt32) <<< shift) ((63 : UInt32) <<< shift) 6 =
      recounted shift ((w >>> shift) &&& 63) := by
  have hall : (w >>> shift) &&& 32 = (w >>> shift) &&& 63 &&& 32 := by
    rw [UInt32.and_assoc]
    rfl
  rw [lsbCount, and_shiftLeft, and_shiftLeft, hall]
  rfl

/-- Of the 64 counts there can be, none from 1 to 31 is read as it is. -/
theorem recounted_iff : ∀ n ∈ List.range 64,
    ((recounted Ofpfw.nwSrcShift (UInt32.ofNat n)).toNat = min 32 n ↔ n = 0 ∨ 32 ≤ n) ∧
      ((recounted Ofpfw.nwDstShift (UInt32.ofNat n)).toNat = min 32 n ↔ n = 0 ∨ 32 ≤ n) := by
  decide

theorem lsbCount_iff {shift : UInt32} (w : UInt32) (hshift : shift ∈ [Ofpfw.nwSrcShift, Ofpfw.nwDstShift]) :
    (lsbCount w ((32 : UInt32) <<< shift) ((63 : UInt32) <<< shift) 6).toNat = min 32 (ignoredBits w shift) ↔
      CountKept w shift := by
  have hlt : ignoredBits w shift < 64 := by
    rw [ignoredBits, UInt32.toNat_and]
    exact Nat.lt_succ_of_le Nat.and_le_right
  have hbits : (w >>> shift) &&& 63 = UInt32.ofNat (ignoredBits w shift) := by
    rw [ignoredBits, UInt32.ofNat_toNat]
  obtain ⟨hsrc, hdst⟩ := recounted_iff _ (List.mem_range.mpr hlt)
  rw [lsbCount_eq, hbits]
  rcases List.mem_pair.mp hshift with rfl | rfl
  · exact hsrc
  · exact hdst

/-- **What the decoder reads is what a match says**, if its counts are none or all. -/
theorem matchSays_iff {b : Bytes} {m : OfMatch} (h : OfMatch.deserialize b = .ok (some m)) :
    MatchSays b m ↔ CountsKept b := by
  unfold OfMatch.deserialize at h
  split at h
  · cases h
  · obtain ⟨inPort, hinPort, h⟩ := bind_eq_ok.mp h
    obtain ⟨ethernetSrc, hethernetSrc, h⟩ := bind_eq_ok.mp h
    obtain ⟨ethernetDest, hethernetDest, h⟩ := bind_eq_ok.mp h
    obtain ⟨vlanId, hvlanId, h⟩ := bind_eq_ok.mp h
    obtain ⟨vlanPcp, hvlanPcp, h⟩ := bind_eq_ok.mp h
    obtain ⟨frameType, hframeType, h⟩ := bind_eq_ok.mp h
    obtain ⟨typeOfService, htypeOfService, h⟩ := bind_eq_ok.mp h
    obtain ⟨protocol, hprotocol, h⟩ := bind_eq_ok.mp h
    obtain ⟨ipSrc, hipSrc, h⟩ := bind_eq_ok.mp h
    obtain ⟨ipDest, hipDest, h⟩ := bind_eq_ok.mp h
    obtain ⟨srcPort, hsrcPort, h⟩ := bind_eq_ok.mp h
    obtain ⟨destPort, hdestPort, h⟩ := bind_eq_ok.mp h
    obtain ⟨w, hw, h⟩ := bind_eq_ok.mp h
    obtain rfl := Option.some.inj (Except.ok.inj h)
    have hsrc := lsbCount_iff w (show Ofpfw.nwSrcShift ∈ [Ofpfw.nwSrcShift, Ofpfw.nwDstShift] by simp)
    have hdst := lsbCount_iff w (show Ofpfw.nwDstShift ∈ [Ofpfw.nwSrcShift, Ofpfw.nwDstShift] by simp)
    refine ⟨?_, ?_⟩
    · intro hsays
      obtain ⟨w', hw', hcounts⟩ := hsays.wildcards
      obtain rfl := Except.ok.inj (hw.symm.trans hw')
      exact ⟨w, hw, hsrc.mp hcounts.ipSrcLsbCount, hdst.mp hcounts.ipDestLsbCount⟩
    · intro ⟨w', hw', hkeptSrc, hkeptDst⟩
      obtain rfl := Except.ok.inj (hw.symm.trans hw')
      exact ⟨⟨w, hw, rfl, rfl, rfl, rfl, rfl, rfl, rfl, rfl, rfl, rfl, hsrc.mpr hkeptSrc, hdst.mpr hkeptDst⟩,
        hinPort, hethernetSrc, hethernetDest, hvlanId, hvlanPcp, hframeType, htypeOfService, hprotocol,
        hipSrc, hipDest, hsrcPort, hdestPort⟩

/-! ## Actions -/

/-- A record of a type, of the size that it announces. -/
structure IsRecord (record : Bytes) (type size : UInt16) : Prop where
  header : HasHeader record type size
  length_eq : record.length = size.toNat

/-- `struct ofp_action_*`. -/
def ActionSays (record : Bytes) : OfAction → Prop
  | .outputToPort sendToController port =>
      IsRecord record Ofpat.output 8 ∧ readU16 record 4 = .ok port ∧
        sendToController = (port == ofppController)
  | .enqueue port queueId =>
      IsRecord record Ofpat.enqueue 16 ∧ readU16 record 4 = .ok port ∧ readU32 record 12 = .ok queueId
  | .setVlanId vlanId => IsRecord record Ofpat.setVlanVid 8 ∧ readU16 record 4 = .ok vlanId
  | .setVlanPcp vlanPcp => IsRecord record Ofpat.setVlanPcp 8 ∧ readU8 record 4 = .ok vlanPcp
  | .stripVlan => IsRecord record Ofpat.stripVlan 8
  | .setMacAddress setSrc newAddr =>
      IsRecord record (if setSrc then Ofpat.setDlSrc else Ofpat.setDlDst) 16 ∧
        readVec 6 record 4 = .ok newAddr.addr
  | .setIpAddress setSrc newAddr =>
      IsRecord record (if setSrc then Ofpat.setNwSrc else Ofpat.setNwDst) 8 ∧
        readVec 4 record 4 = .ok newAddr.octets
  | .setIpTypeOfService typeOfService =>
      IsRecord record Ofpat.setNwTos 8 ∧ readU8 record 4 = .ok typeOfService
  | .setTcpudpPort setSrcPort port =>
      IsRecord record (if setSrcPort then Ofpat.setTpSrc else Ofpat.setTpDst) 8 ∧ readU16 record 4 = .ok port
  | .vendor id request =>
      ∃ size, IsRecord record Ofpat.vendor size ∧ 8 ∣ record.length ∧ readU32 record 4 = .ok id ∧
        slice record 8 (record.length - 8) = .ok request

/-- Some bytes are the records of these actions. -/
def ActionsSay (region : Bytes) (actions : List OfAction) : Prop :=
  ∃ records : List Bytes, region = records.flatten ∧ List.Forall₂ ActionSays records actions

/-- An action whose record the decoder knows. -/
def KnownAction : OfAction → Prop
  | .setIpAddress _ _ | .setTcpudpPort _ _ | .vendor _ _ => False
  | _ => True

theorem length_actionSays {record : Bytes} {a : OfAction} (h : ActionSays record a) :
    record.length = a.getDeserializationSize ∧ 8 ≤ record.length := by
  cases a with
  | vendor id request =>
      obtain ⟨_, _, _, _, hrequest⟩ := h
      have hle : 8 ≤ record.length := by
        by_contra hlt
        rw [slice_error (by omega)] at hrequest
        cases hrequest
      rw [slice_ok (by omega)] at hrequest
      have hlen := congrArg List.length (Except.ok.inj hrequest)
      rw [List.length_take, List.length_drop] at hlen
      have hsize : getDeserializationSize (.vendor id request) = 8 + request.length := rfl
      omega
  | stripVlan =>
      have hlen := h.length_eq
      exact ⟨hlen, by rw [hlen]; decide⟩
  | _ =>
      have hlen := h.1.length_eq
      exact ⟨hlen, by rw [hlen]; decide⟩

theorem length_actionsSay {region : Bytes} {actions : List OfAction} (h : ActionsSay region actions) :
    region.length = totalSize actions := by
  obtain ⟨records, rfl, hsay⟩ := h
  induction hsay with
  | nil => rfl
  | cons hone _ ih =>
      rw [List.flatten_cons, List.length_append, totalSize_cons, ih, (length_actionSays hone).1]

theorem HasHeader.take {content : Bytes} {type size : UInt16} {k : Nat} (h : HasHeader content type size)
    (hge : 4 ≤ k) (hle : k ≤ content.length) : HasHeader (content.take k) type size := by
  refine ⟨?_, ?_⟩
  · rw [readU16_take (by omega) hle]
    exact h.type_eq
  · rw [readU16_take (by omega) hle]
    exact h.len_eq

/-- The record that a decoder was given starts with its type, and is as long as that type's records. -/
theorem isRecord_of_decoder {type len : UInt16} {rest : Bytes} {n size : Nat} {a : OfAction}
    {accepts : UInt16 → Bool} {fields : Bytes → Read OfAction} (decoder : Autobuf → Read (Option OfAction))
    (htype : ∀ content, deserializeAs (actionTypeOf type) content = decoder content)
    (hdecoder : ∀ content, decoder content = deserializeRecord content accepts size fields) (hn : 8 ≤ n)
    (h : OfAction.deserialize ⟨be16 type ++ (be16 len ++ rest), n⟩ = .ok (some a)) :
    accepts type = true ∧ len.toNat = size ∧ fields (be16 type ++ (be16 len ++ rest)) = .ok a := by
  rw [deserialize_eq_decoder decoder htype hdecoder hn] at h
  split at h
  · rename_i haccepts
    obtain ⟨a', ha', heq⟩ := map_eq_ok.mp h
    obtain rfl := Option.some.inj heq
    simp only [Bool.and_eq_true, beq_iff_eq] at haccepts
    exact ⟨haccepts.1, haccepts.2, ha'⟩
  · cases h

theorem isRecord_take {content : Bytes} {type len s : UInt16} {n : Nat} (h : HasHeader content type len)
    (hge : 4 ≤ s.toNat) (hsize : s.toNat = n) (hlen : len.toNat = n) (hle : n ≤ content.length) :
    IsRecord (content.take n) type s := by
  obtain rfl := UInt16.toNat_inj.mp (hlen.trans hsize.symm)
  exact ⟨h.take (hsize ▸ hge) hle, (List.length_take_of_le hle).trans hsize.symm⟩

/-- **What the decoder reads is what the record says.** -/
theorem actionSays_of_deserialize {content : Bytes} {a : OfAction} {n : Nat} (hn : 8 ≤ n)
    (hmem : 8 ≤ content.length) (h : OfAction.deserialize ⟨content, n⟩ = .ok (some a))
    (hle : a.getDeserializationSize ≤ content.length) :
    ActionSays (content.take a.getDeserializationSize) a := by
  obtain ⟨type, len, rest, rfl⟩ := exists_header hmem
  have hheader := hasHeader_append type len rest
  rcases actionType_cases type with rfl | rfl | rfl | rfl | rfl | rfl | htype | rfl | htype | rfl |
    rfl | hunknown
  · obtain ⟨_, hlen, hfields⟩ := isRecord_of_decoder deserializeOutputToPort (fun _ => rfl)
      (fun _ => rfl) hn h
    obtain ⟨port, hport, hfields⟩ := bind_eq_ok.mp hfields
    obtain rfl := Except.ok.inj hfields
    exact ⟨isRecord_take (s := 8) hheader (by decide) rfl hlen hle,
      (readU16_take (k := 8) (by omega) hle).trans hport, rfl⟩
  · obtain ⟨_, hlen, hfields⟩ := isRecord_of_decoder deserializeSetVlanId (fun _ => rfl) (fun _ => rfl) hn h
    obtain ⟨vlanId, hvlanId, hfields⟩ := bind_eq_ok.mp hfields
    obtain rfl := Except.ok.inj hfields
    exact ⟨isRecord_take (s := 8) hheader (by decide) rfl hlen hle,
      (readU16_take (k := 8) (by omega) hle).trans hvlanId⟩
  · obtain ⟨_, hlen, hfields⟩ := isRecord_of_decoder deserializeSetVlanPcp (fun _ => rfl) (fun _ => rfl) hn h
    obtain ⟨vlanPcp, hvlanPcp, hfields⟩ := bind_eq_ok.mp hfields
    obtain rfl := Except.ok.inj hfields
    exact ⟨isRecord_take (s := 8) hheader (by decide) rfl hlen hle,
      (readU8_take (k := 8) (by omega) hle).trans hvlanPcp⟩
  · obtain ⟨_, hlen, hfields⟩ := isRecord_of_decoder deserializeStripVlan (fun _ => rfl) (fun _ => rfl) hn h
    obtain rfl := Except.ok.inj hfields
    exact isRecord_take (s := 8) hheader (by decide) rfl hlen hle
  · obtain ⟨_, hlen, hfields⟩ := isRecord_of_decoder deserializeSetMacAddress (fun _ => rfl)
      (fun _ => rfl) hn h
    rw [readU16_be16, ok_bind] at hfields
    obtain ⟨addr, haddr, hfields⟩ := bind_eq_ok.mp hfields
    obtain rfl := Except.ok.inj hfields
    exact ⟨isRecord_take (s := 16) hheader (by decide) rfl hlen hle,
      (readVec_take (k := 16) (by omega) hle).trans haddr⟩
  · obtain ⟨_, hlen, hfields⟩ := isRecord_of_decoder deserializeSetMacAddress (fun _ => rfl)
      (fun _ => rfl) hn h
    rw [readU16_be16, ok_bind] at hfields
    obtain ⟨addr, haddr, hfields⟩ := bind_eq_ok.mp hfields
    obtain rfl := Except.ok.inj hfields
    exact ⟨isRecord_take (s := 16) hheader (by decide) rfl hlen hle,
      (readVec_take (k := 16) (by omega) hle).trans haddr⟩
  · rw [deserialize_setIpAddress hn htype] at h
    cases h
  · obtain ⟨_, hlen, hfields⟩ :=
      isRecord_of_decoder deserializeSetIpTypeOfService (fun _ => rfl) (fun _ => rfl) hn h
    obtain ⟨typeOfService, htypeOfService, hfields⟩ := bind_eq_ok.mp hfields
    obtain rfl := Except.ok.inj hfields
    exact ⟨isRecord_take (s := 8) hheader (by decide) rfl hlen hle,
      (readU8_take (k := 8) (by omega) hle).trans htypeOfService⟩
  · rw [deserialize_setTcpudpPort hn htype] at h
    cases h
  · obtain ⟨_, hlen, hfields⟩ := isRecord_of_decoder deserializeEnqueue (fun _ => rfl) (fun _ => rfl) hn h
    obtain ⟨port, hport, hfields⟩ := bind_eq_ok.mp hfields
    obtain ⟨queueId, hqueueId, hfields⟩ := bind_eq_ok.mp hfields
    obtain rfl := Except.ok.inj hfields
    exact ⟨isRecord_take (s := 16) hheader (by decide) rfl hlen hle,
      (readU16_take (k := 16) (by omega) hle).trans hport,
      (readU32_take (k := 16) (by omega) hle).trans hqueueId⟩
  · rw [deserialize_vendor] at h
    cases h
  · rw [deserialize_header, hunknown] at h
    cases h

theorem isRecord_of_actionSays {record : Bytes} {a : OfAction} (h : ActionSays record a) :
    ∃ type size, IsRecord record type size := by
  cases a with
  | vendor id request =>
      obtain ⟨size, hrecord, _⟩ := h
      exact ⟨_, size, hrecord⟩
  | stripVlan => exact ⟨_, _, h⟩
  | _ => exact ⟨_, _, h.1⟩

/-- A record that says anything announces its own length. -/
theorem announced_length {record : Bytes} {a : OfAction} {n : Nat} (h : ActionSays record a)
    (hann : Announces record n) : n = record.length := by
  obtain ⟨type, size, hrecord⟩ := isRecord_of_actionSays h
  obtain ⟨type', size', hheader, _, hsize⟩ := hann
  obtain ⟨rfl, rfl⟩ := hrecord.header.unique hheader
  rw [hrecord.length_eq, hsize]

/-- The record of an action that the decoder knows is announced. -/
theorem announces_of_actionSays {record : Bytes} {a : OfAction} (h : ActionSays record a) :
    Announces record record.length ↔ KnownAction a := by
  have of_type : ∀ {type size : UInt16}, IsRecord record type size →
      (Announces record record.length ↔ acceptedSize type = some size.toNat) := by
    intro type size hrecord
    refine ⟨?_, ?_⟩
    · intro ⟨type', len', hheader', hsize, _⟩
      obtain ⟨rfl, rfl⟩ := hrecord.header.unique hheader'
      rw [hsize, hrecord.length_eq]
    · intro hsize
      exact ⟨type, size, hrecord.header, by rw [hsize, hrecord.length_eq], hrecord.length_eq.symm⟩
  cases a with
  | vendor id request =>
      obtain ⟨size, hrecord, _⟩ := h
      rw [of_type hrecord]
      exact ⟨fun hsome => (by cases hsome), fun hknown => hknown.elim⟩
  | stripVlan =>
      rw [of_type h]
      exact ⟨fun _ => trivial, fun _ => rfl⟩
  | setMacAddress setSrc _ =>
      rw [of_type h.1]
      refine ⟨fun _ => trivial, fun _ => ?_⟩
      cases setSrc <;> rfl
  | setIpAddress setSrc _ =>
      rw [of_type h.1]
      refine ⟨fun hsome => ?_, fun hknown => hknown.elim⟩
      cases setSrc <;> cases hsome
  | setTcpudpPort setSrcPort _ =>
      rw [of_type h.1]
      refine ⟨fun hsome => ?_, fun hknown => hknown.elim⟩
      cases setSrcPort <;> cases hsome
  | _ =>
      rw [of_type h.1]
      exact ⟨fun _ => trivial, fun _ => rfl⟩

section Walks

variable {memory : Bytes} {size : Nat}

/-- The loop goes over the records of actions that it knows, to their end. -/
theorem walk_of_known {records : List Bytes} {actions : List OfAction}
    (hsay : List.Forall₂ ActionSays records actions) (hknown : ∀ a ∈ actions, KnownAction a) {off : Nat}
    {behind : Bytes} (hdrop : memory.drop off = records.flatten ++ behind)
      (hsize : off + records.flatten.length = size) :
    ActionWalk memory size off size := by
  induction hsay generalizing off with
  | nil =>
      obtain rfl : off = size := hsize
      exact .here
  | @cons record a records actions hone _ ih =>
      rw [List.flatten_cons, List.append_assoc] at hdrop
      rw [List.flatten_cons, List.length_append] at hsize
      have hlen := length_actionSays hone
      have hann : Announces (memory.drop off) record.length := by
        rw [hdrop, Announces.append_iff (by omega)]
        exact (announces_of_actionSays hone).mpr (hknown a List.mem_cons_self)
      refine .step (by omega) hann (hann.not_faulty ?_)
        (ih (fun a' ha' => hknown a' (List.mem_cons_of_mem _ ha')) ?_
        (by omega))
      · rw [hdrop, List.length_append]
        omega
      · rw [← List.drop_drop, hdrop, List.drop_left]

/-- The loop does not come to the end over an action that it does not know. -/
theorem known_of_walk {records : List Bytes} {actions : List OfAction}
    (hsay : List.Forall₂ ActionSays records actions) {off off' : Nat} {behind : Bytes}
    (hdrop : memory.drop off = records.flatten ++ behind) (hsize : off + records.flatten.length = size)
    (hwalk : ActionWalk memory size off off') (hend : size < off' + 8) : ∀ a ∈ actions, KnownAction a := by
  induction hsay generalizing off with
  | nil => simp
  | @cons record a records actions hone _ ih =>
      rw [List.flatten_cons, List.append_assoc] at hdrop
      rw [List.flatten_cons, List.length_append] at hsize
      have hlen := length_actionSays hone
      cases hwalk with
      | here => omega
      | @step _ n _ _ hann _ htail =>
          rw [hdrop, Announces.append_iff (by omega)] at hann
          obtain rfl := announced_length hone hann
          intro a' ha'
          rcases List.mem_cons.mp ha' with rfl | ha'
          · exact (announces_of_actionSays hone).mp hann
          · refine ih ?_ (by omega) htail a' ha'
            rw [← List.drop_drop, hdrop, List.drop_left]

/-- **A list of actions that has a meaning is taken** if all of them are known. -/
theorem actionsTaken_iff_known {actions : List OfAction} (hle : size ≤ memory.length)
    (h : ActionsSay (memory.take size) actions) : ActionsTaken memory size ↔
      ∀ a ∈ actions, KnownAction a := by
  have htotal := length_actionsSay h
  obtain ⟨records, hrecords, hsay⟩ := h
  have hsize : 0 + records.flatten.length = size := by
    rw [Nat.zero_add, ← hrecords, List.length_take_of_le hle]
  have hdrop : memory.drop 0 = records.flatten ++ memory.drop size := by
    rw [List.drop_zero, ← hrecords, List.take_append_drop]
  refine ⟨?_, ?_⟩
  · intro htaken
    rcases htaken with hzero | ⟨_, off', hwalk, hend⟩
    · exact known_of_walk hsay hdrop hsize .here (by omega)
    · exact known_of_walk hsay hdrop hsize hwalk hend
  · intro hknown
    have hwalk := walk_of_known hsay hknown hdrop hsize
    cases hsay with
    | nil => exact .inl hsize.symm
    | cons hone _ =>
        have hlen := length_actionSays hone
        rw [List.flatten_cons, List.length_append] at hsize
        exact .inr ⟨by omega, size, hwalk, by omega⟩

/-- The loop moves on by the sizes of the actions it takes. -/
theorem offset_of_reads {buf : Autobuf} {off off' : Nat} {actions : List OfAction}
    (h : (deserializeLoop buf).Reads off actions off') : off' = off + totalSize actions := by
  induction h with
  | nil => rfl
  | @cons off n a actions off' _ hone _ ih =>
      have hone' : deserializeOne buf off = .ok (some (a, n)) := hone
      obtain ⟨_, _, hone'⟩ := bind_eq_ok.mp hone'
      obtain ⟨action, _, hone'⟩ := bind_eq_ok.mp hone'
      cases action with
      | none => cases hone'
      | some action =>
          cases hone'
          rw [ih, totalSize_cons, Nat.add_assoc]

/-- What the loop takes up to a place within the list is what the bytes up to there say. -/
theorem actionsSay_of_reads {off off' : Nat} {actions : List OfAction} (hsize : size < 2 ^ 31)
    (hmem : size ≤ memory.length) (h : (deserializeLoop ⟨memory, size⟩).Reads off actions off')
    (hle : off' ≤ size) :
    ActionsSay ((memory.drop off).take (totalSize actions)) actions := by
  induction h with
  | nil => exact ⟨[], rfl, .nil⟩
  | @cons off n a actions off' hmore hone htail ih =>
      have hlt : off + 8 ≤ size := of_decide_eq_true hmore
      have hone' : deserializeOne ⟨memory, size⟩ off = .ok (some (a, n)) := hone
      rw [deserializeOne_of_lt (by omega), map_eq_some] at hone'
      obtain ⟨a', ha, heq⟩ := hone'
      obtain ⟨rfl, rfl⟩ := Prod.mk.inj heq
      obtain ⟨records, hrecords, hsay⟩ := ih hle
      have hoff' := offset_of_reads htail
      have hdrop : (memory.drop off).length = memory.length - off := List.length_drop
      have hrecord := actionSays_of_deserialize (show 8 ≤ size - off by omega) (by rw [hdrop]; omega) ha
        (by rw [hdrop]; omega)
      refine ⟨_ :: records, ?_, .cons hrecord hsay⟩
      rw [totalSize_cons, List.take_add, List.drop_drop, hrecords, List.flatten_cons]

/-- **What the decoder takes for a list of actions** is what it says, if the loop ends where the list does. -/
theorem actionsSay_iff {l : OpenflowActionList} {off : Nat} (hsize : size < 2 ^ 31)
    (hmem : size ≤ memory.length)
    (h : OpenflowActionList.deserialize ⟨memory, size⟩ = .ok (some (l, off))) :
    ActionsSay (memory.take size) l.actions ↔ ActionWalk memory size 0 size := by
  unfold OpenflowActionList.deserialize at h
  split at h
  · rename_i hzero
    obtain rfl : size = 0 := hzero
    obtain ⟨rfl, _⟩ := Prod.mk.inj (Option.some.inj (Except.ok.inj h))
    exact ⟨fun _ => .here, fun _ => ⟨[], rfl, .nil⟩⟩
  · split at h
    · cases h
    · obtain ⟨⟨actions, off'⟩, hrun, heq⟩ := map_eq_some.mp h
      obtain ⟨rfl, rfl⟩ := Prod.mk.inj heq
      have hwalk := @reaches_iff_walk ⟨memory, size⟩ 0 size hsize hmem
      refine ⟨?_, ?_⟩
      · intro hsay
        have hlen := length_actionsSay hsay
        rw [List.length_take_of_le hmem] at hlen
        obtain ⟨hreads, _⟩ := RecordLoop.run_eq_some_iff.mp hrun
        have hoff' := offset_of_reads hreads
        obtain rfl : off' = size := by
          dsimp only at hlen
          omega
        exact hwalk.mp ⟨actions, hreads⟩
      · intro h
        obtain ⟨actions', hreads⟩ := hwalk.mpr h
        have hend : (deserializeLoop ⟨memory, size⟩).more size = false :=
          decide_eq_false (by dsimp only; omega)
        have hrun' := RecordLoop.run_eq_some_iff.mpr ⟨hreads, hend⟩
        obtain ⟨rfl, rfl⟩ := Prod.mk.inj (Option.some.inj (Except.ok.inj (hrun.symm.trans hrun')))
        have hsay := actionsSay_of_reads hsize hmem hreads (Nat.le_refl _)
        rwa [List.drop_zero, ← Nat.zero_add (totalSize _), ← offset_of_reads hreads] at hsay

end Walks

/-! ## Flows -/

/-- `struct ofp_flow_stats`, without its match. -/
structure FlowFixed (record : Bytes) (flow : FlowDescriptionAndStats) : Prop where
  tableId : readU8 record 2 = .ok flow.tableId
  durationSec : readU32 record 44 = .ok flow.durationAliveSec
  durationNsec : readU32 record 48 = .ok flow.durationAliveNsec
  priority : readU16 record 52 = .ok flow.flowDescription.priority
  idleTimeout : readU16 record 54 = .ok flow.durationToIdleTimeout
  hardTimeout : readU16 record 56 = .ok flow.durationToHardTimeout
  cookie : readU64 record 64 = .ok flow.flowDescription.cookie
  packetCount : readU64 record 72 = .ok flow.packetCount
  byteCount : readU64 record 80 = .ok flow.byteCount

/-- A whole record of a flow, as long as it says it is, whose actions end where it does. -/
structure FlowRecord (record : Bytes) (flow : FlowDescriptionAndStats) : Prop where
  length_eq : ∃ len : UInt16, readU16 record 0 = .ok len ∧ len.toNat = record.length
  fixed_le : 88 ≤ record.length
  fixed : FlowFixed record flow
  criteria : MatchSays ((record.drop 4).take 40) flow.flowDescription.criteria
  actions : ActionsSay (record.drop 88) flow.flowDescription.actionList.actions

/-- Some bytes are the records of these flows, one behind the other. -/
def FlowRecords (body : Bytes) (flows : List FlowDescriptionAndStats) : Prop :=
  ∃ records : List Bytes, body = records.flatten ∧ List.Forall₂ FlowRecord records flows

/-- What the decoder of a flow has read. -/
theorem flow_fields {memory : Bytes} {size : Nat} {flow : FlowDescriptionAndStats} {len : UInt16}
    (hlen : readU16 memory 0 = .ok len) (hsize : len.toNat = size) (hmem : size ≤ memory.length)
    (h : FlowDescriptionAndStats.deserialize ⟨memory, size⟩ = .ok (some flow)) :
    FlowFixed (memory.take size) flow ∧
      OfMatch.deserialize ((memory.drop 4).take 40) = .ok (some flow.flowDescription.criteria) ∧
      ∃ off, OpenflowActionList.deserialize ⟨memory.drop 88, size - 88⟩ =
        .ok (some (flow.flowDescription.actionList, off)) := by
  have hge : 88 ≤ size := FlowDescriptionAndStats.le_of_deserialize h
  unfold FlowDescriptionAndStats.deserialize at h
  rw [if_neg (show ¬ size < 88 by omega)] at h
  obtain ⟨len', hlen', h⟩ := bind_eq_ok.mp h
  obtain rfl := Except.ok.inj (hlen'.symm.trans hlen)
  obtain ⟨tableId, htableId, h⟩ := bind_eq_ok.mp h
  obtain ⟨criteria, hcriteria, h⟩ := bind_eq_ok.mp h
  cases criteria with
  | none => cases h
  | some criteria =>
      obtain ⟨sec, hsec, h⟩ := bind_eq_ok.mp h
      obtain ⟨nsec, hnsec, h⟩ := bind_eq_ok.mp h
      obtain ⟨priority, hpriority, h⟩ := bind_eq_ok.mp h
      obtain ⟨idle, hidle, h⟩ := bind_eq_ok.mp h
      obtain ⟨hard, hhard, h⟩ := bind_eq_ok.mp h
      obtain ⟨cookie, hcookie, h⟩ := bind_eq_ok.mp h
      obtain ⟨packets, hpackets, h⟩ := bind_eq_ok.mp h
      obtain ⟨bytes, hbytes, h⟩ := bind_eq_ok.mp h
      obtain ⟨r, hactions, h⟩ := bind_eq_ok.mp h
      cases r with
      | none => cases h
      | some r =>
          obtain rfl := Option.some.inj (Except.ok.inj h)
          have hlt := UInt16.toNat_lt len'
          rw [subU32_of_le (by omega) (by omega), hsize] at hactions
          refine ⟨⟨?_, ?_, ?_, ?_, ?_, ?_, ?_, ?_, ?_⟩, hcriteria, r.2, hactions⟩
          · exact (readU8_take (by omega) hmem).trans htableId
          · exact (readU32_take (by omega) hmem).trans hsec
          · exact (readU32_take (by omega) hmem).trans hnsec
          · exact (readU16_take (by omega) hmem).trans hpriority
          · exact (readU16_take (by omega) hmem).trans hidle
          · exact (readU16_take (by omega) hmem).trans hhard
          · exact (readU64_take (by omega) hmem).trans hcookie
          · exact (readU64_take (by omega) hmem).trans hpackets
          · exact (readU64_take (by omega) hmem).trans hbytes

/-- The actions of a flow end where it does, and the counts of its match are none or all. -/
structure FlowPlain (body : Bytes) (off len : Nat) : Prop where
  actions : ActionWalk (body.drop (off + 88)) (len - 88) 0 (len - 88)
  counts : CountsKept ((body.drop (off + 4)).take 40)

section Body

variable {body : Bytes} {off len : Nat}

/-- **What is read for a flow is what its record says**, if it is a plain one. -/
theorem flowRecord_iff {flow : FlowDescriptionAndStats} (hbig : body.length < 2 ^ 31)
    (h : FlowAt body off len) (hone : deserializeFlow (.ofBytes body) off = .ok (some (flow, len))) :
    FlowRecord ((body.drop off).take len) flow ↔ FlowPlain body off len := by
  obtain ⟨l, hl, hlen⟩ := h.length_eq
  have hfixed := h.fixed_le
  have hfits := h.fits
  have hmem : len ≤ (body.drop off).length := by
    rw [List.length_drop]
    omega
  have hdecode : FlowDescriptionAndStats.deserialize ⟨body.drop off, len⟩ = .ok (some flow) := by
    have hsize : (Autobuf.ofBytes body).size = body.length := rfl
    unfold deserializeFlow at hone
    rw [hsize, if_neg (by omega), ptrOffsetConst_ofBytes hbig (by omega), ok_bind, hl, ok_bind,
      if_neg (by omega), hlen] at hone
    obtain ⟨r, hr, hone⟩ := bind_eq_ok.mp hone
    cases r with
    | none => cases hone
    | some r =>
        obtain ⟨rfl, _⟩ := Prod.mk.inj (Option.some.inj (Except.ok.inj hone))
        exact hr
  obtain ⟨hfields, hmatch, stop, hactions⟩ := flow_fields hl hlen hmem hdecode
  rw [List.drop_drop] at hmatch hactions
  have hregion : ((body.drop off).take len).drop 88 = (body.drop (off + 88)).take (len - 88) := by
    rw [List.drop_take, List.drop_drop]
  have hcriteria : (((body.drop off).take len).drop 4).take 40 = (body.drop (off + 4)).take 40 := by
    rw [List.drop_take, List.take_take, Nat.min_eq_left (by omega), List.drop_drop]
  have hsay := actionsSay_iff (show len - 88 < 2 ^ 31 by omega) h.actions_le hactions
  have hcounts := matchSays_iff hmatch
  refine ⟨?_, ?_⟩
  · intro hrecord
    refine ⟨hsay.mp ?_, hcounts.mp ?_⟩
    · rw [← hregion]
      exact hrecord.actions
    · rw [← hcriteria]
      exact hrecord.criteria
  · intro hplain
    have htake : ((body.drop off).take len).length = len := List.length_take_of_le hmem
    refine ⟨⟨l, ?_, by rw [htake, hlen]⟩, by rw [htake]; exact hfixed, hfields, ?_, ?_⟩
    · rw [readU16_take (by omega) hmem]
      exact hl
    · rw [hcriteria]
      exact hcounts.mpr hplain.counts
    · rw [hregion]
      exact hsay.mpr hplain.actions

/-- The record that a body starts with is the one at its place. -/
theorem flowAt_of_record {record : Bytes} {flow : FlowDescriptionAndStats} {behind : Bytes}
    (h : FlowRecord record flow) (hdrop : body.drop off = record ++ behind) :
    FlowAt body off record.length ∧ ∀ len, FlowAt body off len → len = record.length := by
  obtain ⟨l, hl, hlen⟩ := h.length_eq
  have hfixed := h.fixed_le
  have hbody := congrArg List.length hdrop
  rw [List.length_drop, List.length_append] at hbody
  have hread : readU16 (body.drop off) 0 = .ok l := by
    rw [hdrop, readU16_append_of_le (by omega), hl]
  refine ⟨⟨by omega, ⟨l, hread, hlen⟩, hfixed, by omega⟩, ?_⟩
  intro len hflow
  obtain ⟨l', hl', rfl⟩ := hflow.length_eq
  obtain rfl := Except.ok.inj (hread.symm.trans hl')
  exact hlen

theorem flowWalk_le {off' : Nat} (h : FlowWalk body off off') (hoff : off ≤ body.length) :
    off' ≤ body.length := by
  induction h with
  | here => exact hoff
  | step hflow _ _ ih => exact ih hflow.fits

/-- All that the flows of a body say, if every one that the loop comes to is a plain one. -/
theorem flowRecords_of_reads {off' : Nat} {flows : List FlowDescriptionAndStats} (hbig : body.length < 2 ^ 31)
    (h : (flowLoop (.ofBytes body)).Reads off flows off') (hend : body.length ≤ off')
    (hplain : ∀ off' len, FlowWalk body off off' → FlowAt body off' len → FlowPlain body off' len) :
    FlowRecords (body.drop off) flows := by
  induction h with
  | nil => exact ⟨[], List.drop_eq_nil_of_le hend, .nil⟩
  | @cons off n flow flows _ hmore hone _ ih =>
      have hoff := flowLoop_more_iff.mp hmore
      by_cases hflow : ∃ len, FlowAt body off len
      · obtain ⟨len, hflow⟩ := hflow
        obtain ⟨htaken, rfl⟩ := (flow_some_iff hbig hflow).mp ⟨flow, hone⟩
        obtain ⟨records, hrecords, hsay⟩ :=
          ih hend fun off' len hwalk hat => hplain off' len (.step hflow htaken hwalk) hat
        have hrecord := (flowRecord_iff hbig hflow hone).mpr (hplain off _ .here hflow)
        refine ⟨_ :: records, ?_, .cons hrecord hsay⟩
        rw [List.flatten_cons, ← hrecords, ← List.drop_drop, List.take_append_drop]
      · have hnone := deserializeFlow_of_not_flowAt hbig hoff fun len h => hflow ⟨len, h⟩
        have hsome : deserializeFlow (.ofBytes body) off = .ok (some (flow, n)) := hone
        rw [hnone] at hsome
        cases hsome

/-- A flow that the loop comes to, in a body that says what the loop reads, is a plain one. -/
theorem flowPlain_of_records {flows : List FlowDescriptionAndStats} {off' stop : Nat}
    (hbig : body.length < 2 ^ 31)
    (hreads : (flowLoop (.ofBytes body)).Reads off flows stop) (hsay : FlowRecords (body.drop off) flows)
    (hwalk : FlowWalk body off off') (hflow : FlowAt body off' len) : FlowPlain body off' len := by
  induction hwalk generalizing flows with
  | @here off =>
      obtain ⟨records, hrecords, hsay⟩ := hsay
      have hfixed := hflow.fixed
      cases hsay with
      | nil =>
          have hlen := congrArg List.length hrecords
          rw [List.length_drop] at hlen
          simp at hlen
          omega
      | @cons record flow records flows hone _ =>
          rw [List.flatten_cons] at hrecords
          obtain rfl := (flowAt_of_record hone hrecords).2 len hflow
          cases hreads with
          | cons _ hread _ =>
              obtain ⟨_, rfl⟩ := (flow_some_iff hbig hflow).mp ⟨flow, hread⟩
              refine (flowRecord_iff hbig hflow hread).mp ?_
              rw [hrecords, List.take_left]
              exact hone
  | @step off n _ hfirst _ _ ih =>
      obtain ⟨records, hrecords, hsay⟩ := hsay
      have hfixed := hfirst.fixed
      cases hsay with
      | nil =>
          have hlen := congrArg List.length hrecords
          rw [List.length_drop] at hlen
          simp at hlen
          omega
      | @cons record flow records flows hone hsay =>
          rw [List.flatten_cons] at hrecords
          obtain rfl := (flowAt_of_record hone hrecords).2 n hfirst
          cases hreads with
          | cons _ hread htail =>
              obtain ⟨_, rfl⟩ := (flow_some_iff hbig hfirst).mp ⟨flow, hread⟩
              refine ih htail ⟨records, ?_, hsay⟩ hflow
              rw [← List.drop_drop, hrecords, List.drop_left]

/-- Every action of these flows is one that the decoder knows. -/
def FlowsKnown (flows : List FlowDescriptionAndStats) : Prop :=
  ∀ flow ∈ flows, ∀ a ∈ flow.flowDescription.actionList.actions, KnownAction a

theorem actionsTaken_of_record {record behind : Bytes} {flow : FlowDescriptionAndStats}
    (h : FlowRecord record flow) (hdrop : body.drop off = record ++ behind) :
    ActionsTaken (body.drop (off + 88)) (record.length - 88) ↔
      ∀ a ∈ flow.flowDescription.actionList.actions, KnownAction a := by
  have hflow := (flowAt_of_record h hdrop).1
  have hfixed := h.fixed_le
  refine actionsTaken_iff_known hflow.actions_le ?_
  have hregion : (body.drop (off + 88)).take (record.length - 88) = record.drop 88 := by
    rw [← List.drop_drop, hdrop, List.drop_append_of_le_length hfixed,
      List.take_left' (by rw [List.length_drop])]
  rw [hregion]
  exact h.actions

/-- **The loop comes to the end of a body that has a meaning** if it knows all the actions. -/
theorem flowWalk_iff_known {records : List Bytes} {flows : List FlowDescriptionAndStats}
    (hsay : List.Forall₂ FlowRecord records flows) (hdrop : body.drop off = records.flatten)
    (hoff : off ≤ body.length) : FlowWalk body off body.length ↔ FlowsKnown flows := by
  induction hsay generalizing off with
  | nil =>
      have hlen := congrArg List.length hdrop
      rw [List.length_drop, List.flatten_nil, List.length_nil] at hlen
      obtain rfl : off = body.length := by omega
      exact ⟨fun _ => by simp [FlowsKnown], fun _ => .here⟩
  | @cons record flow records flows hone _ ih =>
      rw [List.flatten_cons] at hdrop
      obtain ⟨hflow, hunique⟩ := flowAt_of_record hone hdrop
      have htaken := actionsTaken_of_record hone hdrop
      have hbehind : body.drop (off + record.length) = records.flatten := by
        rw [← List.drop_drop, hdrop, List.drop_left]
      have hrest := ih hbehind hflow.fits
      have hcons : FlowsKnown (flow :: flows) ↔
          (∀ a ∈ flow.flowDescription.actionList.actions, KnownAction a) ∧ FlowsKnown flows :=
            List.forall_mem_cons
      have hfixed := hflow.fixed
      rw [hcons, ← htaken, ← hrest]
      refine ⟨?_, fun h => .step hflow h.1 h.2⟩
      intro hwalk
      cases hwalk with
      | here => omega
      | @step _ n _ hat hactions htail =>
          obtain rfl := hunique n hat
          exact ⟨hactions, htail⟩

end Body

/-! ## The whole reply -/

/-- A reply with flow statistics, of the length that it announces, and its flags. -/
structure IsFlowStatsReply (input : Bytes) (flags : UInt16) : Prop where
  type_eq : readU8 input 1 = .ok Ofpt.statsReply
  length_eq : ∃ size : UInt16, readU16 input 2 = .ok size ∧ size.toNat = input.length
  statsType_eq : readU16 input 8 = .ok Ofpst.flow
  flags_eq : readU16 input 10 = .ok flags

theorem IsFlowStatsReply.fixed_le {input : Bytes} {flags : UInt16} (h : IsFlowStatsReply input flags) :
    12 ≤ input.length := le_of_readU16 h.flags_eq

theorem IsFlowStatsReply.length_lt {input : Bytes} {flags : UInt16} (h : IsFlowStatsReply input flags) :
    input.length < 2 ^ 16 := by
  obtain ⟨size, _, hsize⟩ := h.length_eq
  rw [← hsize]
  exact UInt16.toNat_lt size

/-- `OFPSF_REPLY_MORE`. -/
def moreFlag (flags : UInt16) : Bool := flags &&& 1 > 0

/--
What the decoder of such a reply is for: it answers, it succeeds exactly if the body is
whole records of flows one behind the other, and then it gives those flows, in order, and
the flag for more.
-/
structure FlowStatsParsed (input : Bytes) (flags : UInt16) : Prop where
  answers : Answers (OfMessage.deserializeFlowStats input)
  succeeds_iff : (∃ m, OfMessage.deserializeFlowStats input = .ok (some m)) ↔
    ∃ flows, FlowRecords (input.drop 12) flows
  result : ∀ m, OfMessage.deserializeFlowStats input = .ok (some m) →
    ∃ header flows, m = .flowStats header (moreFlag flags) flows ∧ FlowRecords (input.drop 12) flows

/-- The replies with which this is so. -/
structure FlowStatsPlain (input : Bytes) (flags : UInt16) : Prop where
  /-- Without a body there is nothing more. -/
  flag : input.length = 12 → moreFlag flags = false
  /-- No flow that is come to has a vendor action, or one cut short by the end of the message. -/
  readable : FlowsReadable (input.drop 12)
  /-- If the loop comes to the end, it has come past plain flows only. -/
  plain : FlowWalk (input.drop 12) 0 (input.drop 12).length → ∀ off len, FlowWalk (input.drop 12) 0 off →
    FlowAt (input.drop 12) off len → FlowPlain (input.drop 12) off len
  /-- If the body is whole records of flows, their actions are known. -/
  known : ∀ flows, FlowRecords (input.drop 12) flows → FlowsKnown flows

/-- The reply is decoded as its body is, unless there is none. -/
theorem deserializeFlowStats_eq {input : Bytes} {flags : UInt16} (h : IsFlowStatsReply input flags) :
    ∃ header, OfMessage.deserializeFlowStats input =
      if input.length = 12 then .ok (some (.flowStats header false []))
      else ((flowLoop (.ofBytes (input.drop 12))).run 0).map
        (Option.map fun r => .flowStats header (moreFlag flags) r.1) := by
  obtain ⟨size, hsize, _⟩ := h.length_eq
  have hfixed := h.fixed_le
  obtain ⟨version, xid, hheader⟩ := deserialize_messageHeader (by omega) h.type_eq (by decide) hsize
  refine ⟨⟨version, Ofpt.statsReply, size, xid⟩, ?_⟩
  have hstats : OfMessage.statsHeader Ofpst.flow 12 input =
      .ok (some (⟨version, Ofpt.statsReply, size, xid⟩, moreFlag flags)) := by
    rw [OfMessage.statsHeader, hheader, ok_bind]
    dsimp only
    rw [if_neg (by simpa using hfixed), h.statsType_eq, ok_bind, if_neg (by simp), h.flags_eq]
    rfl
  rw [OfMessage.deserializeFlowStats, hstats, ok_bind]
  dsimp only
  by_cases hempty : input.length = 12
  · rw [if_pos hempty, if_pos (by omega)]
    rfl
  · rw [if_neg hempty, if_neg (by omega)]
    cases (flowLoop (.ofBytes (input.drop 12))).run 0 with
    | error e => rfl
    | ok r =>
        cases r with
        | none => rfl
        | some r => rfl

section Reply

variable {input : Bytes} {flags : UInt16}

/-- Only nothing is no flows. -/
theorem flowRecords_nil_iff {flows : List FlowDescriptionAndStats} : FlowRecords [] flows ↔ flows = [] := by
  refine ⟨?_, ?_⟩
  · intro ⟨records, hrecords, hsay⟩
    cases hsay with
    | nil => rfl
    | cons hone _ =>
        have hfixed := hone.fixed_le
        have hlen := congrArg List.length hrecords
        rw [List.flatten_cons, List.length_append, List.length_nil] at hlen
        omega
  · intro hnil
    rw [hnil]
    exact ⟨[], rfl, .nil⟩

/-- The loop, and what it comes to. -/
theorem run_flowLoop_iff {body : Bytes} {flows : List FlowDescriptionAndStats} {off : Nat} :
    (flowLoop (.ofBytes body)).run 0 = .ok (some (flows, off)) ↔
      (flowLoop (.ofBytes body)).Reads 0 flows off ∧ body.length ≤ off := by
  rw [RecordLoop.run_eq_some_iff]
  refine and_congr_right fun _ => ?_
  rw [Bool.eq_false_iff, ne_eq, flowLoop_more_iff, Nat.not_lt]

theorem exists_run_iff_walk {body : Bytes} (hbig : body.length < 2 ^ 31) :
    (∃ r, (flowLoop (.ofBytes body)).run 0 = .ok (some r)) ↔ FlowWalk body 0 body.length := by
  refine ⟨?_, ?_⟩
  · intro ⟨⟨flows, off⟩, hrun⟩
    obtain ⟨hreads, hend⟩ := run_flowLoop_iff.mp hrun
    have hwalk := (flow_reaches_iff_walk hbig).mp ⟨flows, hreads⟩
    have hle := flowWalk_le hwalk (Nat.zero_le _)
    obtain rfl : off = body.length := by omega
    exact hwalk
  · intro hwalk
    obtain ⟨flows, hreads⟩ := (flow_reaches_iff_walk hbig).mpr hwalk
    exact ⟨(flows, body.length), run_flowLoop_iff.mpr ⟨hreads, Nat.le_refl _⟩⟩

/-- **A reply without a body** succeeds, and what it says of more is wrong if there is more. -/
theorem flowStats_parsed_iff_of_empty (h : IsFlowStatsReply input flags) (hempty : input.length = 12) :
    FlowStatsParsed input flags ↔ FlowStatsPlain input flags := by
  have hbody : input.drop 12 = [] := List.drop_eq_nil_of_le (by omega)
  obtain ⟨header, hdecode⟩ := deserializeFlowStats_eq h
  rw [if_pos hempty] at hdecode
  have hnone : ∀ off len, ¬ FlowAt [] off len := by
    intro off len hflow
    have hfixed := hflow.fixed
    rw [List.length_nil] at hfixed
    omega
  refine ⟨?_, ?_⟩
  · intro hparsed
    obtain ⟨header', flows, heq, _⟩ := hparsed.result _ hdecode
    refine ⟨fun _ => ?_, ?_, ?_, ?_⟩
    · injection heq with _ hmore _
      exact hmore.symm
    · rw [hbody]
      exact fun off len _ hflow => absurd hflow (hnone off len)
    · rw [hbody]
      exact fun _ off len _ hflow => absurd hflow (hnone off len)
    · rw [hbody]
      intro flows hflows
      rw [flowRecords_nil_iff.mp hflows]
      simp [FlowsKnown]
  · intro hplain
    refine ⟨⟨_, hdecode⟩, ?_, ?_⟩
    · rw [hdecode, hbody]
      exact ⟨fun _ => ⟨[], flowRecords_nil_iff.mpr rfl⟩, fun _ => ⟨_, rfl⟩⟩
    · intro m hm
      obtain rfl := Option.some.inj (Except.ok.inj (hdecode.symm.trans hm))
      rw [hbody, hplain.flag hempty]
      exact ⟨header, [], rfl, flowRecords_nil_iff.mpr rfl⟩

/-- The walk over whole records of flows comes to the end if their actions are known. -/
theorem flowWalk_iff_of_records {body : Bytes} {flows : List FlowDescriptionAndStats}
    (h : FlowRecords body flows) : FlowWalk body 0 body.length ↔ FlowsKnown flows := by
  obtain ⟨records, hrecords, hsay⟩ := h
  have hdrop : body.drop 0 = records.flatten := hrecords
  exact flowWalk_iff_known hsay hdrop (Nat.zero_le _)

theorem IsFlowStatsReply.body_lt (h : IsFlowStatsReply input flags) : (input.drop 12).length < 2 ^ 31 := by
  have hlt := h.length_lt
  rw [List.length_drop]
  omega

/-- What is decoded of a body: what the loop reads, if it comes to the end. -/
theorem decoded_iff_of_body (h : IsFlowStatsReply input flags) (hbody : input.length ≠ 12) :
    ∃ header, ∀ m, OfMessage.deserializeFlowStats input = .ok (some m) ↔
      ∃ flows off, ((flowLoop (.ofBytes (input.drop 12))).Reads 0 flows off ∧ (input.drop 12).length ≤ off) ∧
        m = .flowStats header (moreFlag flags) flows := by
  obtain ⟨header, hdecode⟩ := deserializeFlowStats_eq h
  rw [if_neg hbody] at hdecode
  refine ⟨header, fun m => ?_⟩
  rw [hdecode, map_eq_some]
  refine ⟨?_, ?_⟩
  · intro ⟨⟨flows, off⟩, hrun, hm⟩
    exact ⟨flows, off, run_flowLoop_iff.mp hrun, hm.symm⟩
  · intro ⟨flows, off, hreads, hm⟩
    exact ⟨(flows, off), run_flowLoop_iff.mpr hreads, hm.symm⟩

theorem answers_iff_of_body (h : IsFlowStatsReply input flags) (hbody : input.length ≠ 12) :
    Answers (OfMessage.deserializeFlowStats input) ↔ FlowsReadable (input.drop 12) := by
  obtain ⟨header, hdecode⟩ := deserializeFlowStats_eq h
  rw [hdecode, if_neg hbody, answers_map_iff, answers_flowLoop_iff h.body_lt]

theorem succeeds_iff_of_body (h : IsFlowStatsReply input flags) (hbody : input.length ≠ 12) :
    (∃ m, OfMessage.deserializeFlowStats input = .ok (some m)) ↔
      FlowWalk (input.drop 12) 0 (input.drop 12).length := by
  obtain ⟨header, hdecode⟩ := decoded_iff_of_body h hbody
  rw [← exists_run_iff_walk h.body_lt]
  refine ⟨?_, ?_⟩
  · intro ⟨m, hm⟩
    obtain ⟨flows, off, hreads, _⟩ := (hdecode m).mp hm
    exact ⟨(flows, off), run_flowLoop_iff.mpr hreads⟩
  · intro ⟨⟨flows, off⟩, hrun⟩
    exact ⟨_, (hdecode _).mpr ⟨flows, off, run_flowLoop_iff.mp hrun, rfl⟩⟩

/-- **A body that is read for what it says** has nothing in it that the decoder gets wrong. -/
theorem plain_of_parsed (h : IsFlowStatsReply input flags) (hbody : input.length ≠ 12)
    (hparsed : FlowStatsParsed input flags) : FlowStatsPlain input flags := by
  obtain ⟨header, hdecode⟩ := decoded_iff_of_body h hbody
  refine ⟨fun heq => absurd heq hbody, (answers_iff_of_body h hbody).mp hparsed.answers, ?_, ?_⟩
  · intro hwalk off len hto hflow
    obtain ⟨m, hm⟩ := (succeeds_iff_of_body h hbody).mpr hwalk
    obtain ⟨_, flows, rfl, hsay⟩ := hparsed.result m hm
    obtain ⟨flows', stop, ⟨hreads, _⟩, heq⟩ := (hdecode _).mp hm
    injection heq with _ _ hflows
    obtain rfl : flows = flows' := hflows
    exact flowPlain_of_records h.body_lt hreads hsay hto hflow
  · intro flows hflows
    rw [← flowWalk_iff_of_records hflows, ← succeeds_iff_of_body h hbody]
    exact hparsed.succeeds_iff.mpr ⟨flows, hflows⟩

/-- And the other way round. -/
theorem parsed_of_plain (h : IsFlowStatsReply input flags) (hbody : input.length ≠ 12)
    (hplain : FlowStatsPlain input flags) : FlowStatsParsed input flags := by
  obtain ⟨header, hdecode⟩ := decoded_iff_of_body h hbody
  have hresult : ∀ m, OfMessage.deserializeFlowStats input = .ok (some m) →
      ∃ header flows, m = .flowStats header (moreFlag flags) flows ∧ FlowRecords (input.drop 12) flows := by
    intro m hm
    have hwalk := (succeeds_iff_of_body h hbody).mp ⟨m, hm⟩
    obtain ⟨flows, stop, ⟨hreads, hend⟩, rfl⟩ := (hdecode m).mp hm
    have hflows := flowRecords_of_reads h.body_lt hreads hend (hplain.plain hwalk)
    exact ⟨header, flows, rfl, hflows⟩
  refine ⟨(answers_iff_of_body h hbody).mpr hplain.readable, ⟨?_, ?_⟩, hresult⟩
  · intro ⟨m, hm⟩
    obtain ⟨_, flows, _, hflows⟩ := hresult m hm
    exact ⟨flows, hflows⟩
  · intro ⟨flows, hflows⟩
    rw [succeeds_iff_of_body h hbody, flowWalk_iff_of_records hflows]
    exact hplain.known flows hflows

/--
**When a reply with flows is read for what it says**: whatever its bytes, exactly if none
of what the decoder gets wrong is in them.
-/
theorem flowStats_parsed_iff (h : IsFlowStatsReply input flags) :
    FlowStatsParsed input flags ↔ FlowStatsPlain input flags := by
  by_cases hbody : input.length = 12
  · exact flowStats_parsed_iff_of_empty h hbody
  · exact ⟨plain_of_parsed h hbody, parsed_of_plain h hbody⟩

end Reply

/-- The only flow outputs to port 1. -/
def flowToPort1 : Bytes :=
  [1, 17, 0, 108, 0, 0, 0, 0, 0, 1, 0, 0] ++ ([0, 96, 0, 0, 0, 63, 255, 255] ++ List.replicate 80 0 ++
    [0, 0, 0, 8, 0, 1, 0, 0])

theorem flowToPort1_parsed : FlowStatsParsed flowToPort1 0 := by
  let body := flowToPort1.drop 12
  have hflow : FlowAt body 0 96 := ⟨by decide, ⟨96, rfl, rfl⟩, by decide, by decide⟩
  have honly : ∀ off len, FlowWalk body 0 off → FlowAt body off len → off = 0 ∧ len = 96 := by
    have hfirst : ∀ len, FlowAt body 0 len → len = 96 := by
      intro len h
      obtain ⟨l, hl, rfl⟩ := h.length_eq
      obtain rfl : 96 = l := Except.ok.inj hl
      rfl
    have hnone : ∀ len, ¬ FlowAt body 96 len := fun len h => absurd h.fixed (by decide)
    intro off len hwalk h
    cases hwalk with
    | here => exact ⟨rfl, hfirst len h⟩
    | step hat _ htail =>
        obtain rfl := hfirst _ hat
        cases htail with
        | here => exact absurd h (hnone len)
        | step hat' _ _ => exact absurd hat' (hnone _)
  -- the record of the action, and the end
  have hreadable : ¬ Faulty (body.drop 88) := by
    rw [← deserialize_fault_iff (n := 8) (Nat.le_refl 8) (by decide)]
    intro ⟨e, he⟩
    cases he
  have hactions : ActionWalk (body.drop 88) 8 0 8 :=
    .step (Nat.le_refl 8) ⟨Ofpat.output, 8, ⟨rfl, rfl⟩, rfl, rfl⟩ hreadable .here
  have hwalk : FlowWalk body 0 body.length :=
    .step hflow (.inr ⟨Nat.le_refl 8, 8, hactions, by decide⟩) .here
  refine (flowStats_parsed_iff ⟨rfl, ⟨108, rfl, rfl⟩, rfl, rfl⟩).mpr ⟨?_, ?_, ?_, ?_⟩
  · exact fun h => absurd h (by decide)
  · intro off len hto hat
    obtain ⟨rfl, rfl⟩ := honly off len hto hat
    intro ⟨place, _, hle, hfault⟩
    obtain rfl : place = 0 := by omega
    exact hreadable hfault
  · intro _ off len hto hat
    obtain ⟨rfl, rfl⟩ := honly off len hto hat
    exact ⟨hactions, 0x003fffff, rfl, .inr (by decide), .inr (by decide)⟩
  · exact fun flows hflows => (flowWalk_iff_of_records hflows).mp hwalk

/-- There are no flows, and more to follow. -/
def moreOfNone : Bytes := [1, 17, 0, 12, 0, 0, 0, 0, 0, 1, 0, 1]

/-- The flag for more is not looked at where there are no flows yet. -/
theorem moreOfNone_misread :
    ¬ ∀ (input : Bytes) (flags : UInt16), IsFlowStatsReply input flags → FlowStatsParsed input flags := by
  intro h
  obtain ⟨_, _, heq, _⟩ := (h moreOfNone 1 ⟨rfl, ⟨12, rfl, rfl⟩, rfl, rfl⟩).result _ rfl
  injection heq with _ hmore _
  cases hmore

end IronStack.Proof
