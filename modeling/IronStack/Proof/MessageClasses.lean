import IronStack.Hal.Session
import IronStack.Proof.Requests

/-!
# What a decoded message says of its bytes

A message that the factory returns carries the header its bytes begin with, and is of
the class that its type stands for. An echo carries the bytes behind its header, so
that the answer to an echo request is the request with another version and type.
-/

namespace IronStack.Proof

open IronStack Lib OfMessage

/-- The type that a class of messages stands for. -/
def classType : OfMessage → UInt8
  | .hello .. => Ofpt.hello
  | .error .. => Ofpt.error
  | .echoRequest .. => Ofpt.echoRequest
  | .echoReply .. => Ofpt.echoReply
  | .vendor .. => Ofpt.vendor
  | .featuresReply .. => Ofpt.featuresReply
  | .getConfigReply .. => Ofpt.getConfigReply
  | .packetIn .. => Ofpt.packetIn
  | .flowRemoved .. => Ofpt.flowRemoved
  | .portStatus .. => Ofpt.portStatus
  | .switchDescription .. | .flowStats .. | .aggregateStats .. | .tableStats .. | .portStats ..
  | .queueStats .. => Ofpt.statsReply
  | .barrierReply .. => Ofpt.barrierReply

/-- A message of the class for a type, with a given header. -/
structure FromHeader (header : MessageHeader) (type : UInt8) (m : OfMessage) : Prop where
  header_eq : m.header = header
  class_eq : classType m = type

/-- Whatever a decoder returns is as it should be. -/
def Returns {α : Type} (P : α → Prop) (r : Read (Option α)) : Prop := ∀ a, r = .ok (some a) → P a

section Returns

variable {α β : Type} {P : α → Prop}

theorem returns_none : Returns P (.ok none) := by
  intro a h
  cases h

theorem returns_error (e : Fault) : Returns P (.error e) := by
  intro a h
  cases h

theorem returns_some {a : α} (h : P a) : Returns P (.ok (some a)) := by
  intro b hb
  cases hb
  exact h

theorem Returns.bind {x : Read β} {f : β → Read (Option α)} (h : ∀ b, Returns P (f b)) :
    Returns P (x >>= f) := by
  intro a ha
  obtain ⟨b, _, hb⟩ := bind_eq_ok.mp ha
  exact h b a hb

/-- A decoder that gives up where another one does. -/
theorem Returns.bindSome {x : Read (Option β)} {f : Option β → Read (Option α)}
    (hnone : f none = .ok none) (h : ∀ b, Returns P (f (some b))) : Returns P (x >>= f) := by
  refine .bind fun b => ?_
  cases b with
  | none =>
      rw [hnone]
      exact returns_none
  | some b => exact h b

theorem returns_ite {c : Prop} [Decidable c] {r r' : Read (Option α)} (hpos : c → Returns P r)
    (hneg : Returns P r') : Returns P (if c then r else r') := by
  by_cases h : c
  · rw [if_pos h]
    exact hpos h
  · rw [if_neg h]
    exact hneg

end Returns

section Decoders

variable {input : Bytes} {header : MessageHeader}
  (hheader : MessageHeader.deserialize input = .ok (some header))

include hheader

theorem returns_hello : Returns (FromHeader header Ofpt.hello) (deserializeHello input) := by
  rw [deserializeHello, hheader, ok_bind]
  dsimp only
  split
  · exact returns_none
  · exact returns_some ⟨rfl, rfl⟩

theorem returns_error_message : Returns (FromHeader header Ofpt.error) (deserializeError input) := by
  rw [deserializeError, hheader, ok_bind]
  dsimp only
  split
  · exact returns_none
  · refine .bind fun _ => .bind fun _ => .bind fun _ => ?_
    exact returns_some ⟨rfl, rfl⟩

theorem returns_echo {make : MessageHeader → Bytes → OfMessage} {type : UInt8}
    (hmake : ∀ data, FromHeader header type (make header data)) :
    Returns (FromHeader header type) (deserializeEcho make input) := by
  rw [deserializeEcho, hheader, ok_bind]
  exact .bind fun data => returns_some (hmake data)

theorem returns_vendor : Returns (FromHeader header Ofpt.vendor) (deserializeVendor input) := by
  rw [deserializeVendor, hheader, ok_bind]
  dsimp only
  split
  · exact returns_none
  · refine .bind fun _ => ?_
    split
    · exact .bind fun _ => returns_some ⟨rfl, rfl⟩
    · exact .bind fun _ => returns_some ⟨rfl, rfl⟩

theorem returns_featuresReply :
    Returns (FromHeader header Ofpt.featuresReply) (deserializeFeaturesReply input) := by
  rw [deserializeFeaturesReply, hheader, ok_bind]
  dsimp only
  split
  · exact returns_none
  · split
    · exact returns_none
    · split
      · exact returns_error _
      · refine .bind fun _ => .bind fun _ => .bind fun _ => .bind fun _ => .bind fun _ =>
          .bind fun _ => .bind fun _ => ?_
        exact returns_some ⟨rfl, rfl⟩

theorem returns_getConfigReply :
    Returns (FromHeader header Ofpt.getConfigReply) (deserializeGetConfigReply input) := by
  rw [deserializeGetConfigReply, hheader, ok_bind]
  dsimp only
  split
  · exact returns_none
  · exact .bindSome rfl fun _ => returns_some ⟨rfl, rfl⟩

theorem returns_packetIn : Returns (FromHeader header Ofpt.packetIn) (deserializePacketIn input) := by
  rw [deserializePacketIn, hheader, ok_bind]
  dsimp only
  split
  · exact returns_none
  · refine .bind fun _ => .bind fun _ => .bind fun _ => .bind fun _ => ?_
    split
    · exact .bind fun _ => returns_some ⟨rfl, rfl⟩
    · exact .bind fun _ => returns_some ⟨rfl, rfl⟩

theorem returns_flowRemoved :
    Returns (FromHeader header Ofpt.flowRemoved) (deserializeFlowRemoved input) := by
  rw [deserializeFlowRemoved, hheader, ok_bind]
  dsimp only
  split
  · exact returns_none
  · refine .bindSome rfl fun _ => ?_
    refine .bind fun _ => .bind fun _ => .bind fun _ => .bind fun _ => .bind fun _ => .bind fun _ =>
      .bind fun _ => ?_
    exact returns_some ⟨rfl, rfl⟩

theorem returns_portStatus :
    Returns (FromHeader header Ofpt.portStatus) (deserializePortStatus input) := by
  rw [deserializePortStatus, hheader, ok_bind]
  dsimp only
  split
  · exact returns_none
  · refine .bind fun _ => .bind fun _ => ?_
    exact returns_some ⟨rfl, rfl⟩

theorem returns_barrierReply :
    Returns (FromHeader header Ofpt.barrierReply) (deserializeBarrierReply input) := by
  rw [deserializeBarrierReply, hheader, ok_bind]
  dsimp only
  split
  · exact returns_none
  · exact returns_some ⟨rfl, rfl⟩

/-! ### Statistics replies -/

/-- The header of a statistics reply. -/
theorem returns_statsHeader (type : UInt16) (minSize : Nat) :
    Returns (fun r => r.1 = header) (statsHeader type minSize input) := by
  rw [statsHeader, hheader, ok_bind]
  dsimp only
  split
  · exact returns_none
  · refine .bind fun _ => ?_
    split
    · exact returns_none
    · exact .bind fun _ => returns_some rfl

/-- What is behind the header of a statistics reply does not matter to its class. -/
theorem returns_stats {type : UInt16} {minSize : Nat}
    {decode : Option (MessageHeader × Bool) → Read (Option OfMessage)} (hnone : decode none = .ok none)
    (hdecode : ∀ more, Returns (FromHeader header Ofpt.statsReply) (decode (some (header, more)))) :
    Returns (FromHeader header Ofpt.statsReply) (statsHeader type minSize input >>= decode) := by
  intro m hm
  obtain ⟨start, hstart, hm⟩ := bind_eq_ok.mp hm
  cases start with
  | none =>
      rw [hnone] at hm
      cases hm
  | some start =>
      obtain ⟨header', more⟩ := start
      obtain rfl : header' = header := returns_statsHeader hheader type minSize _ hstart
      exact hdecode more m hm

theorem returns_array {α : Type} {type : UInt16} {size : Nat} {hsize : 0 < size}
    {decode : Autobuf → Read (Option α)} {make : MessageHeader → Bool → List α → OfMessage}
    (hmake : ∀ more stats, FromHeader header Ofpt.statsReply (make header more stats)) :
    Returns (FromHeader header Ofpt.statsReply) (deserializeArray type size hsize decode make input) :=
  returns_stats hheader rfl fun _ => .bindSome rfl fun _ => returns_some (hmake ..)

theorem returns_statsReply :
    Returns (FromHeader header Ofpt.statsReply) (deserializeStatsReply input) := by
  unfold deserializeStatsReply
  split
  · exact returns_error _
  · refine .bind fun type => ?_
    split
    · exact returns_stats hheader rfl fun _ => .bindSome rfl fun _ => returns_some ⟨rfl, rfl⟩
    split
    · refine returns_stats hheader rfl fun _ => ?_
      dsimp only
      split
      · exact returns_some ⟨rfl, rfl⟩
      · exact .bindSome rfl fun _ => returns_some ⟨rfl, rfl⟩
    split
    · exact returns_stats hheader rfl fun _ => .bindSome rfl fun _ => returns_some ⟨rfl, rfl⟩
    split
    · exact returns_array hheader fun _ _ => ⟨rfl, rfl⟩
    split
    · exact returns_array hheader fun _ _ => ⟨rfl, rfl⟩
    split
    · exact returns_array hheader fun _ _ => ⟨rfl, rfl⟩
    · exact returns_error _

/-! ### The factory -/

/-- A flow-mod is decoded as if it were a flow removed, which it is not. -/
theorem deserializeFlowRemoved_of_ne (hne : header.msgType ≠ Ofpt.flowRemoved) :
    deserializeFlowRemoved input = .ok none := by
  rw [deserializeFlowRemoved, hheader, ok_bind]
  dsimp only
  rw [if_pos (by simp [hne])]
  rfl

theorem deserializePortStatus_of_ne (hne : header.msgType ≠ Ofpt.portStatus) :
    deserializePortStatus input = .ok none := by
  rw [deserializePortStatus, hheader, ok_bind]
  dsimp only
  rw [if_pos (by simp [hne])]
  rfl

theorem returns_deserializeAs :
    Returns (FromHeader header header.msgType) (deserializeAs header.msgType input) := by
  unfold deserializeAs
  refine returns_ite (fun h => h ▸ returns_hello hheader) ?_
  refine returns_ite (fun h => h ▸ returns_error_message hheader) ?_
  refine returns_ite (fun h => h ▸ returns_echo hheader fun _ => ⟨rfl, rfl⟩) ?_
  refine returns_ite (fun h => h ▸ returns_echo hheader fun _ => ⟨rfl, rfl⟩) ?_
  refine returns_ite (fun h => h ▸ returns_vendor hheader) ?_
  refine returns_ite (fun _ => returns_error _) ?_
  refine returns_ite (fun h => h ▸ returns_featuresReply hheader) ?_
  refine returns_ite (fun _ => returns_error _) ?_
  refine returns_ite (fun h => h ▸ returns_getConfigReply hheader) ?_
  refine returns_ite (fun _ => returns_error _) ?_
  refine returns_ite (fun h => h ▸ returns_packetIn hheader) ?_
  refine returns_ite (fun h => h ▸ returns_flowRemoved hheader) ?_
  refine returns_ite (fun h => h ▸ returns_portStatus hheader) ?_
  refine returns_ite (fun _ => returns_error _) ?_
  refine returns_ite (fun h => ?_) ?_
  · rw [deserializeFlowRemoved_of_ne hheader (by rw [h]; decide)]
    exact returns_none
  refine returns_ite (fun h => ?_) ?_
  · rw [deserializePortStatus_of_ne hheader (by rw [h]; decide)]
    exact returns_none
  refine returns_ite (fun _ => returns_error _) ?_
  refine returns_ite (fun h => h ▸ returns_statsReply hheader) ?_
  refine returns_ite (fun _ => returns_error _) ?_
  refine returns_ite (fun h => h ▸ returns_barrierReply hheader) ?_
  refine returns_ite (fun _ => returns_error _) ?_
  exact returns_ite (fun _ => returns_error _) returns_none

end Decoders

/-- **A decoded message is of the class of its type, and carries the header of its bytes.** -/
theorem decoded_fromHeader {input : Bytes} {m : OfMessage} (h : deserializeMessage input = .ok (some m)) :
    ∃ rest, input = m.header.serialize ++ rest ∧ classType m = m.msgType := by
  obtain ⟨header, hheader, hread⟩ := bind_eq_ok.mp h
  cases header with
  | none => cases hread
  | some header =>
      have hlen : 8 ≤ input.length := by
        by_contra hshort
        rw [MessageHeader.deserialize, if_pos (Nat.lt_of_not_le hshort)] at hheader
        cases hheader
      obtain ⟨hsame, hclass⟩ := returns_deserializeAs hheader m hread
      obtain ⟨header', rest, rfl⟩ := exists_messageHeader hlen
      have hdeserialize := deserialize_serializeHeader header' rest
      rw [hheader] at hdeserialize
      split at hdeserialize
      · cases hdeserialize
      · cases hdeserialize
        exact ⟨rest, by rw [hsame], by rw [hclass, msgType, hsame]⟩

/-! ## The answer to an echo request -/

/-- An echo reply for the bytes of an echo request. -/
def answerTo (request : Bytes) : Bytes := [1, Ofpt.echoReply] ++ request.drop 2

/-- What is owed for a message of the switch. -/
def owed : OfMessage → List Bytes
  | .echoRequest header data => [messageHeader 1 Ofpt.echoReply (8 + data.length) header.xid ++ data]
  | _ => []

/-- An echo request that is as long as it says carries all that is behind its header. -/
theorem data_of_whole {request : Bytes} (hwhole : openflow.Whole request) {header : MessageHeader}
    {data : Bytes} (h : deserializeMessage request = .ok (some (.echoRequest header data))) :
    request = header.serialize ++ data ∧ header.msgSize.toNat = 8 + data.length := by
  obtain ⟨rest, hrequest, hclass⟩ := decoded_fromHeader h
  change request = header.serialize ++ rest at hrequest
  have htype : header.msgType = Ofpt.echoRequest := hclass.symm
  have hknown : header.msgType ≤ Ofpt.queueGetConfigReply := by
    rw [htype]
    decide
  have hlen : request.length = 8 + rest.length := by
    rw [hrequest, List.length_append, length_headerBytes]
  have hsize : header.msgSize.toNat = 8 + rest.length := by
    have hannounced : headerLength request = header.msgSize.toNat := by
      rw [hrequest, MessageHeader.serialize, List.append_assoc, List.append_assoc]
      exact headerLength_of_be16 ..
    rw [← hannounced, ← hlen]
    exact hwhole.2
  rw [hrequest, deserializeMessage_serializeHeader hknown, htype] at h
  have hecho := h.symm.trans (deserializeEcho_whole .echoRequest hknown hsize)
  cases hecho
  exact ⟨hrequest, hsize⟩

theorem echoRequest_of_class {m : OfMessage} (h : classType m = Ofpt.echoRequest) :
    ∃ header data, m = .echoRequest header data := by
  cases m with
  | echoRequest header data => exact ⟨header, data, rfl⟩
  | _ =>
      simp only [classType] at h
      exact absurd h (by decide)

/-- **What is owed for an echo request are its own bytes, as version 1 and as a reply.** -/
theorem owed_decoded {input : Bytes} (hwhole : openflow.Whole input) {m : OfMessage}
    (h : deserializeMessage input = .ok (some m)) :
    owed m = if m.msgType = Ofpt.echoRequest then [answerTo input] else [] := by
  obtain ⟨_, _, hclass⟩ := decoded_fromHeader h
  by_cases hecho : m.msgType = Ofpt.echoRequest
  · rw [if_pos hecho]
    obtain ⟨header, data, rfl⟩ := echoRequest_of_class (hclass.trans hecho)
    obtain ⟨hinput, hsize⟩ := data_of_whole hwhole h
    have hbe : UInt16.ofNat (8 + data.length) = header.msgSize := by
      rw [← hsize, UInt16.ofNat_toNat]
    rw [owed, hinput, answerTo, messageHeader, hbe]
    simp [MessageHeader.serialize]
  · rw [if_neg hecho]
    cases m with
    | echoRequest header data => exact absurd hclass.symm hecho
    | _ => rfl

/-- The messages that a list of messages was decoded from. -/
def Decodes (raw : List Bytes) (ms : List OfMessage) : Prop :=
  raw.map deserializeMessage = ms.map fun m => .ok (some m)

theorem Decodes.snoc {raw : List Bytes} {ms : List OfMessage} (h : Decodes raw ms) {input : Bytes}
    {m : OfMessage} (hm : deserializeMessage input = .ok (some m)) : Decodes (raw ++ [input]) (ms ++ [m]) := by
  rw [Decodes, List.map_append, List.map_append, h, List.map_singleton, List.map_singleton, hm]

theorem Decodes.exists_input {raw : List Bytes} {ms : List OfMessage} (h : Decodes raw ms) {m : OfMessage}
    (hm : m ∈ ms) : ∃ input ∈ raw, deserializeMessage input = .ok (some m) := by
  have hmem : Except.ok (some m) ∈ raw.map deserializeMessage := by
    rw [h]
    exact List.mem_map.mpr ⟨m, hm, rfl⟩
  obtain ⟨input, hinput, heq⟩ := List.mem_map.mp hmem
  exact ⟨input, hinput, heq⟩

theorem Decodes.of_append {raw left : List Bytes} {ms all : List OfMessage} (hall : Decodes (raw ++ left) all)
    (h : Decodes raw ms) : ∃ later, all = ms ++ later ∧ Decodes left later := by
  rw [Decodes, List.map_append] at hall
  obtain ⟨first, later, rfl, hfirst, hlater⟩ := List.map_eq_append_iff.mp hall.symm
  have hinj : Function.Injective fun m : OfMessage => (.ok (some m) : Read (Option OfMessage)) := by
    intro m m' heq
    cases heq
    rfl
  obtain rfl : first = ms := List.map_injective_iff.mpr hinj (hfirst.trans h)
  exact ⟨later, rfl, hlater.symm⟩

/-- The type of a message, in its second byte. -/
def isEchoRequest (input : Bytes) : Bool := input[1]? == some Ofpt.echoRequest

theorem isEchoRequest_iff {input : Bytes} {m : OfMessage} (h : deserializeMessage input = .ok (some m)) :
    isEchoRequest input = true ↔ m.msgType = Ofpt.echoRequest := by
  obtain ⟨rest, hinput, _⟩ := decoded_fromHeader h
  have htype : input[1]? = some m.msgType := by
    rw [hinput]
    rfl
  rw [isEchoRequest, htype, beq_iff_eq, Option.some.injEq]

theorem owed_of_decodes {raw : List Bytes} {ms : List OfMessage} (h : Decodes raw ms)
    (hwhole : ∀ input ∈ raw, openflow.Whole input) :
    ms.flatMap owed = (raw.filter isEchoRequest).map answerTo := by
  induction raw generalizing ms with
  | nil =>
      obtain rfl : ms = [] := by simpa [Decodes] using h.symm
      rfl
  | cons input raw ih =>
      cases ms with
      | nil => simp [Decodes] at h
      | cons m ms =>
          obtain ⟨hm, hrest⟩ := List.cons_eq_cons.mp h
          obtain ⟨hinput, hwhole⟩ := List.forall_mem_cons.mp hwhole
          rw [List.flatMap_cons, ih hrest hwhole, owed_decoded hinput hm, List.filter_cons]
          by_cases hecho : m.msgType = Ofpt.echoRequest
          · rw [if_pos hecho, if_pos ((isEchoRequest_iff hm).mpr hecho)]
            rfl
          · rw [if_neg hecho, if_neg fun hr => hecho ((isEchoRequest_iff hm).mp hr)]
            rfl

end IronStack.Proof
