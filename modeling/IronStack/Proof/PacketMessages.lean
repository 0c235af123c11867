import IronStack.OpenFlow.Commands
import IronStack.Proof.MessageFactory

/-!
# Packets that come in and go out

A packet-in holds as much of a frame as the switch cares to send, and says how long
the frame was. The decoder takes the one for the other. A packet-out is a list of
actions and a frame, of which both may be missing, but not both at once.
-/

namespace IronStack.Proof

open IronStack Lib OfMessage

/-! ## Packet-in -/

/-- A packet-in whose header has its length right, with the fixed part in front of the frame. -/
structure IsPacketIn (input : Bytes) : Prop where
  type_eq : readU8 input 1 = .ok Ofpt.packetIn
  length_eq : ∃ size : UInt16, readU16 input 2 = .ok size ∧ size.toNat = input.length
  fixed_le : 18 ≤ input.length

theorem IsPacketIn.header {input : Bytes} (h : IsPacketIn input) :
    ∃ header, MessageHeader.deserialize input = .ok (some header) ∧ header.msgType = Ofpt.packetIn := by
  obtain ⟨size, hsize, _⟩ := h.length_eq
  have hfixed := h.fixed_le
  obtain ⟨version, xid, hheader⟩ := deserialize_messageHeader (by omega) h.type_eq (by decide) hsize
  exact ⟨_, hheader, rfl⟩

/--
The packet-in is decoded to exactly the bytes behind its fixed part, and marked as
summarized if the frame was of another length.
-/
def PacketInDecoded (input : Bytes) : Prop :=
  ∃ header bufferId inPort totalLen summarized reasonNoMatch reasonAction,
    deserializePacketIn input = .ok (some (.packetIn header bufferId inPort totalLen summarized
      reasonNoMatch reasonAction (input.drop 18))) ∧
    readU16 input 12 = .ok totalLen ∧ (summarized = true ↔ totalLen.toNat ≠ (input.drop 18).length)

/-- What the decoder makes of a packet-in: the data is as long as the frame was. -/
theorem deserializePacketIn_eq {input : Bytes} (h : IsPacketIn input) :
    ∃ header bufferId inPort totalLen, ∃ reason : UInt8, readU16 input 12 = .ok totalLen ∧
      deserializePacketIn input = (slice input 18 totalLen.toNat).map fun data =>
        some (.packetIn header bufferId inPort totalLen (data.length != totalLen.toNat) (reason == 0)
          (reason == 1) data) := by
  obtain ⟨header, hheader, htype⟩ := h.header
  have hfixed := h.fixed_le
  obtain ⟨bufferId, hbuffer⟩ := answers_readU32 (show 8 + 4 ≤ input.length by omega)
  obtain ⟨totalLen, htotal⟩ := answers_readU16 (show 12 + 2 ≤ input.length by omega)
  obtain ⟨inPort, hport⟩ := answers_readU16 (show 14 + 2 ≤ input.length by omega)
  obtain ⟨reason, hreason⟩ := answers_readU8 (show 16 + 1 ≤ input.length by omega)
  refine ⟨header, bufferId, inPort, totalLen, reason, htotal, ?_⟩
  have hbne : ¬ (header.msgType != Ofpt.packetIn) = true := by simp [htype]
  rw [deserializePacketIn, hheader, ok_bind]
  dsimp only
  rw [if_neg hbne, hbuffer, ok_bind, htotal, ok_bind, hport, ok_bind, hreason, ok_bind]
  split
  -- with the fixed part there, reading nothing is reading no bytes
  · rename_i hzero
    have hnone : slice input 18 totalLen.toNat = .ok [] := by
      rw [hzero, slice_ok (by simpa using hfixed)]
      rfl
    rw [hnone]
    rfl
  · cases slice input 18 totalLen.toNat with
    | error e => rfl
    | ok data => rfl

/--
**When a packet-in is decoded as it should be.** Exactly if the switch sent the whole
frame: for a frame that was cut the decoder reads on behind the message.
-/
theorem packetIn_decoded_iff {input : Bytes} (h : IsPacketIn input) :
    PacketInDecoded input ↔
      ∃ totalLen, readU16 input 12 = .ok totalLen ∧ 18 + totalLen.toNat = input.length := by
  obtain ⟨header, bufferId, inPort, totalLen, reason, htotal, hdecode⟩ := deserializePacketIn_eq h
  have hfixed := h.fixed_le
  have hdrop : (input.drop 18).length = input.length - 18 := List.length_drop
  refine ⟨?_, ?_⟩
  · intro ⟨header', bufferId', inPort', totalLen', summarized, noMatch, action, heq, _, _⟩
    refine ⟨totalLen, htotal, ?_⟩
    rw [hdecode] at heq
    obtain ⟨data, hslice, heq⟩ := map_eq_ok.mp heq
    obtain rfl : data = input.drop 18 := by
      injection heq with heq
      injection heq
    have hle : 18 + totalLen.toNat ≤ input.length := by
      by_contra hgt
      rw [slice_error (by omega)] at hslice
      cases hslice
    rw [slice_ok hle] at hslice
    have hlen := congrArg List.length (Except.ok.inj hslice)
    rw [List.length_take, hdrop] at hlen
    omega
  · intro ⟨totalLen', htotal', hlen⟩
    rw [htotal] at htotal'
    obtain rfl := Except.ok.inj htotal'
    have hall : slice input 18 totalLen.toNat = .ok (input.drop 18) := by
      rw [slice_ok (Nat.le_of_eq hlen), List.take_of_length_le (by rw [hdrop]; omega)]
    refine ⟨header, bufferId, inPort, totalLen, (input.drop 18).length != totalLen.toNat, reason == 0,
      reason == 1, ?_, htotal, ?_⟩
    · rw [hdecode, hall]
      rfl
    · rw [bne_iff_ne, ne_comm]

/-- A packet-in that holds a frame of two bytes. -/
def wholePacketIn : Bytes := [1, 10, 0, 20, 0, 0, 0, 0, 0, 0, 0, 1, 0, 2, 0, 7, 0, 0, 0xca, 0xfe]

theorem wholePacketIn_decoded : PacketInDecoded wholePacketIn :=
  (packetIn_decoded_iff ⟨rfl, ⟨20, rfl, rfl⟩, by decide⟩).mpr ⟨2, rfl, rfl⟩

/-- A packet-in that holds the first two bytes of a frame of three. -/
def cutPacketIn : Bytes := [1, 10, 0, 20, 0, 0, 0, 0, 0, 0, 0, 1, 0, 3, 0, 7, 0, 0, 0xca, 0xfe]

/-- It is read for a third byte. -/
theorem cutPacketIn_overread : ¬ ∀ input, IsPacketIn input → PacketInDecoded input := by
  intro h
  obtain ⟨_, _, _, _, _, _, _, heq, _⟩ := h cutPacketIn ⟨rfl, ⟨20, rfl, rfl⟩, by decide⟩
  have hfault : deserializePacketIn cutPacketIn = .error .outOfBounds := by
    decide
  rw [hfault] at heq
  cases heq

/-! ## Packet-out -/

/--
A packet-out is written, and is what it says it is: as long as its header has it, with
the list of actions behind the fixed part, as long as that has it, and then the frame.
-/
def PacketOutEncoded (junk : Nat → UInt8) (m : OfMessagePacketOut) : Prop :=
  ∃ message actions, m.serialize junk = .ok message ∧
    m.actionList.serialize (fun i => junk (OfMessagePacketOut.fixedSize + i)) = .ok actions ∧
    (∃ size : UInt16, readU16 message 2 = .ok size ∧ size.toNat = message.length) ∧
    (∃ actionsLen : UInt16, readU16 message 14 = .ok actionsLen ∧ actionsLen.toNat = actions.length) ∧
    message.drop OfMessagePacketOut.fixedSize = actions ++ m.packetData

theorem length_packetOutFixed (m : OfMessagePacketOut) (sizeRequired actionListLen : Nat) :
    (m.serializeFixed sizeRequired actionListLen).length = OfMessagePacketOut.fixedSize := by
  simp [OfMessagePacketOut.serializeFixed, OfMessagePacketOut.fixedSize]

/-- The two sizes that the fixed part announces. -/
theorem packetOutFixed_sizes (m : OfMessagePacketOut) (sizeRequired actionListLen : Nat) (behind : Bytes) :
    readU16 (m.serializeFixed sizeRequired actionListLen ++ behind) 2 = .ok (UInt16.ofNat sizeRequired) ∧
      readU16 (m.serializeFixed sizeRequired actionListLen ++ behind) 14 =
        .ok (UInt16.ofNat actionListLen) := by
  simp (disch := simp) only [OfMessagePacketOut.serializeFixed, List.append_assoc, List.cons_append,
    List.nil_append, readU16_cons_succ, readU16_append_right, readU16_be16, length_be16, length_be32,
    Nat.reduceSub, and_self]

/-- Into a window that is large enough a list is written as into a buffer of its own. -/
theorem serializeShared_eq (junk : Nat → UInt8) (l : OpenflowActionList) :
    l.serializeShared (inheritShared l.getSerializationSize 0) junk = l.serialize junk := by
  have hroom : inheritShared l.getSerializationSize 0 = l.getSerializationSize := if_pos rfl
  unfold OpenflowActionList.serializeShared
  rw [hroom, if_pos (Nat.le_refl _), OpenflowActionList.serialize]
  split
  · rfl
  · rfl

/-- With nothing behind the fixed part, the place behind it is no part of the message. -/
theorem serialize_packetOut_bare {junk : Nat → UInt8} {m : OfMessagePacketOut}
    (hactions : m.actionList.actions = [])
    (hdata : m.packetData = []) : m.serialize junk = .error .aborted := by
  have hsize : m.actionList.getSerializationSize = 0 := by
    rw [OpenflowActionList.getSerializationSize, hactions]
    rfl
  rw [OfMessagePacketOut.serialize, hsize, hdata]
  rfl

/-- A packet-out with anything behind the fixed part is written if its actions are. -/
theorem serialize_packetOut {junk : Nat → UInt8} {m : OfMessagePacketOut}
    (hsize : 16 + totalSize m.actionList.actions + m.packetData.length ≤ 65535)
    (hsome : m.actionList.actions ≠ [] ∨ m.packetData ≠ []) :
    m.serialize junk =
      (m.actionList.serialize fun i => junk (OfMessagePacketOut.fixedSize + i)).map fun actions =>
        m.serializeFixed (16 + totalSize m.actionList.actions + m.packetData.length)
          (totalSize m.actionList.actions) ++ (actions ++ m.packetData) := by
  have hlist : m.actionList.getSerializationSize = totalSize m.actionList.actions :=
    Nat.mod_eq_of_lt (show totalSize m.actionList.actions < 2 ^ 32 by omega)
  have hmod : (16 + totalSize m.actionList.actions + m.packetData.length) % 2 ^ 32 =
      16 + totalSize m.actionList.actions + m.packetData.length := Nat.mod_eq_of_lt (by omega)
  have hbehind : 0 < totalSize m.actionList.actions + m.packetData.length := by
    rcases hsome with hactions | hdata
    · cases hl : m.actionList.actions with
      | nil => exact absurd hl hactions
      | cons a actions =>
          have hpos := a.getDeserializationSize_pos
          rw [totalSize_cons]
          omega
    · have hpos := List.length_pos_iff.mpr hdata
      omega
  have hptr : ∀ offset, offset < 16 + totalSize m.actionList.actions + m.packetData.length →
      ptrOffsetMutable (16 + totalSize m.actionList.actions + m.packetData.length) offset = .ok () := by
    intro offset hlt
    rw [ptrOffsetMutable_eq_ok_iff, asInt_of_lt (by omega), asInt_of_lt (by omega)]
    omega
  have hwindow := serializeShared_eq (fun i => junk (OfMessagePacketOut.fixedSize + i)) m.actionList
  rw [hlist] at hwindow
  simp only [OfMessagePacketOut.serialize, hlist, OfMessagePacketOut.fixedSize, hmod] at hwindow ⊢
  rw [if_neg (by omega), hptr 16 (by omega), ok_bind, hwindow]
  cases m.actionList.serialize fun i => junk (16 + i) with
  | error e => rfl
  | ok actions =>
      rw [ok_bind]
      split
      · rename_i hdata
        rw [hptr _ (by omega), ok_bind, List.append_assoc]
        rfl
      · rename_i hdata
        have hnil := List.length_eq_zero_iff.mp (Nat.eq_zero_of_not_pos hdata)
        simp only [hnil, List.append_nil]
        rfl

/--
**When a packet-out is written.** Up to the size that a message can have, exactly if no
action is a vendor's, and there is an action or a byte of the frame.
-/
theorem packetOut_encoded_iff {junk : Nat → UInt8} {m : OfMessagePacketOut}
    (hsize : 16 + totalSize m.actionList.actions + m.packetData.length ≤ 65535) :
    PacketOutEncoded junk m ↔ (∀ a ∈ m.actionList.actions, Writable a) ∧
      (m.actionList.actions ≠ [] ∨ m.packetData ≠ []) := by
  refine ⟨?_, ?_⟩
  · intro ⟨message, actions, hmessage, hactions, _⟩
    rw [serialize_eq_serializeAt] at hactions
    refine ⟨writable_of_serializeAt hactions, ?_⟩
    by_contra hbare
    rw [not_or, not_not, not_not] at hbare
    rw [serialize_packetOut_bare hbare.1 hbare.2] at hmessage
    cases hmessage
  · intro ⟨hwritable, hsome⟩
    have hlist : 0 + totalSize m.actionList.actions = m.actionList.getSerializationSize := by
      rw [Nat.zero_add]
      exact (Nat.mod_eq_of_lt (show totalSize m.actionList.actions < 2 ^ 32 by omega)).symm
    obtain ⟨actions, hactions⟩ := exists_serializeAt
      (fun i => junk (OfMessagePacketOut.fixedSize + i)) hwritable hlist (by omega)
    have hlen := length_serializeAt hactions
    rw [← serialize_eq_serializeAt] at hactions
    have hmessage : m.serialize junk = _ := serialize_packetOut hsize hsome
    rw [hactions] at hmessage
    obtain ⟨hlength, hactionsLen⟩ := packetOutFixed_sizes m
      (16 + totalSize m.actionList.actions + m.packetData.length) (totalSize m.actionList.actions)
      (actions ++ m.packetData)
    refine ⟨_, actions, hmessage, hactions, ⟨_, hlength, ?_⟩, ⟨_, hactionsLen, ?_⟩, ?_⟩
    · rw [List.length_append, length_packetOutFixed, List.length_append, hlen, OfMessagePacketOut.fixedSize,
        UInt16.toNat_ofNat', Nat.mod_eq_of_lt (by omega), Nat.add_assoc]
    · rw [UInt16.toNat_ofNat', Nat.mod_eq_of_lt (by omega), hlen]
    · exact List.drop_left' (length_packetOutFixed ..)

/-- A frame without actions is written. -/
theorem frameOnly_encoded : PacketOutEncoded (fun _ => 0)
    { version := 1, xid := 0, packetData := [0xca, 0xfe] } :=
  (packetOut_encoded_iff (by decide)).mpr ⟨fun _ ha => absurd ha List.not_mem_nil, .inr (by decide)⟩

/-- A packet-out with neither actions nor a frame ends the controller. -/
theorem bare_packetOut_aborts :
    ¬ ∀ (junk : Nat → UInt8) (m : OfMessagePacketOut),
      16 + totalSize m.actionList.actions + m.packetData.length ≤ 65535 → PacketOutEncoded junk m := by
  intro h
  obtain ⟨message, _, hmessage, _⟩ := h (fun _ => 0) { version := 1, xid := 0 } (by decide)
  rw [serialize_packetOut_bare rfl rfl] at hmessage
  cases hmessage

end IronStack.Proof
