import IronStack.OpenFlow.Requests
import IronStack.Proof.PacketMessages

/-!
# What was in memory before

A struct that is written field by field into memory that was not cleared sends along
what was in its padding. Seven of the nine kinds of actions have padding, and so have
both requests for statistics. Only a flow-mod, which zeroes its buffer, and a
packet-out without such actions are made of their own fields alone.

The two runs are compared by the content of the buffers: the encoders read nothing
else, and whether they return does not depend on it.
-/

namespace IronStack.Proof

open IronStack Lib OfAction OpenflowActionList

/-! ## One action -/

/-- The struct of the action has no padding. -/
def Unpadded : OfAction → Prop
  | .outputToPort _ _ | .setIpAddress _ _ => True
  | _ => False

/-- An action without padding is written in one way only. -/
theorem serialize_unpadded {a : OfAction} (h : Unpadded a) (junk junk' : Nat → UInt8) :
    a.serialize junk = a.serialize junk' := by
  cases a with
  | outputToPort _ _ => rfl
  | setIpAddress _ _ => rfl
  | _ => cases h

/-- With padding, two different contents of the memory leave two different records. -/
theorem unpadded_of_serialize {a : OfAction} {record : Bytes}
    (h0 : a.serialize (fun _ => 0) = .ok record) (h1 : a.serialize (fun _ => 1) = .ok record) :
    Unpadded a := by
  have heq := h0.trans h1.symm
  cases a with
  | outputToPort _ _ => trivial
  | setIpAddress _ _ => trivial
  | vendor _ _ => cases h0
  | _ => simp [OfAction.serialize, untouched, List.range_succ] at heq

/-! ## A list of actions -/

theorem serializeAt_unpadded {actions : List OfAction} (h : ∀ a ∈ actions, Unpadded a)
    (junk junk' : Nat → UInt8) (contentSize offset : Nat) :
    serializeAt junk contentSize offset actions = serializeAt junk' contentSize offset actions := by
  induction actions generalizing offset with
  | nil => rfl
  | cons a actions ih =>
      obtain ⟨ha, hrest⟩ := List.forall_mem_cons.mp h
      rw [serializeAt, serializeAt, ih hrest]
      rw [serialize_unpadded ha (fun i => junk (offset + i)) fun i => junk' (offset + i)]

/-- The two lists of records are the same only if each record is the same in both. -/
theorem unpadded_of_serializeAt {contentSize offset : Nat} {actions : List OfAction} {bytes : Bytes}
    (h0 : serializeAt (fun _ => 0) contentSize offset actions = .ok bytes)
    (h1 : serializeAt (fun _ => 1) contentSize offset actions = .ok bytes) :
    ∀ a ∈ actions, Unpadded a := by
  induction actions generalizing offset bytes with
  | nil => exact fun a ha => absurd ha List.not_mem_nil
  | cons a actions ih =>
      obtain ⟨_, record, rest, hrecord, hrest, rfl⟩ := serializeAt_cons_iff.mp h0
      obtain ⟨_, record', rest', hrecord', hrest', heq⟩ := serializeAt_cons_iff.mp h1
      have hlen : record.length = record'.length :=
        (length_record hrecord).1.trans (length_record hrecord').1.symm
      obtain ⟨rfl, rfl⟩ := List.append_inj heq hlen
      exact List.forall_mem_cons.mpr ⟨unpadded_of_serialize hrecord hrecord', ih hrest hrest'⟩

/-- Whether a list can be written has nothing to do with the memory. -/
theorem serializeAt_returns {junk : Nat → UInt8} {contentSize offset : Nat}
    {actions : List OfAction} {bytes : Bytes}
    (h : serializeAt junk contentSize offset actions = .ok bytes) (junk' : Nat → UInt8) :
    ∃ bytes', serializeAt junk' contentSize offset actions = .ok bytes' := by
  induction actions generalizing offset bytes with
  | nil => exact ⟨[], rfl⟩
  | cons a actions ih =>
      obtain ⟨hptr, record, rest, hrecord, hrest, _⟩ := serializeAt_cons_iff.mp h
      obtain ⟨rest', hrest'⟩ := ih hrest
      obtain ⟨record', hrecord'⟩ := (writable_iff (fun i => junk' (offset + i)) a).mp
        ((writable_iff _ a).mpr ⟨record, hrecord⟩)
      exact ⟨record' ++ rest', serializeAt_cons_iff.mpr ⟨hptr, record', rest', hrecord', hrest', rfl⟩⟩

/-! ## A packet-out -/

/-- A packet-out that is written is its fixed part, its actions and its data, and in a buffer with
another content only the actions may be others. -/
theorem serialize_packetOut_split {junk : Nat → UInt8} {m : OfMessagePacketOut} {bytes : Bytes}
    (h : m.serialize junk = .ok bytes) :
    ∃ front back, ∀ junk' : Nat → UInt8, m.serialize junk' =
      (m.actionList.serialize fun i => junk' (OfMessagePacketOut.fixedSize + i)).map
        fun actions => front ++ actions ++ back := by
  let len := m.actionList.getSerializationSize
  refine ⟨m.serializeFixed ((OfMessagePacketOut.fixedSize + len + m.packetData.length) % 2 ^ 32) len,
    m.packetData, fun junk' => ?_⟩
  simp only [OfMessagePacketOut.serialize, serializeShared_eq] at h ⊢
  split at h
  · cases h
  · rename_i hsize
    obtain ⟨_, hfixed, h⟩ := bind_eq_ok.mp h
    obtain ⟨actions, _, h⟩ := bind_eq_ok.mp h
    split at h
    · rename_i hdata
      obtain ⟨_, hback, _⟩ := bind_eq_ok.mp h
      rw [if_neg hsize, hfixed, ok_bind]
      simp only [if_pos hdata, hback, ok_bind]
      rfl
    · rename_i hdata
      have hnil := List.length_eq_zero_iff.mp (Nat.eq_zero_of_not_pos hdata)
      rw [if_neg hsize, hfixed, ok_bind]
      simp only [hnil, List.append_nil]
      rfl

theorem unpadded_of_packetOut {m : OfMessagePacketOut} {bytes : Bytes}
    (h0 : m.serialize (fun _ => 0) = .ok bytes) (h1 : m.serialize (fun _ => 1) = .ok bytes) :
    ∀ a ∈ m.actionList.actions, Unpadded a := by
  obtain ⟨front, back, hsplit⟩ := serialize_packetOut_split h0
  rw [hsplit, map_eq_ok] at h0 h1
  obtain ⟨actions, hactions, heq⟩ := h0
  obtain ⟨actions', hactions', heq'⟩ := h1
  obtain rfl : actions = actions' := by simpa using heq.trans heq'.symm
  rw [serialize_eq_serializeAt] at hactions hactions'
  exact unpadded_of_serializeAt hactions hactions'

theorem packetOut_returns {junk : Nat → UInt8} {m : OfMessagePacketOut} {bytes : Bytes}
    (h : m.serialize junk = .ok bytes) (junk' : Nat → UInt8) :
    ∃ bytes', m.serialize junk' = .ok bytes' := by
  obtain ⟨front, back, hsplit⟩ := serialize_packetOut_split h
  rw [hsplit, map_eq_ok] at h
  obtain ⟨actions, hactions, _⟩ := h
  rw [serialize_eq_serializeAt] at hactions
  obtain ⟨actions', hactions'⟩ := serializeAt_returns hactions
    fun i => junk' (OfMessagePacketOut.fixedSize + i)
  rw [hsplit, serialize_eq_serializeAt, hactions']
  exact ⟨_, rfl⟩

theorem serialize_packetOut_unpadded {m : OfMessagePacketOut}
    (h : ∀ a ∈ m.actionList.actions, Unpadded a) {junk : Nat → UInt8} {bytes : Bytes}
    (hbytes : m.serialize junk = .ok bytes) (junk' : Nat → UInt8) : m.serialize junk' = .ok bytes := by
  obtain ⟨front, back, hsplit⟩ := serialize_packetOut_split hbytes
  rw [← hbytes, hsplit, hsplit, serialize_eq_serializeAt, serialize_eq_serializeAt,
    serializeAt_unpadded h]

/-! ## All messages -/

/-- Whatever the memory held before, the bytes are the same. -/
def NoStaleMemory (msg : OutgoingMessage) : Prop :=
  ∀ junk junk' bytes bytes', msg.serialize junk = .ok bytes → msg.serialize junk' = .ok bytes' →
    bytes = bytes'

/-- A flow-mod, or a packet-out whose actions have no padding. -/
def Tidy : OutgoingMessage → Prop
  | .flowMod _ => True
  | .packetOut m => ∀ a ∈ m.actionList.actions, Unpadded a
  | .aggregateStats _ | .queueStats _ => False

/-- **Where stale memory goes out.** Of the messages that are written, exactly the tidy ones are
made of their own fields alone. -/
theorem noStaleMemory_iff {msg : OutgoingMessage}
    (hwritten : ∃ junk bytes, msg.serialize junk = .ok bytes) : NoStaleMemory msg ↔ Tidy msg := by
  obtain ⟨junk, bytes, hbytes⟩ := hwritten
  cases msg with
  | flowMod m =>
      refine ⟨fun _ => trivial, fun _ => ?_⟩
      intro _ _ bytes₁ bytes₂ h h'
      exact Except.ok.inj (h.symm.trans h')
  | packetOut m =>
      refine ⟨?_, ?_⟩
      · intro hsame
        obtain ⟨bytes₀, h0⟩ := packetOut_returns hbytes fun _ => 0
        obtain ⟨bytes₁, h1⟩ := packetOut_returns hbytes fun _ => 1
        obtain rfl : bytes₀ = bytes₁ := hsame (fun _ => 0) (fun _ => 1) _ _ h0 h1
        exact unpadded_of_packetOut h0 h1
      · intro htidy junk₁ junk₂ bytes₁ bytes₂ h h'
        exact Except.ok.inj ((serialize_packetOut_unpadded htidy h junk₂).symm.trans h')
  | aggregateStats m =>
      refine ⟨?_, False.elim⟩
      intro hsame
      have heq := hsame (fun _ => 0) (fun _ => 1) (m.serialize fun _ => 0) (m.serialize fun _ => 1)
        rfl rfl
      -- all but the byte behind the table is the same
      have hpad := List.append_cancel_right (List.append_cancel_left (List.append_cancel_left
        (List.append_cancel_left heq)))
      exact absurd hpad (by decide)
  | queueStats m =>
      refine ⟨?_, False.elim⟩
      intro hsame
      have heq := hsame (fun _ => 0) (fun _ => 1) (m.serialize fun _ => 0) (m.serialize fun _ => 1)
        rfl rfl
      have hpad := List.append_cancel_right (List.append_cancel_left (List.append_cancel_left heq))
      exact absurd hpad (by decide)

/-- A packet-out of two bytes. -/
def twoBytesOut (actions : List OfAction) : OutgoingMessage :=
  .packetOut { version := 1, xid := 0, actionList := ⟨actions⟩, packetData := [0xca, 0xfe] }

/-- They are sent to port 1. -/
theorem plainPacketOut_tidy : NoStaleMemory (twoBytesOut [.outputToPort false 1]) :=
  (noStaleMemory_iff ⟨fun _ => 0, _, rfl⟩).mpr (List.forall_mem_singleton.mpr trivial)

/-- Their VLAN tag is stripped; and a request is made for the statistics of all queues. -/
theorem stripVlan_leaks :
    ¬ NoStaleMemory (twoBytesOut [.stripVlan]) ∧
      ¬ NoStaleMemory (.queueStats ⟨1, 0, true, 0, true, 0⟩) := by
  refine ⟨?_, ?_⟩
  · intro hsame
    exact absurd (hsame (fun _ => 0) (fun _ => 1) _ _ rfl rfl) (by decide)
  · intro hsame
    exact absurd (hsame (fun _ => 0) (fun _ => 1) _ _ rfl rfl) (by decide)

end IronStack.Proof
