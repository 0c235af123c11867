import IronStack.Lib.Machine
import IronStack.Net.PacketInProcessor

/-!
# What a packet leaves behind for the next

The thread parses every packet into the same object. A frame whose Ethernet header
is there whole overwrites all of it, whatever came before. A shorter one does not:
the filters are shown the rest of an earlier packet, and the CAM learns its sender
where the short frame came in.
-/

namespace IronStack.Proof

open Lib

/-! ## The parser -/

/-- The Ethernet header is there whole, with its VLAN tag if it has one. -/
structure HeaderComplete (frame : Bytes) : Prop where
  untagged : RawPacket.untaggedHdrSize ≤ frame.length
  tagged : readU16 frame 12 = .ok 0x8100 → RawPacket.taggedHdrSize ≤ frame.length

/-- The fields of a parsed packet that are read out of its frame. -/
structure SameHeader (raw raw' : RawPacket) : Prop where
  destMac : raw.destMac = raw'.destMac
  srcMac : raw.srcMac = raw'.srcMac
  hasVlanTag : raw.hasVlanTag = raw'.hasVlanTag
  vlanPcp : raw.vlanPcp = raw'.vlanPcp
  dei : raw.dei = raw'.dei
  vlanId : raw.vlanId = raw'.vlanId
  packetType : raw.packetType = raw'.packetType

/-- What is left of the packet before, where the parser gives up at a VLAN tag or before. -/
structure Leftover (raw raw' : RawPacket) : Prop where
  inPort : raw'.inPort = raw.inPort
  hasVlanTag : raw'.hasVlanTag = raw.hasVlanTag
  vlanPcp : raw'.vlanPcp = raw.vlanPcp
  dei : raw'.dei = raw.dei
  vlanId : raw'.vlanId = raw.vlanId
  packetType : raw'.packetType = raw.packetType

namespace RawPacket

open IronStack.RawPacket

variable {raw raw' : RawPacket} {frame : Bytes}

/-- A frame with room for a header has its addresses and its type. -/
theorem exists_header (h : untaggedHdrSize ≤ frame.length) : ∃ destMac srcMac ethertype,
    readVec 6 frame 0 = .ok destMac ∧ readVec 6 frame 6 = .ok srcMac ∧ readU16 frame 12 = .ok ethertype := by
  simp only [untaggedHdrSize] at h
  obtain ⟨destMac, hdest⟩ := exists_readVec (show 0 + 6 ≤ frame.length by omega)
  obtain ⟨srcMac, hsrc⟩ := exists_readVec (show 6 + 6 ≤ frame.length by omega)
  obtain ⟨ethertype, htype⟩ := exists_readU16 (show 12 + 2 ≤ frame.length by omega)
  exact ⟨destMac, srcMac, ethertype, hdest, hsrc, htype⟩

theorem exists_packetTypeOf (ethertype : UInt16) (frame : Bytes) (n : Nat) :
    ∃ packetType, packetTypeOf ethertype frame n = .ok packetType := by
  unfold packetTypeOf
  split
  · exact ⟨_, rfl⟩
  · split
    · split
      · exact ⟨_, rfl⟩
      · obtain ⟨protocol, hread⟩ := exists_readU8 (show n + 9 + 1 ≤ frame.length by omega)
        rw [hread]
        exact ⟨_, rfl⟩
    · split
      · exact ⟨_, rfl⟩
      · exact ⟨_, rfl⟩

theorem setPacketType_eq {packetType : PacketType} {n : Nat}
    (h : packetTypeOf raw.ethertype frame n = .ok packetType) :
    raw.setPacketType frame n = .ok (packetType != .unknown, { raw with packetType }) := by
  rw [setPacketType, h]
  rfl

/-- **A whole header overwrites everything** but the port, which is none of what is looked for. -/
theorem deserialize_complete (hc : HeaderComplete frame) :
    ∃ (status : Bool) (whole : RawPacket), ∀ raw : RawPacket,
    raw.deserialize frame = .ok (status, { whole with inPort := raw.inPort }) := by
  obtain ⟨destMac, srcMac, ethertype, hdest, hsrc, htype⟩ := exists_header hc.untagged
  by_cases htag : ethertype = 0x8100
  · have hlong := hc.tagged (by rw [htype, htag])
    have hlen := hlong
    simp only [taggedHdrSize] at hlen
    obtain ⟨pcpDeiId, htci⟩ := exists_readU16 (show 14 + 2 ≤ frame.length by omega)
    obtain ⟨inner, hinner⟩ := exists_readU16 (show 16 + 2 ≤ frame.length by omega)
    obtain ⟨packetType, hpacket⟩ := exists_packetTypeOf inner frame taggedHdrSize
    refine ⟨packetType != .unknown,
      { setVlanTag { destMac := ⟨destMac⟩, srcMac := ⟨srcMac⟩ } pcpDeiId inner with packetType },
      fun raw => ?_⟩
    rw [deserialize, if_neg (Nat.not_lt.mpr hc.untagged), hdest, hsrc, htype, htci, hinner]
    simp only [ok_bind, if_pos htag, if_neg (Nat.not_lt.mpr hlong)]
    exact setPacketType_eq hpacket
  · obtain ⟨packetType, hpacket⟩ := exists_packetTypeOf ethertype frame untaggedHdrSize
    refine ⟨packetType != .unknown,
      { clearVlanTag { destMac := ⟨destMac⟩, srcMac := ⟨srcMac⟩, ethertype } with packetType },
      fun raw => ?_⟩
    rw [deserialize, if_neg (Nat.not_lt.mpr hc.untagged), hdest, hsrc, htype]
    simp only [ok_bind, if_neg htag]
    exact setPacketType_eq hpacket

/-- **A header that is cut off leaves the rest as it was.** -/
theorem deserialize_incomplete (raw : RawPacket) (hc : ¬ HeaderComplete frame) :
    ∃ raw', raw.deserialize frame = .ok (false, raw') ∧ Leftover raw raw' := by
  rw [deserialize]
  split
  · exact ⟨raw, rfl, rfl, rfl, rfl, rfl, rfl, rfl⟩
  · rename_i hlen
    obtain ⟨destMac, srcMac, ethertype, hdest, hsrc, htype⟩ := exists_header (Nat.not_lt.mp hlen)
    -- the type was read: what is missing can only be the rest of the tagged header
    have htag : ethertype = 0x8100 := by
      by_contra hne
      exact hc ⟨Nat.not_lt.mp hlen, fun h => absurd (Except.ok.inj (htype.symm.trans h)) hne⟩
    have hcut : frame.length < taggedHdrSize := by
      by_contra hle
      exact hc ⟨Nat.not_lt.mp hlen, fun _ => Nat.not_lt.mp hle⟩
    rw [hdest, hsrc, htype]
    simp only [ok_bind, if_pos htag, if_pos hcut]
    exact ⟨_, rfl, rfl, rfl, rfl, rfl, rfl, rfl⟩

/-- The parser reads nothing that is not there. -/
theorem exists_deserialize (raw : RawPacket) (frame : Bytes) :
    ∃ status raw', raw.deserialize frame = .ok (status, raw') ∧ raw'.inPort = raw.inPort := by
  by_cases hc : HeaderComplete frame
  · obtain ⟨status, whole, hread⟩ := deserialize_complete hc
    exact ⟨status, _, hread raw, rfl⟩
  · obtain ⟨raw', hread, hleft⟩ := deserialize_incomplete raw hc
    exact ⟨false, raw', hread, hleft.inPort⟩

end RawPacket

/-! ## The thread -/

section Thread

variable {Φ σ : Type} [DecidableEq Φ] {methods : PacketFilters Φ σ} {p p' : PacketInProcessor Φ σ}
  {packet : PacketIn}

open PacketInProcessor

/-- What the filters are shown is what the parser made of the packet. -/
theorem step_dequeue {status : Bool} {rawPkt : RawPacket}
    (h : p.rawPkt.deserialize packet.pktData = .ok (status, rawPkt)) :
    p.step methods (.dequeue (some packet)) = some { p with
      rawPkt, services := (offer methods packet rawPkt p.packetFilters p.services).2 } := by
  rw [step, process, h]
  rfl

/-- The packet in the thread's hands never gets a port. -/
theorem inPort_step {i : PacketInInput Φ σ} (hs : p.step methods i = some p') :
    p'.rawPkt.inPort = p.rawPkt.inPort := by
  cases i with
  | registerFilter filter => rw [← Option.some.inj hs]
  | unregisterFilter filter => rw [← Option.some.inj hs]
  | clear => rw [← Option.some.inj hs]
  | others services => rw [← Option.some.inj hs]
  | dequeue packet? =>
      cases packet? with
      | none => rw [← Option.some.inj hs]
      | some packet =>
          obtain ⟨status, raw', hread, hport⟩ :=
            RawPacket.exists_deserialize p.rawPkt packet.pktData
          rw [step_dequeue hread] at hs
          rw [← Option.some.inj hs]
          exact hport

/-- The filters of `methods`, with a record of the packets they are called with. -/
def recording (methods : PacketFilters Φ σ) : PacketFilters Φ (σ × List (Φ × RawPacket)) where
  getPacketInPriority := methods.getPacketInPriority
  filterPacket filter packet rawPkt s :=
    ((methods.filterPacket filter packet rawPkt s.1).1,
      (methods.filterPacket filter packet rawPkt s.1).2, s.2 ++ [(filter, rawPkt)])

/--
A packet, as a filter is called with it at the end of some history: the last of the
calls on record are those for this packet.
-/
def Presented (methods : PacketFilters Φ σ) (s₀ : σ) (packet : PacketIn) (filter : Φ)
    (raw : RawPacket) : Prop :=
  ∃ ts u v shown, Run (PacketInProcessor.step (recording methods)) { services := (s₀, []) }
    (ts ++ [⟨u, .dequeue (some packet), v⟩]) v ∧
    v.services.2 = u.services.2 ++ shown ∧ (filter, raw) ∈ shown

omit [DecidableEq Φ] in
/-- All filters that are offered a packet are called with the same one. -/
theorem offer_recording (methods : PacketFilters Φ σ) (packet : PacketIn) (rawPkt : RawPacket)
    (filters : List (Φ × Nat)) (s : σ × List (Φ × RawPacket)) :
    ∃ shown, (offer (recording methods) packet rawPkt filters s).2.2 = s.2 ++ shown ∧
      ∀ call ∈ shown, call.2 = rawPkt := by
  induction filters generalizing s with
  | nil => exact ⟨[], (List.append_nil _).symm, by simp⟩
  | cons filter rest ih =>
      rw [offer]
      split
      · rename_i services heq
        refine ⟨[(filter.1, rawPkt)], ?_, by simp⟩
        exact (congrArg (fun r => r.2.2) heq).symm
      · rename_i services heq
        obtain ⟨shown, hshown, hall⟩ := ih services
        refine ⟨(filter.1, rawPkt) :: shown, ?_, List.forall_mem_cons.mpr ⟨rfl, hall⟩⟩
        have hfirst : services.2 = s.2 ++ [(filter.1, rawPkt)] :=
          (congrArg (fun r => r.2.2) heq).symm
        rw [hshown, hfirst, List.append_assoc, List.singleton_append]

/-- A filter that is alone is called with what the parser made of the packet. -/
theorem presented_of_run {p : PacketInProcessor Φ (σ × List (Φ × RawPacket))} {s₀ : σ} {filter : Φ}
    {ts : List (Transition (PacketInProcessor Φ (σ × List (Φ × RawPacket)))
      (PacketInInput Φ (σ × List (Φ × RawPacket))))}
    (hr : Run (PacketInProcessor.step (recording methods)) { services := (s₀, []) } ts p)
    {priority : Nat} (hfilters : p.packetFilters = [(filter, priority)]) {status : Bool} {raw : RawPacket}
    (h : p.rawPkt.deserialize packet.pktData = .ok (status, raw)) :
    Presented methods s₀ packet filter raw := by
  refine ⟨ts, p, _, [(filter, raw)], .snoc hr (step_dequeue h), ?_, List.mem_singleton_self _⟩
  rw [hfilters]
  dsimp only [offer]
  split <;> rename_i services heq <;> exact (congrArg (fun r => r.2.2) heq).symm

/-- Whatever the history, the packet was parsed into an object without a port. -/
theorem Presented.exists_before {s₀ : σ} {filter : Φ} {raw : RawPacket}
    (h : Presented methods s₀ packet filter raw) :
    ∃ before : RawPacket, before.inPort = 0xffff ∧
      ∃ status, before.deserialize packet.pktData = .ok (status, raw) := by
  obtain ⟨ts, u, v, shown, hr, hshown, hcall⟩ := h
  have hstep := hr.step_of_mem (List.mem_append_right _ List.mem_cons_self)
  -- the one field that the parser never writes has its first value for ever
  have hport : u.rawPkt.inPort = 0xffff :=
    ((hr.before rfl).invariant (fun p => p.rawPkt.inPort = 0xffff) rfl
      fun u i v hu hs => (inPort_step hs).trans hu).1
  obtain ⟨status, raw', hread, _⟩ := RawPacket.exists_deserialize u.rawPkt packet.pktData
  refine ⟨u.rawPkt, hport, status, ?_⟩
  rw [step_dequeue hread] at hstep
  obtain rfl := Option.some.inj hstep
  obtain ⟨shown', hshown', hall⟩ := offer_recording methods packet raw' u.packetFilters u.services
  obtain rfl : shown = shown' := List.append_cancel_left (hshown.symm.trans hshown')
  rw [hread, ← hall _ hcall]

/-- After two histories, a whole header is shown as one and the same packet. -/
theorem presented_unique {s₀ : σ} {filter filter' : Φ} {raw raw' : RawPacket}
    (hc : HeaderComplete packet.pktData) (h : Presented methods s₀ packet filter raw)
    (h' : Presented methods s₀ packet filter' raw') : raw = raw' := by
  obtain ⟨before, hport, status, hread⟩ := h.exists_before
  obtain ⟨before', hport', status', hread'⟩ := h'.exists_before
  obtain ⟨status₀, whole, hwhole⟩ := RawPacket.deserialize_complete hc
  rw [hwhole, hport] at hread
  rw [hwhole, hport'] at hread'
  exact congrArg Prod.snd (Except.ok.inj (hread.symm.trans hread'))

/-- A tagged ARP frame, sent to everyone. -/
def taggedArp : PacketIn where
  inPort := 1
  pktData := List.replicate 6 0xff ++ [2, 0, 0, 0, 0, 1] ++ [0x81, 0x00, 0x00, 0x05, 0x08, 0x06]
  size_lt := by decide

/-- Its header. -/
def taggedArpHeader : RawPacket where
  packetType := .arp
  ethertype := 0x0806
  hasVlanTag := true
  vlanId := 5
  srcMac := .ofOctets 2 0 0 0 0 1
  destMac := MacAddress.broadcast

theorem deserialize_taggedArp :
    ({} : RawPacket).deserialize taggedArp.pktData = .ok (true, taggedArpHeader) := by
  rfl

/-- A thread that has seen no packet, with one filter. -/
def withFilter (methods : PacketFilters Φ σ) (s₀ : σ) (filter : Φ) :
    PacketInProcessor Φ (σ × List (Φ × RawPacket)) where
  packetFilters := [(filter, (methods.getPacketInPriority filter).toNat)]
  services := (s₀, [])

theorem run_withFilter (methods : PacketFilters Φ σ) (s₀ : σ) (filter : Φ) :
    ∃ ts, Run (PacketInProcessor.step (recording methods)) { services := (s₀, []) } ts
      (withFilter methods s₀ filter) :=
  ⟨_, .snoc .nil (show PacketInProcessor.step (recording methods) { services := (s₀, []) }
    (.registerFilter filter) = some (withFilter methods s₀ filter) from rfl)⟩

/-- What a filter is shown of a packet that is the first. -/
theorem presented_alone (methods : PacketFilters Φ σ) (s₀ : σ) (filter : Φ) {status : Bool}
    {raw : RawPacket} (h : ({} : RawPacket).deserialize packet.pktData = .ok (status, raw)) :
    Presented methods s₀ packet filter raw := by
  obtain ⟨ts, hr⟩ := run_withFilter methods s₀ filter
  have hfilters : (withFilter methods s₀ filter).packetFilters =
      [(filter, (methods.getPacketInPriority filter).toNat)] := rfl
  exact presented_of_run hr hfilters h

/-- What a filter is shown of a packet behind the tagged frame. -/
theorem presented_after_taggedArp (methods : PacketFilters Φ σ) (s₀ : σ) (filter : Φ) {status : Bool}
    {raw : RawPacket} (h : taggedArpHeader.deserialize packet.pktData = .ok (status, raw)) :
    Presented methods s₀ packet filter raw := by
  obtain ⟨ts, hr⟩ := run_withFilter methods s₀ filter
  have hfirst : (withFilter methods s₀ filter).rawPkt.deserialize taggedArp.pktData =
      .ok (true, taggedArpHeader) := deserialize_taggedArp
  have hfilters : (withFilter methods s₀ filter).packetFilters =
      [(filter, (methods.getPacketInPriority filter).toNat)] := rfl
  exact presented_of_run (.snoc hr (step_dequeue hfirst)) hfilters h

/--
**When a packet is isolated from the ones before it.** What any two filters are called
with for it is the same after any two histories exactly if its Ethernet header is complete.
-/
theorem isolated_iff (methods : PacketFilters Φ σ) (s₀ : σ) (packet : PacketIn) (filter filter' : Φ) :
    (∀ raw raw', Presented methods s₀ packet filter raw → Presented methods s₀ packet filter' raw' →
      SameHeader raw raw') ↔ HeaderComplete packet.pktData := by
  refine ⟨fun h => ?_, fun hc raw raw' hraw hraw' => ?_⟩
  · by_contra hc
    -- alone, and behind a tagged frame
    obtain ⟨raw, hread, hleft⟩ := RawPacket.deserialize_incomplete {} hc
    obtain ⟨raw', hread', hleft'⟩ := RawPacket.deserialize_incomplete taggedArpHeader hc
    have hsame := (h raw raw' (presented_alone methods s₀ filter hread)
      (presented_after_taggedArp methods s₀ filter' hread')).hasVlanTag
    rw [hleft.hasVlanTag, hleft'.hasVlanTag] at hsame
    exact absurd hsame Bool.false_ne_true
  · rw [presented_unique hc hraw hraw']
    exact ⟨rfl, rfl, rfl, rfl, rfl, rfl, rfl⟩

/-- A frame that is cut off inside the header. -/
def cutOff : PacketIn where
  inPort := 2
  pktData := List.replicate 13 0
  size_lt := by decide

/-- The CAM is called with the VLAN tag of the frame before the one that is cut off. -/
theorem cutOff_not_isolated : ∃ raw raw', Presented CamServices.methods {} cutOff () raw ∧
    Presented CamServices.methods {} cutOff () raw' ∧ ¬ SameHeader raw raw' := by
  have hread : ∀ raw : RawPacket, raw.deserialize cutOff.pktData = .ok (false, raw) := fun raw => rfl
  refine ⟨_, _, presented_alone _ _ _ (hread _), presented_after_taggedArp _ _ _ (hread _), ?_⟩
  intro hsame
  exact absurd hsame.hasVlanTag Bool.false_ne_true

end Thread

end IronStack.Proof
