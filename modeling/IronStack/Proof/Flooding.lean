import IronStack.Lib.OrdMap
import IronStack.Proof.PacketIsolation
import IronStack.Proof.VlanTags

/-!
# A frame is flooded to the ports of its VLAN

Each group of ports is sent one frame, so a port gets it once. What goes wrong is
the frame: a tagged one keeps its tag on the ports that must not have one, and a
VLAN that a tag has no room for is cut.
-/

namespace IronStack.Proof

open IronStack Std Lib NetUtils SwitchState

/-! ## What is sent -/

/-- The frames that go out of a port. -/
def framesTo (out : List PacketOut) (port : UInt16) : List Bytes :=
  out.flatMap fun m => (m.actionList.actions.filter (· = .outputToPort false port)).map fun _ => m.packetData

/-- There is nothing but output to ports. -/
def OnlyOutputs (out : List PacketOut) : Prop :=
  ∀ m ∈ out, ∀ action ∈ m.actionList.actions, ∃ port, action = .outputToPort false port

theorem framesTo_append (out out' : List PacketOut) (port : UInt16) :
    framesTo (out ++ out') port = framesTo out port ++ framesTo out' port := List.flatMap_append

theorem beq_outputToPort (action : OfAction) (port : UInt16) :
    (action == .outputToPort false port) = decide (action = .outputToPort false port) := by
  cases action with
  | vendor vendor request => simp [BEq.beq, OfAction.beq]
  | _ => rfl

/-- Different ports make different actions, none of which is left out. -/
theorem foldl_addAction {ports : List UInt16} (hports : ports.Nodup) {l : OpenflowActionList}
    (hl : ∀ port ∈ ports, OfAction.outputToPort false port ∉ l.actions) :
    (ports.foldl (fun l port => l.addAction (.outputToPort false port)) l).actions =
      l.actions ++ ports.map (OfAction.outputToPort false) := by
  induction ports generalizing l with
  | nil => simp
  | cons port ports ih =>
      obtain ⟨hport, hrest⟩ := List.nodup_cons.mp hports
      have hnew : l.addAction (.outputToPort false port) = ⟨l.actions ++ [.outputToPort false port]⟩ := by
        rw [OpenflowActionList.addAction, if_neg]
        intro hany
        obtain ⟨action, haction, heq⟩ := List.any_eq_true.mp hany
        rw [beq_outputToPort] at heq
        rw [of_decide_eq_true heq] at haction
        exact hl port List.mem_cons_self haction
      rw [List.foldl_cons, hnew, ih hrest, List.map_cons, List.append_assoc, List.singleton_append]
      intro port' hport' hmem
      rcases List.mem_append.mp hmem with h | h
      · exact hl port' (List.mem_cons_of_mem _ hport') h
      · have heq := List.mem_singleton.mp h
        simp only [OfAction.outputToPort.injEq, true_and] at heq
        exact hport (heq ▸ hport')

theorem nodup_toList (ports : ExtTreeSet UInt16) : ports.toList.Nodup := by
  refine ExtTreeSet.distinct_toList.imp fun {a b} h heq => h ?_
  rw [heq]
  exact ReflCmp.compare_self

/-- A set of ports, as the actions of a packet-out message. -/
theorem actions_of_ports (ports : ExtTreeSet UInt16) :
    (ports.toList.foldl (fun l port => l.addAction (.outputToPort false port))
      OpenflowActionList.clear).actions = ports.toList.map (OfAction.outputToPort false) := by
  rw [foldl_addAction (nodup_toList ports) (by simp [OpenflowActionList.clear]), OpenflowActionList.clear,
    List.nil_append]

/-- **One packet-out message** sends its packet once to each of its ports. -/
theorem framesTo_singleton {packet : Bytes} {ports : ExtTreeSet UInt16} {l : OpenflowActionList}
    (hl : l.actions = ports.toList.map (OfAction.outputToPort false)) (port : UInt16) :
    framesTo [⟨packet, l⟩] port = if port ∈ ports then [packet] else [] := by
  have hfilter : l.actions.filter (· = .outputToPort false port) =
      List.replicate (ports.toList.count port) (.outputToPort false port) := by
    rw [hl, List.filter_map]
    have hcomp : ((fun action => decide (action = .outputToPort false port)) ∘ OfAction.outputToPort false) =
        fun p => decide (p = port) := by
      funext p
      simp
    rw [hcomp, List.filter_eq, List.map_replicate]
  rw [framesTo, List.flatMap_singleton, hfilter, List.map_replicate, (nodup_toList ports).count]
  simp only [ExtTreeSet.mem_toList]
  split
  · rfl
  · rfl

/-! ## A group of ports -/

/-- What one packet-out message comes to: the switch has to be ready. -/
theorem sendPacket_inv (c : PacketHal) (b : Bytes) (ports : ExtTreeSet UInt16) :
    ∃ out, (c.sendPacket b ports).1 = { c with
        pendingTransactions := c.pendingTransactions ++ out } ∧ OnlyOutputs out ∧
      (∀ port ∈ ports, c.switchReady = true → framesTo out port = [b]) ∧
      ∀ port, port ∉ ports ∨ c.switchReady = false → framesTo out port = [] := by
  rw [PacketHal.sendPacket]
  by_cases hready : c.switchReady = true
  · rw [if_neg (by rw [hready]; decide)]
    refine ⟨_, rfl, ?_, ?_, ?_⟩
    · intro m hm action haction
      rw [List.mem_singleton.mp hm, actions_of_ports] at haction
      obtain ⟨port, _, rfl⟩ := List.mem_map.mp haction
      exact ⟨port, rfl⟩
    · intro port hport _
      rw [framesTo_singleton (actions_of_ports ports), if_pos hport]
    · intro port hport
      rw [framesTo_singleton (actions_of_ports ports), if_neg]
      exact hport.resolve_right fun hr => Bool.false_ne_true (hr.symm.trans hready)
  · rw [if_pos (by rw [Bool.not_eq_true] at hready; rw [hready]; rfl)]
    refine ⟨[], by rw [List.append_nil], fun m hm => absurd hm List.not_mem_nil, ?_, fun _ _ => rfl⟩
    intro port _ hr
    exact absurd hr hready

/-- What a group of ports is sent. -/
theorem sendToGroup_inv {c c' : PacketHal} {packet : Read Bytes} {ports : ExtTreeSet UInt16}
    (h : c.sendToGroup packet ports = .ok c') : ∃ out, c' = { c with
        pendingTransactions := c.pendingTransactions ++ out } ∧ OnlyOutputs out ∧
      (∀ port ∈ ports, c.switchReady = true → ∃ b, packet = .ok b ∧ framesTo out port = [b]) ∧
      ∀ port, port ∉ ports ∨ c.switchReady = false → framesTo out port = [] := by
  rw [PacketHal.sendToGroup] at h
  split at h
  · rename_i hempty
    obtain rfl := Except.ok.inj h
    refine ⟨[], by rw [List.append_nil], fun m hm => absurd hm List.not_mem_nil, ?_, fun _ _ => rfl⟩
    intro port hport
    rw [ExtTreeSet.isEmpty_iff.mp hempty] at hport
    exact absurd hport ExtTreeSet.not_mem_empty
  · obtain ⟨b, rfl, hsend⟩ := bind_eq_ok.mp h
    obtain ⟨out, hc', hout, hsent, hquiet⟩ := sendPacket_inv c b ports
    refine ⟨out, (Except.ok.inj hsend).symm.trans hc', hout, ?_, hquiet⟩
    intro port hport hready
    exact ⟨b, rfl, hsent port hport hready⟩

theorem sendToGroup_total (c : PacketHal) {packet : Read Bytes} {ports : ExtTreeSet UInt16}
    (h : ∀ port ∈ ports, ∃ b, packet = .ok b) : ∃ c', c.sendToGroup packet ports = .ok c' := by
  rw [PacketHal.sendToGroup]
  split
  · exact ⟨c, rfl⟩
  · rename_i hne
    obtain ⟨port, hport⟩ : ∃ port, port ∈ ports := by
      by_contra hnone
      exact hne (ExtTreeSet.isEmpty_iff.mpr (ExtTreeSet.eq_empty_iff_forall_not_mem.mpr
        fun port hport => hnone ⟨port, hport⟩))
    obtain ⟨b, rfl⟩ := h port hport
    exact ⟨_, rfl⟩

/-! ## Two groups of ports -/

/--
The frames are sent to the ports that they are for: each gets one that is right for
it, and no other port gets any.
-/
def Delivers (recipient : UInt16 → Prop) (right : UInt16 → Bytes → Prop) (before : PacketHal)
    (outcome : Read (PacketHal × SwitchState)) : Prop :=
  ∃ after s out, outcome = .ok (after, s) ∧
    after.pendingTransactions = before.pendingTransactions ++ out ∧ OnlyOutputs out ∧
    ∀ port, (recipient port → ∃ b, right port b ∧ framesTo out port = [b]) ∧
      (¬ recipient port → framesTo out port = [])

/-- A group is sent one frame, and each of its ports needs that to be right. -/
def Suits (ready : Bool) (packet : Read Bytes) (right : Bytes → Prop) : Prop :=
  ready = true ∧ ∃ b, packet = .ok b ∧ right b

theorem OnlyOutputs.append {out out' : List PacketOut} (h : OnlyOutputs out) (h' : OnlyOutputs out') :
    OnlyOutputs (out ++ out') := by
  intro m hm
  rcases List.mem_append.mp hm with hm | hm
  · exact h m hm
  · exact h' m hm

/-- **Two groups that have no port in common** are served exactly if the frame of each suits all of it. -/
theorem delivers_iff {c : PacketHal} {s : SwitchState} {first second : Read Bytes}
    {ports ports' : ExtTreeSet UInt16} {recipient : UInt16 → Prop} {right : UInt16 → Bytes → Prop}
    (hrecipient : ∀ port, recipient port ↔ port ∈ ports ∨ port ∈ ports')
    (hdisjoint : ∀ port ∈ ports, port ∉ ports') :
    Delivers recipient right c (do
      let c ← c.sendToGroup first ports
      let c ← c.sendToGroup second ports'
      return (c, s)) ↔
    (∀ port ∈ ports, Suits c.switchReady first (right port)) ∧
      ∀ port ∈ ports', Suits c.switchReady second (right port) := by
  refine ⟨?_, ?_⟩
  · intro ⟨after, s', out, hrun, hafter, _, hframes⟩
    obtain ⟨c₁, hfirst, hrun⟩ := bind_eq_ok.mp hrun
    obtain ⟨c₂, hsecond, hrun⟩ := bind_eq_ok.mp hrun
    obtain ⟨rfl, rfl⟩ := Prod.mk.inj (Except.ok.inj hrun)
    obtain ⟨out₁, rfl, _, hsent₁, hquiet₁⟩ := sendToGroup_inv hfirst
    obtain ⟨out₂, rfl, _, hsent₂, hquiet₂⟩ := sendToGroup_inv hsecond
    dsimp only at hafter hsent₂ hquiet₂
    rw [List.append_assoc] at hafter
    obtain rfl := (List.append_cancel_left hafter).symm
    -- a switch that is not ready is sent nothing, and then no recipient has got its frame
    have hready : ∀ port, recipient port → c.switchReady = true := by
      intro port hport
      by_contra hoff
      rw [Bool.not_eq_true] at hoff
      obtain ⟨b, _, hb⟩ := (hframes port).1 hport
      rw [framesTo_append, hquiet₁ port (.inr hoff), hquiet₂ port (.inr hoff)] at hb
      exact absurd hb (by simp)
    refine ⟨fun port hport => ?_, fun port hport => ?_⟩
    -- a port of the first group gets what that group is sent, and nothing with the second
    · have hto := (hrecipient port).mpr (.inl hport)
      obtain ⟨b, hright, hb⟩ := (hframes port).1 hto
      obtain ⟨b', hpacket, hb'⟩ := hsent₁ port hport (hready port hto)
      rw [framesTo_append, hb', hquiet₂ port (.inl (hdisjoint port hport)), List.append_nil] at hb
      exact ⟨hready port hto, b', hpacket, (List.singleton_inj.mp hb) ▸ hright⟩
    · have hto := (hrecipient port).mpr (.inr hport)
      obtain ⟨b, hright, hb⟩ := (hframes port).1 hto
      obtain ⟨b', hpacket, hb'⟩ := hsent₂ port hport (hready port hto)
      rw [framesTo_append, hb', hquiet₁ port (.inl fun h => hdisjoint port h hport), List.nil_append] at hb
      exact ⟨hready port hto, b', hpacket, (List.singleton_inj.mp hb) ▸ hright⟩
  · intro ⟨hsuits₁, hsuits₂⟩
    obtain ⟨c₁, hfirst⟩ := sendToGroup_total c fun port hport => (hsuits₁ port hport).2.imp fun b hb => hb.1
    obtain ⟨c₂, hsecond⟩ := sendToGroup_total c₁ fun port hport => (hsuits₂ port hport).2.imp fun b hb => hb.1
    obtain ⟨out₁, rfl, hout₁, hsent₁, hquiet₁⟩ := sendToGroup_inv hfirst
    obtain ⟨out₂, rfl, hout₂, hsent₂, hquiet₂⟩ := sendToGroup_inv hsecond
    dsimp only at hsent₂ hquiet₂
    refine ⟨_, s, out₁ ++ out₂, by rw [hfirst, ok_bind, hsecond]; rfl, List.append_assoc ..,
      hout₁.append hout₂, fun port => ⟨fun hport => ?_, fun hport => ?_⟩⟩
    · rw [framesTo_append]
      rcases (hrecipient port).mp hport with hport | hport
      · obtain ⟨hready, b, hpacket, hright⟩ := hsuits₁ port hport
        obtain ⟨b', hpacket', hb'⟩ := hsent₁ port hport hready
        rw [hb', hquiet₂ port (.inl (hdisjoint port hport)), List.append_nil]
        exact ⟨b', Except.ok.inj (hpacket.symm.trans hpacket') ▸ hright, rfl⟩
      · obtain ⟨hready, b, hpacket, hright⟩ := hsuits₂ port hport
        obtain ⟨b', hpacket', hb'⟩ := hsent₂ port hport hready
        rw [hb', hquiet₁ port (.inl fun h => hdisjoint port h hport), List.nil_append]
        exact ⟨b', Except.ok.inj (hpacket.symm.trans hpacket') ▸ hright, rfl⟩
    · rw [hrecipient, not_or] at hport
      rw [framesTo_append, hquiet₁ port (.inl hport.1), hquiet₂ port (.inl hport.2), List.nil_append]

/-! ## The ports of a VLAN -/

variable {s : SwitchState} {vlan port : UInt16}

theorem portAt_of_getElem? {ports : PortMap} {p : OpenflowVlanPort} (h : ports[port]? = some p) :
    portAt ports port = p := by
  rw [portAt, h]
  rfl

/-- A valid port is in the map: the default one is not valid. -/
theorem getElem?_of_valid {ports : PortMap} (h : (portAt ports port).valid = true) :
    ports[port]? = some (portAt ports port) := by
  cases hget : ports[port]? with
  | none =>
      rw [portAt, hget] at h
      exact absurd h Bool.false_ne_true
  | some p => rw [portAt_of_getElem? hget]

theorem mem_portsOfVlan {tagged : Bool} : port ∈ s.portsOfVlan vlan tagged ↔
    (portAt s.ports port).valid = true ∧ (portAt s.ports port).isMemberOfVlan vlan = true ∧
      (portAt s.ports port).tagged = tagged := by
  rw [portsOfVlan, mem_foldl_insert (fun it : UInt16 × OpenflowVlanPort =>
    it.2.valid && it.2.isMemberOfVlan vlan && it.2.tagged == tagged) Prod.fst]
  refine ⟨?_, ?_⟩
  · intro h
    obtain ⟨⟨port', p⟩, hmem, htest, rfl⟩ := h.resolve_left ExtTreeSet.not_mem_empty
    rw [portAt_of_getElem? (ExtTreeMap.mem_toList_iff_getElem?_eq_some.mp hmem)]
    simpa [and_assoc] using htest
  · intro ⟨hvalid, hmember, htagged⟩
    refine .inr ⟨(port, portAt s.ports port),
      ExtTreeMap.mem_toList_iff_getElem?_eq_some.mpr (getElem?_of_valid hvalid), ?_, rfl⟩
    simp [hvalid, hmember, htagged]

/-- Looking at a valid port changes no port. -/
theorem getSwitchPort_valid (h : (portAt s.ports port).valid = true) :
    (s.getSwitchPort port).1 = (true, portAt s.ports port) ∧
      ∀ other, portAt (s.getSwitchPort port).2.ports other = portAt s.ports other := by
  have hget := getElem?_of_valid h
  have hsame : maybeCreatePort s.ports port = s.ports := by
    unfold maybeCreatePort
    split
    · rfl
    · rw [if_pos]
      rw [ExtTreeMap.contains_eq_isSome_getElem?, hget]
      rfl
  have hlooked : s.getSwitchPort port =
      ((true, portAt s.ports port), { s with ports := s.ports.insert port (portAt s.ports port) }) := by
    rw [getSwitchPort, hsame, h]
  rw [hlooked]
  refine ⟨rfl, fun other => ?_⟩
  dsimp only
  rw [portAt, getElem?_insert]
  split
  · rename_i heq
    rw [← heq]
    rfl
  · rfl

/-- The ports that a frame of a VLAN is for. -/
structure Recipient (s : SwitchState) (vlan inPort port : UInt16) : Prop where
  ne : port ≠ inPort
  valid : (portAt s.ports port).valid = true
  member : (portAt s.ports port).isMemberOfVlan vlan = true

theorem recipient_iff {s s' : SwitchState} {inPort : UInt16}
    (hsame : ∀ other, portAt s'.ports other = portAt s.ports other) (tagged : Bool) :
    port ∈ (s'.portsOfVlan vlan tagged).erase inPort ↔
      Recipient s vlan inPort port ∧ (portAt s.ports port).tagged = tagged := by
  rw [ExtTreeSet.mem_erase, mem_portsOfVlan, hsame]
  simp only [ne_eq, LawfulEqOrd.compare_eq_iff_eq]
  refine ⟨?_, ?_⟩
  · intro ⟨hne, hvalid, hmember, htagged⟩
    exact ⟨⟨fun h => hne h.symm, hvalid, hmember⟩, htagged⟩
  · intro ⟨hto, htagged⟩
    exact ⟨fun h => hto.ne h.symm, hto.valid, hto.member, htagged⟩

/-! ## The frame -/

/-- The parser sees the tag. -/
theorem deserialize_bytes {f : Frame} {before raw : RawPacket} {status : Bool}
    (h : before.deserialize f.bytes = .ok (status, raw)) :
    raw.hasVlanTag = f.tag.isSome ∧ ∀ tag, f.tag = some tag → raw.vlanId = Frame.vlanOf tag := by
  obtain ⟨destMac, srcMac, ethertype, hdest, hsrc, htype⟩ := RawPacket.exists_header f.fourteen_le_length
  have hroom : ¬ f.bytes.length < RawPacket.untaggedHdrSize := Nat.not_lt.mpr f.fourteen_le_length
  rw [RawPacket.deserialize, if_neg hroom, hdest, hsrc, htype] at h
  simp only [ok_bind] at h
  cases hf : f.tag with
  | none =>
      have hne : ethertype ≠ 0x8100 := by
        intro heq
        have hsome := Frame.readU16_bytes_type.mp (by rw [htype, heq])
        rw [hf] at hsome
        exact Bool.false_ne_true hsome
      rw [if_neg hne] at h
      obtain ⟨packetType, hpacket⟩ :=
        RawPacket.exists_packetTypeOf ethertype f.bytes RawPacket.untaggedHdrSize
      rw [RawPacket.setPacketType_eq hpacket] at h
      obtain rfl := congrArg Prod.snd (Except.ok.inj h)
      exact ⟨rfl, fun tag htag => absurd htag.symm (Option.some_ne_none tag)⟩
  | some tag =>
      have hlong := Frame.eighteen_le_length (Option.isSome_of_eq_some hf)
      have hroom' : ¬ f.bytes.length < RawPacket.taggedHdrSize := Nat.not_lt.mpr hlong
      have heq : ethertype = 0x8100 := by
        have h8100 := Frame.readU16_bytes_type.mpr (Option.isSome_of_eq_some hf)
        rw [htype] at h8100
        exact Except.ok.inj h8100
      have htci : readU16 f.bytes 14 = .ok tag := by
        rw [Frame.bytes_tagged hf, Frame.readU16_withTag_tag]
      obtain ⟨inner, hinner⟩ := exists_readU16 (show 16 + 2 ≤ f.bytes.length by omega)
      rw [if_pos heq, if_neg hroom', htci, hinner, ok_bind, ok_bind] at h
      obtain ⟨packetType, hpacket⟩ := RawPacket.exists_packetTypeOf inner f.bytes RawPacket.taggedHdrSize
      rw [RawPacket.setPacketType_eq hpacket] at h
      obtain rfl := congrArg Prod.snd (Except.ok.inj h)
      exact ⟨rfl, fun tag' htag' => by rw [← Option.some.inj htag']; rfl⟩

/-- A frame as it has to be on a port, tagged or not. -/
def FrameAt (f : Frame) (vlan : UInt16) : Bool → Bytes → Prop
  | true, b => ∃ tag, Frame.vlanOf tag = vlan ∧ b = f.withTag tag
  | false, b => b = f.withoutTag

/-- A frame that came in on a port, and the VLAN it is then of. -/
inductive Accepted (f : Frame) (port : OpenflowVlanPort) (vlan : UInt16) : Prop
  | tagged {tag : UInt16} : f.tag = some tag → Frame.vlanOf tag = vlan →
      port.isMemberOfVlan vlan = true → Accepted f port vlan
  | untagged : f.tag = none → port.tagged = false → port.vlanMembership.min? = some vlan →
      Accepted f port vlan

/-- A port that a frame can be sent to as it has to be there. -/
def Served (ready : Bool) (f : Frame) (vlan : UInt16) (tagged : Bool) : Prop :=
  ready = true ∧
    match f.tag, tagged with
    | some _, tagged => tagged = true
    | none, true => vlan < 4096 ∧ 14 < f.bytes.length
    | none, false => True

/-! ## Flooding -/

section Flooding

variable {junk : Nat → UInt8} {c : PacketHal} {packet : PacketIn} {f : Frame} {raw before : RawPacket}
  {status : Bool}

/-- A tagged frame of a VLAN of its port: stripped for one group, and as it is for the other. -/
theorem floodPacket_tagged {tag : UInt16} (hraw : raw.hasVlanTag = true) (hid : raw.vlanId = Frame.vlanOf tag)
    (hvalid : (portAt s.ports packet.inPort).valid = true)
    (hmember : (portAt s.ports packet.inPort).isMemberOfVlan (Frame.vlanOf tag) = true) :
    floodPacket junk c packet raw s = (do
      let looked := (s.getSwitchPort packet.inPort).2
      let c ← c.sendToGroup (untaggedPacket junk packet.pktData)
        ((looked.portsOfVlan (Frame.vlanOf tag) false).erase packet.inPort)
      let c ← c.sendToGroup (.ok packet.pktData)
        ((looked.portsOfVlan (Frame.vlanOf tag) true).erase packet.inPort)
      return (c, looked)) := by
  have hlook := (getSwitchPort_valid hvalid).1
  have hcontains : (portAt s.ports packet.inPort).vlanMembership.contains (Frame.vlanOf tag) = true := hmember
  simp [floodPacket, hlook, hraw, RawPacket.getVlanId, hid, hcontains, getUntaggedPorts, getTaggedPorts]

theorem floodPacket_untagged (hraw : raw.hasVlanTag = false)
    (hvalid : (portAt s.ports packet.inPort).valid = true)
    (huntagged : (portAt s.ports packet.inPort).tagged = false)
    (hvlan : (portAt s.ports packet.inPort).vlanMembership.min? = some vlan) :
    floodPacket junk c packet raw s = (do
      let looked := (s.getSwitchPort packet.inPort).2
      let c ← c.sendToGroup (.ok packet.pktData)
        ((looked.portsOfVlan vlan false).erase packet.inPort)
      let c ← c.sendToGroup (taggedPacket junk packet.pktData vlan)
        ((looked.portsOfVlan vlan true).erase packet.inPort)
      return (c, looked)) := by
  have hlook := (getSwitchPort_valid hvalid).1
  have hnonempty : (portAt s.ports packet.inPort).vlanMembership.isEmpty = false := by
    rw [ExtTreeSet.isEmpty_eq_false_iff]
    intro hempty
    rw [hempty, ExtTreeSet.min?_empty] at hvlan
    exact absurd hvlan.symm (Option.some_ne_none vlan)
  simp [floodPacket, hlook, hraw, huntagged, hnonempty, hvlan, getUntaggedPorts, getTaggedPorts]

/-- Two groups, each with a frame for it, are all the ports of the VLAN. -/
theorem delivers_to_vlan {looked : SwitchState} {inPort : UInt16} {first second : Read Bytes}
    (hsame : ∀ other, portAt looked.ports other = portAt s.ports other)
    (hfirst : Suits c.switchReady first (FrameAt f vlan false) ↔ Served c.switchReady f vlan false)
    (hsecond : Suits c.switchReady second (FrameAt f vlan true) ↔ Served c.switchReady f vlan true) :
    Delivers (Recipient s vlan inPort) (fun port => FrameAt f vlan (portAt s.ports port).tagged) c (do
      let c ← c.sendToGroup first ((looked.portsOfVlan vlan false).erase inPort)
      let c ← c.sendToGroup second ((looked.portsOfVlan vlan true).erase inPort)
      return (c, looked)) ↔
    ∀ port, Recipient s vlan inPort port → Served c.switchReady f vlan (portAt s.ports port).tagged := by
  have hgroups : ∀ port, Recipient s vlan inPort port ↔
      port ∈ (looked.portsOfVlan vlan false).erase inPort ∨
        port ∈ (looked.portsOfVlan vlan true).erase inPort := by
    intro port
    rw [recipient_iff hsame, recipient_iff hsame, ← and_or_left]
    exact (and_iff_left (Bool.eq_false_or_eq_true _).symm).symm
  -- a port is tagged or not, so it is in one group only
  have hdisjoint : ∀ port ∈ (looked.portsOfVlan vlan false).erase inPort,
      port ∉ (looked.portsOfVlan vlan true).erase inPort := by
    intro port hport hport'
    have huntagged := ((recipient_iff hsame _).mp hport).2
    rw [((recipient_iff hsame _).mp hport').2] at huntagged
    exact Bool.false_ne_true huntagged.symm
  rw [delivers_iff hgroups hdisjoint]
  refine ⟨?_, ?_⟩
  · intro ⟨hsuits₁, hsuits₂⟩ port hto
    rcases (hgroups port).mp hto with hport | hport
    · have huntagged := ((recipient_iff hsame _).mp hport).2
      have hsuits := hsuits₁ port hport
      rw [huntagged] at hsuits ⊢
      exact hfirst.mp hsuits
    · have htagged := ((recipient_iff hsame _).mp hport).2
      have hsuits := hsuits₂ port hport
      rw [htagged] at hsuits ⊢
      exact hsecond.mp hsuits
  · intro h
    refine ⟨fun port hport => ?_, fun port hport => ?_⟩
    · obtain ⟨hto, huntagged⟩ := (recipient_iff hsame _).mp hport
      have hserved := h port hto
      rw [huntagged] at hserved ⊢
      exact hfirst.mpr hserved
    · obtain ⟨hto, htagged⟩ := (recipient_iff hsame _).mp hport
      have hserved := h port hto
      rw [htagged] at hserved ⊢
      exact hsecond.mpr hserved

/-! A frame as it is, or as it is made, suits a group exactly if the group can be served. -/

section Suits

variable {ready : Bool}

theorem suits_tagged_as_is {tag : UInt16} (h : f.tag = some tag) :
    Suits ready (.ok f.bytes) (FrameAt f (Frame.vlanOf tag) true) ↔
      Served ready f (Frame.vlanOf tag) true := by
  unfold Served
  rw [h]
  exact and_congr_right fun _ => iff_of_true ⟨f.bytes, rfl, tag, rfl, Frame.bytes_tagged h⟩ rfl

theorem suits_tagged_stripped {tag : UInt16} (h : f.tag = some tag) (hlt : f.bytes.length < 2 ^ 16) :
    Suits ready (untaggedPacket junk f.bytes) (FrameAt f vlan false) ↔ Served ready f vlan false := by
  unfold Served
  rw [h]
  refine and_congr_right fun _ => iff_of_false ?_ Bool.false_ne_true
  intro ⟨b, hstrip, hright⟩
  exact untaggedPacket_ne junk h hlt hstrip hright

theorem suits_untagged_as_is (h : f.tag = none) :
    Suits ready (.ok f.bytes) (FrameAt f vlan false) ↔ Served ready f vlan false := by
  unfold Served
  rw [h]
  exact and_congr_right fun _ => iff_of_true ⟨f.bytes, rfl, Frame.bytes_untagged h⟩ trivial

theorem suits_untagged_set (h : f.tag = none) (hlt : f.bytes.length < 2 ^ 16) :
    Suits ready (taggedPacket junk f.bytes vlan) (FrameAt f vlan true) ↔ Served ready f vlan true := by
  unfold Served
  rw [h]
  refine and_congr_right fun _ => ?_
  rcases Nat.eq_or_lt_of_le f.fourteen_le_length with hshort | hlong
  · rw [taggedPacket_header junk h hshort.symm]
    refine iff_of_false ?_ ?_
    · intro ⟨b, herror, _⟩
      exact absurd herror (by simp)
    · intro ⟨_, hlong⟩
      omega
  · rw [taggedPacket_untagged junk h hlong hlt]
    refine ⟨?_, ?_⟩
    · intro ⟨b, hset, tag, hvlan, hb⟩
      have htag := Frame.withTag_injective ((Except.ok.inj hset).trans hb)
      refine ⟨Frame.vlanOf_eq_self_iff.mp ?_, hlong⟩
      rw [← htag] at hvlan
      exact (Frame.vlanOf_vlanOf vlan).symm.trans hvlan
    · intro ⟨hroom, _⟩
      exact ⟨_, rfl, _, (Frame.vlanOf_vlanOf vlan).trans (Frame.vlanOf_eq_self_iff.mpr hroom), rfl⟩

end Suits

/--
**When a frame is flooded as it has to be.** A frame came in on a valid port, in a VLAN
of it. All other ports of the VLAN, and no others, get it once, tagged as they are,
exactly if each of them can be served.
-/
theorem floods_exactly_iff (hframe : packet.pktData = f.bytes)
    (hraw : before.deserialize packet.pktData = .ok (status, raw))
    (hvalid : (portAt s.ports packet.inPort).valid = true)
    (haccepted : Accepted f (portAt s.ports packet.inPort) vlan) :
    Delivers (Recipient s vlan packet.inPort) (fun port => FrameAt f vlan (portAt s.ports port).tagged) c
      (floodPacket junk c packet raw s) ↔
    ∀ port, Recipient s vlan packet.inPort port →
      Served c.switchReady f vlan (portAt s.ports port).tagged := by
  have hsame := (getSwitchPort_valid hvalid).2
  have hlt : f.bytes.length < 2 ^ 16 := hframe ▸ packet.size_lt
  rw [hframe] at hraw
  obtain ⟨htag, hid⟩ := deserialize_bytes hraw
  cases haccepted with
  | tagged hf hvlan hmember =>
      subst hvlan
      rw [floodPacket_tagged (by rw [htag, hf]; rfl) (hid _ hf) hvalid hmember, hframe]
      exact delivers_to_vlan hsame (suits_tagged_stripped hf hlt) (suits_tagged_as_is hf)
  | untagged hf huntagged hvlan =>
      rw [floodPacket_untagged (by rw [htag, hf]; rfl) hvalid huntagged hvlan, hframe]
      exact delivers_to_vlan hsame (suits_untagged_as_is hf) (suits_untagged_set hf hlt)

/-- A port of VLAN 5. -/
def portOfFive (tagged : Bool) : OpenflowVlanPort where
  valid := true
  tagged := tagged
  vlanMembership := (∅ : ExtTreeSet UInt16).insert 5

/-- A switch with VLAN 5 on three ports, the last of them tagged. -/
def threePorts : SwitchState where
  ports := (((∅ : PortMap).insert 1 (portOfFive false)).insert 2 (portOfFive false)).insert 3
    (portOfFive true)

theorem min?_portOfFive (tagged : Bool) : (portOfFive tagged).vlanMembership.min? = some 5 := by
  rw [portOfFive, ExtTreeSet.min?_insert, ExtTreeSet.min?_empty]
  rfl

theorem portAt_threePorts : portAt threePorts.ports 1 = portOfFive false ∧
    portAt threePorts.ports 3 = portOfFive true := ⟨rfl, rfl⟩

/-- An ARP request, so far as it matters, to everyone. -/
def broadcastFrame (tag : Option UInt16) : Frame where
  addresses := List.replicate 6 0xff ++ [2, 0, 0, 0, 0, 1]
  tag := tag
  payload := [0x08, 0x06, 0x00, 0x01]
  length_addresses := by decide
  two_le_length := by decide
  untagged _ := by decide

/-- The frame, untagged, from the first port. -/
def untaggedBroadcast : PacketIn where
  inPort := 1
  pktData := (broadcastFrame none).bytes
  size_lt := by decide

/-- The frame, tagged, from the third port. -/
def taggedBroadcast : PacketIn where
  inPort := 3
  pktData := (broadcastFrame (some 5)).bytes
  size_lt := by decide

theorem deserialize_untaggedBroadcast : ({} : RawPacket).deserialize untaggedBroadcast.pktData = .ok (true, {
    packetType := .arp
    ethertype := 0x0806
    srcMac := ⟨#v[2, 0, 0, 0, 0, 1]⟩
    destMac := MacAddress.broadcast }) := by rfl

/-- Without a tag it is flooded as it has to be. -/
theorem floods_untaggedBroadcast :
    Delivers (Recipient threePorts 5 1)
      (fun port => FrameAt (broadcastFrame none) 5 (portAt threePorts.ports port).tagged)
        { switchReady := true }
      (floodPacket (fun _ => 0) { switchReady := true } untaggedBroadcast {
        packetType := .arp
        ethertype := 0x0806
        srcMac := ⟨#v[2, 0, 0, 0, 0, 1]⟩
        destMac := MacAddress.broadcast } threePorts) := by
  have haccepted : Accepted (broadcastFrame none) (portAt threePorts.ports untaggedBroadcast.inPort) 5 :=
    .untagged rfl rfl (min?_portOfFive false)
  refine (floods_exactly_iff rfl deserialize_untaggedBroadcast rfl haccepted).mpr fun port _ => ⟨rfl, ?_⟩
  cases (portAt threePorts.ports port).tagged with
  | false => exact trivial
  | true => exact ⟨by decide, by decide⟩

/-- With a tag it has one on the untagged ports as well. -/
theorem taggedBroadcast_not_stripped :
    Accepted (broadcastFrame (some 5)) (portAt threePorts.ports taggedBroadcast.inPort) 5 ∧
    ¬ Delivers (Recipient threePorts 5 3)
      (fun port => FrameAt (broadcastFrame (some 5)) 5 (portAt threePorts.ports port).tagged)
      { switchReady := true }
      (floodPacket (fun _ => 0) { switchReady := true } taggedBroadcast {
        packetType := .arp
        ethertype := 0x0806
        hasVlanTag := true
        vlanId := 5
        srcMac := ⟨#v[2, 0, 0, 0, 0, 1]⟩
        destMac := MacAddress.broadcast } threePorts) := by
  have hvalid : (portAt threePorts.ports taggedBroadcast.inPort).valid = true := rfl
  have hmember : (portAt threePorts.ports taggedBroadcast.inPort).isMemberOfVlan (Frame.vlanOf 5) =
    true := rfl
  have hto : Recipient threePorts 5 3 1 := ⟨by decide, rfl, rfl⟩
  refine ⟨.tagged rfl rfl hmember, fun hdelivers => ?_⟩
  rw [floodPacket_tagged rfl rfl hvalid hmember] at hdelivers
  have htag : (broadcastFrame (some 5)).tag = some 5 := rfl
  have hlt : (broadcastFrame (some 5)).bytes.length < 2 ^ 16 := taggedBroadcast.size_lt
  have hserved := (delivers_to_vlan (getSwitchPort_valid hvalid).2 (suits_tagged_stripped htag hlt)
    (suits_tagged_as_is htag)).mp hdelivers 1 hto
  rw [portAt_threePorts.1] at hserved
  exact Bool.false_ne_true hserved.2

/-! The packet that is flooded there is what the parser makes of the frame. -/

example : ({} : RawPacket).deserialize taggedBroadcast.pktData = .ok (true, {
    packetType := .arp
    ethertype := 0x0806
    hasVlanTag := true
    vlanId := 5
    srcMac := ⟨#v[2, 0, 0, 0, 0, 1]⟩
    destMac := MacAddress.broadcast }) := rfl

end Flooding

end IronStack.Proof
