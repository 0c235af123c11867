import IronStack.Arp.ArpService
import IronStack.Proof.Flooding

/-!
# The tags of what the ARP service sends

A frame leaves an untagged port without a tag, and a tagged port with a tag of a
VLAN of the port. A query is split by the tagging of the ports, and is right but
where its VLAN does not fit into a tag. A response is always tagged, and with the
VLAN of the request, whatever its port is like.
-/

namespace IronStack.Proof

open IronStack Std Lib NetUtils SwitchState

/-! ## Tags and ports -/

/-- The tag, or none, that a frame has to have on a port. -/
def TagFits (port : OpenflowVlanPort) (tag : Option UInt16) : Prop :=
  match port.tagged with
  | true => ∃ word, tag = some word ∧ port.isMemberOfVlan (Frame.vlanOf word) = true
  | false => tag = none

/-- Bytes that are a frame with the tag it has to have on a port. -/
def Leaves (port : OpenflowVlanPort) (b : Bytes) : Prop :=
  ∃ f : Frame, f.bytes = b ∧ TagFits port f.tag

theorem leaves_bytes_iff {port : OpenflowVlanPort} {f : Frame} :
    Leaves port f.bytes ↔ TagFits port f.tag := by
  refine ⟨?_, ?_⟩
  · intro ⟨g, hbytes, hfits⟩
    rwa [← Frame.tag_eq_of_bytes_eq hbytes]
  · intro hfits
    exact ⟨f, rfl, hfits⟩

theorem tagFits_none_iff {port : OpenflowVlanPort} : TagFits port none ↔ port.tagged = false := by
  unfold TagFits
  cases port.tagged with
  | true => exact iff_of_false (fun ⟨word, hword, _⟩ => absurd hword.symm (Option.some_ne_none word)) nofun
  | false => exact iff_of_true rfl rfl

theorem tagFits_some_iff {port : OpenflowVlanPort} {word : UInt16} :
    TagFits port (some word) ↔ port.tagged = true ∧ port.isMemberOfVlan (Frame.vlanOf word) = true := by
  unfold TagFits
  cases port.tagged with
  | true =>
      refine ⟨?_, fun h => ⟨word, rfl, h.2⟩⟩
      intro ⟨word', hword, hmember⟩
      rw [Option.some.inj hword]
      exact ⟨rfl, hmember⟩
  | false => exact iff_of_false (Option.some_ne_none word) fun h => Bool.false_ne_true h.1

/--
What is sent, between one state of the `hal` and the next, has the right tag on every
port that is valid. Nothing but output to a port is asked of the switch.
-/
def Disciplined (ports : PortMap) (before after : PacketHal) : Prop :=
  ∃ out, after.pendingTransactions = before.pendingTransactions ++ out ∧ OnlyOutputs out ∧
    ∀ port, (portAt ports port).valid = true → ∀ b ∈ framesTo out port, Leaves (portAt ports port) b

/-- It is enough to look at the frames. -/
theorem disciplined_iff {ports : PortMap} {before after : PacketHal} {out : List PacketOut}
    (hsent : after.pendingTransactions = before.pendingTransactions ++ out) (hout : OnlyOutputs out) :
    Disciplined ports before after ↔ ∀ port, (portAt ports port).valid = true →
      ∀ b ∈ framesTo out port, Leaves (portAt ports port) b := by
  refine ⟨?_, fun h => ⟨out, hsent, hout, h⟩⟩
  intro ⟨out', hsent', _, hframes⟩
  rw [hsent] at hsent'
  rwa [List.append_cancel_left hsent']

theorem disciplined_self (ports : PortMap) (c : PacketHal) : Disciplined ports c c := by
  refine ⟨[], by rw [List.append_nil], fun m hm => absurd hm List.not_mem_nil, ?_⟩
  intro port _ b hb
  exact absurd hb List.not_mem_nil

/-! ## A frame on a VLAN -/

/-- The VLAN that is left of a VLAN in a tag is one of each tagged port that the frame goes to. -/
def QueryFits (ports : PortMap) (vlan : UInt16) : Prop :=
  ∀ port, (portAt ports port).valid = true → (portAt ports port).isMemberOfVlan vlan = true →
    (portAt ports port).tagged = true → (portAt ports port).isMemberOfVlan (Frame.vlanOf vlan) = true

/-- The frames that a group of ports is sent. -/
theorem sendToGroup_frames (c : PacketHal) (b : Bytes) (ports : ExtTreeSet UInt16) :
    ∃ out, c.sendToGroup (.ok b) ports = .ok { c with
        pendingTransactions := c.pendingTransactions ++ out } ∧ OnlyOutputs out ∧
      ∀ port b', b' ∈ framesTo out port ↔ c.switchReady = true ∧ port ∈ ports ∧ b' = b := by
  have htotal : ∃ c', c.sendToGroup (.ok b) ports = .ok c' := sendToGroup_total c fun _ _ => ⟨b, rfl⟩
  obtain ⟨c', hsend⟩ := htotal
  obtain ⟨out, rfl, hout, hsent, hquiet⟩ := sendToGroup_inv hsend
  refine ⟨out, hsend, hout, fun port b' => ?_⟩
  by_cases hto : c.switchReady = true ∧ port ∈ ports
  · obtain ⟨b'', hb'', hframes⟩ := hsent port hto.2 hto.1
    rw [hframes, List.mem_singleton, ← Except.ok.inj hb'', ← and_assoc, and_iff_right hto]
  · have hquiet' : framesTo out port = [] := by
      refine hquiet port ?_
      rw [← Bool.not_eq_true, ← not_and_or, and_comm]
      exact hto
    rw [hquiet', ← and_assoc]
    exact iff_of_false List.not_mem_nil fun h => hto h.1

/-- **Flooding an untagged frame** on a VLAN goes well exactly if the VLAN fits into a tag. -/
theorem floodPacketOnVlan_spec (junk : Nat → UInt8) (c : PacketHal) (s : SwitchState) {f : Frame}
    (huntagged : f.tag = none) (hlong : 14 < f.bytes.length) (hlt : f.bytes.length < 2 ^ 16) (vlan : UInt16) :
    ∃ c', floodPacketOnVlan junk c s f.bytes vlan = .ok c' ∧
      (Disciplined s.ports c c' ↔ (c.switchReady = true → QueryFits s.ports vlan)) := by
  obtain ⟨out₁, hfirst, hout₁, hframes₁⟩ :=
    sendToGroup_frames c (f.withTag (Frame.vlanOf vlan)) (s.getTaggedPorts vlan)
  obtain ⟨out₂, hsecond, hout₂, hframes₂⟩ := sendToGroup_frames
    { c with pendingTransactions := c.pendingTransactions ++ out₁ } f.bytes (s.getUntaggedPorts vlan)
  dsimp only at hframes₂
  refine ⟨{ c with pendingTransactions := c.pendingTransactions ++ out₁ ++ out₂ }, ?_, ?_⟩
  · rw [floodPacketOnVlan, taggedPacket_untagged junk huntagged hlong hlt]
    change (c.sendToGroup (.ok (f.withTag (Frame.vlanOf vlan))) _ >>= _) = _
    rw [hfirst, ok_bind, hsecond]
  rw [disciplined_iff (List.append_assoc ..) (hout₁.append hout₂)]
  have hset := f.bytes_setTag (Frame.vlanOf vlan)
  -- the group of untagged ports is always right; a tagged port gets the tag that is left of the VLAN
  refine ⟨?_, ?_⟩
  · intro h hready port hvalid hmember htagged
    have hto : port ∈ s.getTaggedPorts vlan := mem_portsOfVlan.mpr ⟨hvalid, hmember, htagged⟩
    have hleaves : Leaves (portAt s.ports port) (f.withTag (Frame.vlanOf vlan)) := by
      refine h port hvalid _ ?_
      rw [framesTo_append]
      exact List.mem_append_left _ ((hframes₁ port _).mpr ⟨hready, hto, rfl⟩)
    rw [← hset, leaves_bytes_iff] at hleaves
    have hfits := (tagFits_some_iff.mp hleaves).2
    rwa [Frame.vlanOf_vlanOf] at hfits
  · intro h port hvalid b hb
    rw [framesTo_append] at hb
    rcases List.mem_append.mp hb with hb | hb
    · obtain ⟨hready, hto, rfl⟩ := (hframes₁ port b).mp hb
      obtain ⟨_, hmember, htagged⟩ := mem_portsOfVlan.mp hto
      rw [← hset, leaves_bytes_iff]
      refine tagFits_some_iff.mpr ⟨htagged, ?_⟩
      rw [Frame.vlanOf_vlanOf]
      exact h hready port hvalid hmember htagged
    · obtain ⟨_, hto, rfl⟩ := (hframes₂ port b).mp hb
      obtain ⟨_, _, htagged⟩ := mem_portsOfVlan.mp hto
      rw [leaves_bytes_iff, huntagged]
      exact tagFits_none_iff.mpr htagged

/-- **A tagged frame for one port** goes well exactly if the port is tagged, and in the VLAN of the tag. -/
theorem sendPacket_tagged {c : PacketHal} {ports : PortMap} {f : Frame} {word port : UInt16}
    (htag : f.tag = some word) :
    Disciplined ports c (c.sendPacket f.bytes (ExtTreeSet.ofList [port])).1 ↔
      (c.switchReady = true → (portAt ports port).valid = true →
        (portAt ports port).tagged = true ∧
          (portAt ports port).isMemberOfVlan (Frame.vlanOf word) = true) := by
  obtain ⟨out, hsend, hout, hsent, hquiet⟩ := sendPacket_inv c f.bytes (ExtTreeSet.ofList [port])
  have hmem : ∀ other, other ∈ ExtTreeSet.ofList [port] ↔ other = port := by
    intro other
    rw [ExtTreeSet.mem_ofList, List.contains_iff_mem, List.mem_singleton]
  rw [hsend, disciplined_iff rfl hout, ← tagFits_some_iff, ← htag, ← leaves_bytes_iff]
  refine ⟨?_, ?_⟩
  · intro h hready hvalid
    refine h port hvalid _ ?_
    rw [hsent port ((hmem port).mpr rfl) hready]
    exact List.mem_singleton_self _
  · intro h other hvalid b hb
    by_cases hto : other = port ∧ c.switchReady = true
    · obtain ⟨rfl, hready⟩ := hto
      rw [hsent other ((hmem other).mpr rfl) hready, List.mem_singleton] at hb
      rw [hb]
      exact h hready hvalid
    · rw [hquiet other (by rwa [hmem, ← Bool.not_eq_true, ← not_and_or])] at hb
      exact absurd hb List.not_mem_nil

/-! ## ARP packets as frames -/

/-- The frame that an ARP packet is sent as. -/
def arpFrame (p : ArpPacket) : Frame where
  addresses := p.destMac.addr.toList ++ p.srcMac.addr.toList
  tag := if p.hasVlanTag then some p.toRawPacket.pcpDeiId else none
  payload := be16 0x0806 ++ p.serializeHdr
  length_addresses := by rw [List.length_append, Vector.length_toList, Vector.length_toList]
  two_le_length := by rw [List.length_append, length_be16]; omega
  untagged _ := by
    rw [readU16_be16]
    simp

theorem serialize_arp {p : ArpPacket} (htype : p.packetType = .arp) (hether : p.ethertype = 0) :
    p.serialize = .ok (arpFrame p).bytes := by
  have hpack : p.toRawPacket.ethertypeToPack = .ok 0x0806 := by
    rw [RawPacket.ethertypeToPack, if_neg (not_not_intro hether), htype]
  rw [ArpPacket.serialize, RawPacket.serialize, hpack, ok_bind]
  cases htag : p.hasVlanTag with
  | true => simp [arpFrame, Frame.bytes, Frame.withTag, htag]
  | false => simp [arpFrame, Frame.bytes, Frame.withoutTag, htag]

section Service

variable {junk : Nat → UInt8} {s : ArpService} {fuel now : Nat} {packet : PacketIn} {raw : RawPacket}
  {dest : IpAddress} {vlan : UInt16}

/-- The query is sent untagged, and is more than a header. -/
theorem serialize_query (s : ArpService) (dest : IpAddress) : ∃ f : Frame,
    (s.query dest).serialize = .ok f.bytes ∧ f.tag = none ∧ f.bytes.length = 42 := by
  have htag : (arpFrame (s.query dest)).tag = none := rfl
  refine ⟨_, serialize_arp rfl rfl, htag, ?_⟩
  rw [Frame.length_bytes_untagged htag]
  simp [arpFrame, ArpPacket.length_serializeHdr, ArpPacket.hdrSize]

/-- The response is sent tagged, with what there is room for of its VLAN. -/
theorem serialize_response (s : ArpService) (arpPkt : ArpPacket) (vlan : UInt16) : ∃ f : Frame,
    (s.response arpPkt vlan).serialize = .ok f.bytes ∧ f.tag = some (Frame.vlanOf vlan) := by
  have hword : (s.response arpPkt vlan).toRawPacket.pcpDeiId = Frame.vlanOf vlan := by
    simp [RawPacket.pcpDeiId, ArpService.response, Frame.vlanOf]
  exact ⟨_, serialize_arp rfl rfl, congrArg some hword⟩

/-! ## What looking at the ports leaves as it is -/

/-- Two ports that are the same, as far as tagging goes. -/
structure SameTagging (p q : OpenflowVlanPort) : Prop where
  valid : p.valid = q.valid
  tagged : p.tagged = q.tagged
  member : p.vlanMembership = q.vlanMembership

/-- Two states of the switch that are the same, as far as the ARP service goes. -/
structure SameSwitch (s s' : SwitchState) : Prop where
  ip : s'.switchIpAddress = s.switchIpAddress
  port : ∀ port, SameTagging (portAt s'.ports port) (portAt s.ports port)

theorem SameSwitch.rfl {s : SwitchState} : SameSwitch s s :=
  ⟨Eq.refl _, fun _ => ⟨Eq.refl _, Eq.refl _, Eq.refl _⟩⟩

theorem SameTagging.isMemberOfVlan {p q : OpenflowVlanPort} (h : SameTagging p q) (vlan : UInt16) :
    p.isMemberOfVlan vlan = q.isMemberOfVlan vlan := by
  rw [OpenflowVlanPort.isMemberOfVlan, OpenflowVlanPort.isMemberOfVlan, h.member]

theorem SameTagging.leaves_iff {p q : OpenflowVlanPort} (h : SameTagging p q) {b : Bytes} :
    Leaves p b ↔ Leaves q b := by
  have hmember : p.isMemberOfVlan = q.isMemberOfVlan := funext h.isMemberOfVlan
  unfold Leaves TagFits
  rw [h.tagged, hmember]

theorem SameSwitch.disciplined_iff {s s' : SwitchState} (h : SameSwitch s s') {before after : PacketHal} :
    Disciplined s'.ports before after ↔ Disciplined s.ports before after := by
  unfold Disciplined
  simp only [(h.port _).valid, (h.port _).leaves_iff]

theorem SameSwitch.queryFits_iff {s s' : SwitchState} (h : SameSwitch s s') :
    QueryFits s'.ports vlan ↔ QueryFits s.ports vlan := by
  unfold QueryFits
  simp only [(h.port _).valid, (h.port _).tagged, (h.port _).isMemberOfVlan]

/-- Looking may make a port, which is then not valid, as one that is not there. -/
theorem sameTagging_maybeCreatePort (ports : PortMap) (n port : UInt16) :
    SameTagging (portAt (maybeCreatePort ports n) port) (portAt ports port) := by
  unfold maybeCreatePort
  split
  · exact ⟨rfl, rfl, rfl⟩
  · split
    · exact ⟨rfl, rfl, rfl⟩
    · rename_i hnew
      have hget : ∀ p : OpenflowVlanPort,
          portAt (ports.insert n p) port = if n = port then p else portAt ports port := by
        intro p
        rw [portAt, getElem?_insert]
        split
        · rfl
        · rfl
      rw [hget]
      split
      · rename_i heq
        subst heq
        have hnone : ports[n]? = none := by
          rw [ExtTreeMap.contains_eq_isSome_getElem?] at hnew
          exact Option.not_isSome_iff_eq_none.mp hnew
        rw [portAt, hnone]
        exact ⟨rfl, rfl, rfl⟩
      · exact ⟨rfl, rfl, rfl⟩

theorem sameSwitch_getSwitchPort (s : SwitchState) (n : UInt16) : SameSwitch s (s.getSwitchPort n).2 := by
  refine ⟨rfl, fun port => ?_⟩
  have hport : portAt (s.getSwitchPort n).2.ports port = portAt (maybeCreatePort s.ports n) port := by
    rw [getSwitchPort]
    dsimp only
    rw [portAt, getElem?_insert]
    split
    · rename_i heq
      rw [← heq]
      rfl
    · rfl
  rw [hport]
  exact sameTagging_maybeCreatePort s.ports n port

/-- The VLAN of a packet, if there is one, and a service that has only looked at a port. -/
theorem vlanFromPacket_cases (s : ArpService) (packet : PacketIn) (raw : RawPacket) :
    ∃ st, SameSwitch s.switchState st ∧
      (((getVlanFromPacket s.switchState packet raw).1 = -1 ∧
          s.vlanFromPacket packet raw = (-1, { s with switchState := st })) ∨
        ∃ vlan : UInt16, (getVlanFromPacket s.switchState packet raw).1 = vlan.toNat ∧
          s.vlanFromPacket packet raw = ((vlan.toNat : Int), { s with switchState := st })) := by
  have hcases : SameSwitch s.switchState (getVlanFromPacket s.switchState packet raw).2 ∧
      ((getVlanFromPacket s.switchState packet raw).1 = -1 ∨
        ∃ vlan : UInt16, (getVlanFromPacket s.switchState packet raw).1 = vlan.toNat) := by
    have hsame := sameSwitch_getSwitchPort s.switchState packet.inPort
    rcases hlook : s.switchState.getSwitchPort packet.inPort with ⟨⟨status, p⟩, st⟩
    rw [hlook] at hsame
    simp only [getVlanFromPacket, hlook]
    split
    · exact ⟨.rfl, .inr ⟨_, rfl⟩⟩
    · split
      · exact ⟨hsame, .inl rfl⟩
      · split
        · exact ⟨hsame, .inl rfl⟩
        · split
          · exact ⟨hsame, .inr ⟨_, rfl⟩⟩
          · exact ⟨hsame, .inl rfl⟩
  obtain ⟨hsame, hcases⟩ := hcases
  refine ⟨_, hsame, ?_⟩
  rcases hcases with hnone | ⟨vlan, hvlan⟩
  · exact .inl ⟨hnone, Prod.ext hnone rfl⟩
  · exact .inr ⟨vlan, hvlan, Prod.ext hvlan rfl⟩

/-! ## Queries -/

/-- A query is sent: the address is one to ask for, and the switch takes packets. -/
structure SendsQuery (s : ArpService) (dest : IpAddress) : Prop where
  initialized : s.initialized = true
  notBroadcast : dest.isBroadcast = false
  notNil : dest.isNil = false
  notOwn : dest ≠ s.switchState.switchIpAddress
  ready : s.controller.switchReady = true

/-- **A query** goes well exactly if it is not sent, or its VLAN fits into a tag. -/
theorem sendArpQuery_spec (junk : Nat → UInt8) (s : ArpService) (dest : IpAddress) (vlan : UInt16) :
    ∃ s', s.sendArpQuery junk dest vlan = .ok s' ∧
      (Disciplined s.switchState.ports s.controller s'.controller ↔
        (SendsQuery s dest → QueryFits s.switchState.ports vlan)) := by
  -- the four guards of `send_arp_query`, before anything is sent
  by_cases hasked : s.initialized = true ∧ dest.isBroadcast = false ∧ dest.isNil = false ∧
      dest ≠ s.switchState.switchIpAddress
  · obtain ⟨hinit, hbroadcast, hnil, hown⟩ := hasked
    obtain ⟨f, hquery, huntagged, hlen⟩ := serialize_query s dest
    obtain ⟨c', hflood, hiff⟩ := floodPacketOnVlan_spec junk s.controller s.switchState huntagged
      (by omega) (by omega) vlan
    refine ⟨{ s with controller := c', requestsMade := s.requestsMade + 1 }, ?_, hiff.trans ⟨?_, ?_⟩⟩
    · simp [ArpService.sendArpQuery, hinit, hbroadcast, hnil, hown, hquery, hflood]
    · intro h hsends
      exact h hsends.ready
    · intro h hready
      exact h ⟨hinit, hbroadcast, hnil, hown, hready⟩
  · refine ⟨s, ?_, iff_of_true (disciplined_self _ _) fun hsends => absurd ?_ hasked⟩
    · unfold ArpService.sendArpQuery
      split
      · rfl
      · split
        · rfl
        · split
          · rfl
          · rename_i hinit hbroadcast hnil
            rw [if_pos]
            by_contra hown
            exact hasked ⟨by simpa using hinit, by simpa using hbroadcast, by simpa using hnil, hown⟩
    · exact ⟨hsends.initialized, hsends.notBroadcast, hsends.notNil, hsends.notOwn⟩

theorem ofInt_toNat (vlan : UInt16) : UInt16.ofInt (vlan.toNat : Int) = vlan := by
  have hlt := vlan.toNat_lt
  have hmod : ((vlan.toNat : Int) % 2 ^ 16).toNat = vlan.toNat := by omega
  rw [UInt16.ofInt, hmod, UInt16.ofNat_toNat]

/-- The VLAN of a packet is found once. -/
theorem toNat_injective {vlan vlan' : UInt16} {found : Int} (h : found = vlan.toNat)
    (h' : found = vlan'.toNat) :
    vlan' = vlan := by
  rw [h] at h'
  exact (UInt16.toNat_inj.mp (Int.ofNat.inj h')).symm

theorem toNat_ne_neg_one (vlan : UInt16) : (vlan.toNat : Int) ≠ -1 := by omega

/-- A lookup does not depend on the switch, and changes nothing but the tables. -/
theorem lookupMacFor_eq (s : ArpService) (st : SwitchState) (now : Nat) (nwAddress : IpAddress)
    (vlan : UInt16) :
    ∃ tables, ({ s with switchState := st } : ArpService).lookupMacFor now nwAddress vlan =
      ((s.lookupMacFor now nwAddress vlan).1, { s with switchState := st, arpTables := tables }) := by
  unfold ArpService.lookupMacFor
  dsimp only
  split
  · exact ⟨_, rfl⟩
  · exact ⟨_, rfl⟩

/-- A packet that is not of ARP makes the service ask for an address. -/
structure Asks (s : ArpService) (now : Nat) (packet : PacketIn) (raw : RawPacket) (dest : IpAddress)
    (vlan : UInt16) : Prop where
  notArp : raw.packetType ≠ .arp
  found : IpPacket.destIpOf raw.packetType packet.pktData = .ok dest
  inVlan : (getVlanFromPacket s.switchState packet raw).1 = vlan.toNat
  unknown : (s.lookupMacFor now dest vlan).1.isNil = true

/-- A packet that is not of ARP, up to the query that it may come to. -/
theorem filterOther_cases (junk : Nat → UInt8) (s : ArpService) (now : Nat) (packet : PacketIn)
    {raw : RawPacket} (htype : raw.packetType ≠ .arp) :
    ((∀ r, s.filterOther junk now packet raw = some r → r.2.controller = s.controller) ∧
      ∀ dest vlan, Asks s now packet raw dest vlan → dest.isNil = true) ∨
    ∃ dest vlan s', Asks s now packet raw dest vlan ∧ s.filterOther junk now packet raw = some (false, s') ∧
      (Disciplined s.switchState.ports s.controller s'.controller ↔
        (SendsQuery s dest → QueryFits s.switchState.ports vlan)) := by
  -- the guards of `filterOther`, in their order: each either ends it or goes on to the next
  cases hdest : IpPacket.destIpOf raw.packetType packet.pktData with
  | error e =>
      refine .inl ⟨fun r hr => ?_, fun dest vlan hasks => ?_⟩
      · simp [ArpService.filterOther, hdest, Except.toOption] at hr
      · exact absurd (hdest.symm.trans hasks.found) (by simp)
  | ok dest =>
      by_cases hnil : dest.isNil = true
      · refine .inl ⟨fun r hr => ?_, fun dest' vlan hasks => ?_⟩
        · simp [ArpService.filterOther, hdest, Except.toOption, hnil] at hr
          rw [← hr]
        · rwa [Except.ok.inj (hasks.found.symm.trans hdest)]
      obtain ⟨st, hsame, hcases⟩ := vlanFromPacket_cases s packet raw
      rcases hcases with ⟨hnone, hlook⟩ | ⟨vlan, hvlan, hlook⟩
      · refine .inl ⟨fun r hr => ?_, fun dest' vlan hasks => ?_⟩
        · simp [ArpService.filterOther, hdest, Except.toOption, hnil, hlook] at hr
          rw [← hr]
        · exact absurd (hasks.inVlan.symm.trans hnone) (toNat_ne_neg_one vlan)
      · obtain ⟨tables, hlookup⟩ := lookupMacFor_eq s st now dest vlan
        by_cases hunknown : (s.lookupMacFor now dest vlan).1.isNil = true
        · obtain ⟨s', hsend, hiff⟩ :=
            sendArpQuery_spec junk { s with switchState := st, arpTables := tables } dest vlan
          refine .inr ⟨dest, vlan, s', ⟨htype, hdest, hvlan, hunknown⟩, ?_, ?_⟩
          · simp [ArpService.filterOther, hdest, Except.toOption, hnil, hlook, ofInt_toNat, hlookup,
              hunknown, hsend]
          · have hsends : SendsQuery { s with switchState := st, arpTables := tables } dest ↔
              SendsQuery s dest := by
              refine ⟨fun h => ?_, fun h => ?_⟩
              · exact ⟨h.initialized, h.notBroadcast, h.notNil, hsame.ip ▸ h.notOwn, h.ready⟩
              · exact ⟨h.initialized, h.notBroadcast, h.notNil, hsame.ip.symm ▸ h.notOwn, h.ready⟩
            rw [hsends, hsame.queryFits_iff, hsame.disciplined_iff] at hiff
            exact hiff
        · refine .inl ⟨fun r hr => ?_, fun dest' vlan' hasks => ?_⟩
          · simp [ArpService.filterOther, hdest, Except.toOption, hnil, hlook, ofInt_toNat, hlookup,
              hunknown] at hr
            rw [← hr]
          · obtain rfl := Except.ok.inj (hasks.found.symm.trans hdest)
            obtain rfl := toNat_injective hvlan hasks.inVlan
            exact absurd hasks.unknown hunknown

/-- **A packet that is not of ARP** goes well exactly if the query that it comes to does. -/
theorem filterOther_spec (junk : Nat → UInt8) (s : ArpService) (now : Nat) (packet : PacketIn)
    {raw : RawPacket} (htype : raw.packetType ≠ .arp) :
    (∀ r, s.filterOther junk now packet raw = some r →
      Disciplined s.switchState.ports s.controller r.2.controller) ↔
    ∀ dest vlan, Asks s now packet raw dest vlan → SendsQuery s dest →
      QueryFits s.switchState.ports vlan := by
  rcases filterOther_cases junk s now packet htype with ⟨hquiet, hnil⟩ | ⟨dest, vlan, s', hasks, hrun, hiff⟩
  · refine iff_of_true ?_ ?_
    · intro r hr
      rw [hquiet r hr]
      exact disciplined_self _ _
    · intro dest vlan hasks hsends
      exact absurd (hnil dest vlan hasks) (by rw [hsends.notNil]; exact Bool.false_ne_true)
  · refine ⟨?_, ?_⟩
    · intro h dest' vlan' hasks'
      obtain rfl := Except.ok.inj (hasks.found.symm.trans hasks'.found)
      obtain rfl := toNat_injective hasks'.inVlan hasks.inVlan
      exact hiff.mp (h _ hrun)
    · intro h r hr
      obtain rfl := Option.some.inj (hrun.symm.trans hr)
      exact hiff.mpr (h dest vlan hasks)

/-! ## Responses -/

theorem insert_frame {s s' : ArpService} {dl : MacAddress} {nw : IpAddress}
    (h : s.insert fuel now dl nw vlan = some s') : ∃ tables, s' = { s with arpTables := tables } := by
  unfold ArpService.insert at h
  split at h
  · exact ⟨_, (Option.some.inj h).symm⟩
  · obtain ⟨result, _, rfl⟩ := Option.map_eq_some_iff.mp h
    exact ⟨_, rfl⟩

/-- Whether the search for a free slot ends is a matter of the tables alone. -/
theorem isSome_insert (s : ArpService) (st : SwitchState) (fuel now : Nat) (dl : MacAddress) (nw : IpAddress)
    (vlan : UInt16) : (({ s with switchState := st } : ArpService).insert fuel now dl nw vlan).isSome =
      (s.insert fuel now dl nw vlan).isSome := by
  unfold ArpService.insert
  dsimp only
  split
  · rfl
  · rw [Option.isSome_map, Option.isSome_map]

theorem controller_snoop {arpPkt : ArpPacket} {r : Bool × ArpService}
    (h : s.snoop fuel now packet raw arpPkt = some r) : r.2.controller = s.controller := by
  unfold ArpService.snoop at h
  obtain ⟨st, _, hcases⟩ := vlanFromPacket_cases s packet raw
  rcases hcases with ⟨_, hlook⟩ | ⟨vlan, _, hlook⟩
  · rw [hlook] at h
    obtain rfl := Option.some.inj h
    rfl
  · rw [hlook] at h
    dsimp only at h
    split at h
    · obtain rfl := Option.some.inj h
      rfl
    · obtain ⟨s', hinsert, hr⟩ := Option.bind_eq_some_iff.mp h
      obtain ⟨tables, rfl⟩ := insert_frame hinsert
      obtain rfl := Option.some.inj hr
      rfl

theorem controller_handleReply {arpPkt : ArpPacket} {r : Bool × ArpService}
    (h : s.handleReply fuel now packet raw arpPkt = some r) : r.2.controller = s.controller := by
  unfold ArpService.handleReply at h
  obtain ⟨st, _, hcases⟩ := vlanFromPacket_cases s packet raw
  rcases hcases with ⟨_, hlook⟩ | ⟨vlan, _, hlook⟩
  · rw [hlook] at h
    obtain rfl := Option.some.inj h
    rfl
  · rw [hlook] at h
    dsimp only at h
    rw [if_neg (toNat_ne_neg_one vlan)] at h
    obtain ⟨s', hinsert, hr⟩ := Option.bind_eq_some_iff.mp h
    obtain ⟨tables, rfl⟩ := insert_frame hinsert
    obtain rfl := Option.some.inj hr
    rfl

/-- A tagged frame is right for the port that a request came from. -/
def ResponseFits (port : OpenflowVlanPort) (vlan : UInt16) : Prop :=
  port.valid = true → port.tagged = true ∧ port.isMemberOfVlan (Frame.vlanOf vlan) = true

/-- A request gets a response, in a VLAN. -/
structure Responds (s : ArpService) (fuel now : Nat) (packet : PacketIn) (raw : RawPacket)
    (arpPkt : ArpPacket) (vlan : UInt16) : Prop where
  inVlan : (getVlanFromPacket s.switchState packet raw).1 = vlan.toNat
  learned : (s.insert fuel now arpPkt.srcMac arpPkt.srcIp vlan).isSome = true
  ready : s.controller.switchReady = true

/--
**A request** goes well exactly if it gets no response, or the port it came from is tagged
and in its VLAN.
-/
theorem handleRequest_spec (s : ArpService) (fuel now : Nat) (packet : PacketIn) (raw : RawPacket)
    (arpPkt : ArpPacket) :
    (∀ r, s.handleRequest fuel now packet raw arpPkt = some r →
      Disciplined s.switchState.ports s.controller r.2.controller) ↔
    ∀ vlan, Responds s fuel now packet raw arpPkt vlan →
      ResponseFits (portAt s.switchState.ports packet.inPort) vlan := by
  obtain ⟨st, hsame, hcases⟩ := vlanFromPacket_cases s packet raw
  -- without a VLAN, or a slot for the sender, there is no response
  rcases hcases with ⟨hnone, hlook⟩ | ⟨vlan, hvlan, hlook⟩
  · refine iff_of_true ?_ ?_
    · intro r hr
      rw [ArpService.handleRequest, hlook] at hr
      obtain rfl := Option.some.inj hr
      exact disciplined_self _ _
    · intro vlan hresponds
      exact absurd (hresponds.inVlan.symm.trans hnone) (toNat_ne_neg_one vlan)
  have hsome := isSome_insert s st fuel now arpPkt.srcMac arpPkt.srcIp vlan
  cases hinsert : ({ s with switchState := st } : ArpService).insert fuel now arpPkt.srcMac arpPkt.srcIp vlan with
  | none =>
      refine iff_of_true ?_ ?_
      · intro r hr
        simp [ArpService.handleRequest, hlook, ofInt_toNat, hinsert] at hr
      · intro vlan' hresponds
        have hlearned := hresponds.learned
        rw [toNat_injective hvlan hresponds.inVlan, ← hsome, hinsert] at hlearned
        exact absurd hlearned Bool.false_ne_true
  | some s' =>
      obtain ⟨tables, rfl⟩ := insert_frame hinsert
      obtain ⟨f, hresponse, htag⟩ :=
        serialize_response { s with switchState := st, arpTables := tables } arpPkt vlan
      have hrun : ∃ r, s.handleRequest fuel now packet raw arpPkt = some r ∧
          r.2.controller = (s.controller.sendPacket f.bytes (ExtTreeSet.ofList [packet.inPort])).1 := by
        refine ⟨(true, { s with
          arpTables := tables
          switchState := st
          controller := (s.controller.sendPacket f.bytes (ExtTreeSet.ofList [packet.inPort])).1
          requestsServiced := s.requestsServiced + 1
          accelerated := s.accelerated ++ [(arpPkt.srcMac, vlan, packet.inPort)] }), ?_, rfl⟩
        simp [ArpService.handleRequest, hlook, ofInt_toNat, hinsert, hresponse, Except.toOption]
      obtain ⟨r, hrun, hcontroller⟩ := hrun
      have hiff : Disciplined s.switchState.ports s.controller r.2.controller ↔
        (s.controller.switchReady = true →
          ResponseFits (portAt s.switchState.ports packet.inPort) vlan) := by
        rw [hcontroller, sendPacket_tagged htag, Frame.vlanOf_vlanOf]
        rfl
      refine ⟨?_, ?_⟩
      · intro h vlan' hresponds
        rw [toNat_injective hvlan hresponds.inVlan]
        exact hiff.mp (h r hrun) hresponds.ready
      · intro h r' hr'
        obtain rfl := Option.some.inj (hrun.symm.trans hr')
        refine hiff.mpr fun hready => h vlan ⟨hvlan, ?_, hready⟩
        rw [← hsome, hinsert]
        rfl

/-! ## All that the service does -/

/-- A packet is a request for the controller, and not one of its own. -/
structure ForController (s : ArpService) (packet : PacketIn) (raw : RawPacket)
    (arpPkt : ArpPacket) : Prop where
  initialized : s.initialized = true
  arp : raw.packetType = .arp
  parsed : ArpPacket.deserialize packet.pktData = .ok (some arpPkt)
  notNil : arpPkt.destIp.isNil = false
  notLooped : s.isLooped arpPkt = false
  own : arpPkt.destIp = s.switchState.switchIpAddress
  request : arpPkt.arpRequest = true

theorem filterPacket_request {arpPkt : ArpPacket} (h : ForController s packet raw arpPkt) :
    s.filterPacket junk fuel now packet raw = s.handleRequest fuel now packet raw arpPkt := by
  have hnil := h.notNil
  rw [h.own] at hnil
  simp [ArpService.filterPacket, h.initialized, h.arp, h.parsed, hnil, h.notLooped, h.own, h.request,
    Except.toOption]

theorem toOption_eq_some {α : Type} {x : Read α} {a : α} (h : x.toOption = some a) : x = .ok a := by
  cases x with
  | error e => exact absurd h.symm (Option.some_ne_none a)
  | ok a' => exact congrArg Except.ok (Option.some.inj h)

/-- Nothing is sent for any other ARP packet. -/
theorem controller_filterPacket (harp : raw.packetType = .arp)
    (hother : ∀ arpPkt, ¬ ForController s packet raw arpPkt) {r : Bool × ArpService}
    (h : s.filterPacket junk fuel now packet raw = some r) : r.2.controller = s.controller := by
  unfold ArpService.filterPacket at h
  split at h
  · obtain rfl := Option.some.inj h
    rfl
  · rename_i hinit
    rw [if_neg (not_not_intro harp)] at h
    obtain ⟨parsed, hparsed, h⟩ := Option.bind_eq_some_iff.mp h
    cases parsed with
    | none =>
        obtain rfl := Option.some.inj h
        rfl
    | some arpPkt =>
        dsimp only at h
        split at h
        · obtain rfl := Option.some.inj h
          rfl
        · rename_i hnil
          split at h
          · obtain rfl := Option.some.inj h
            rfl
          · rename_i hloop
            split at h
            · exact controller_snoop h
            · rename_i hown
              split at h
              · exact controller_handleReply h
              · rename_i hreply
                refine absurd ⟨by simpa using hinit, harp, toOption_eq_some hparsed, by simpa using hnil,
                  by simpa using hloop, not_not.mp hown, by simpa using hreply⟩ (hother arpPkt)

/-- What the filter returns besides the service does not matter. -/
theorem step_packet_iff {P : ArpService → Prop} :
    (∀ s', s.step junk (.packet fuel now packet raw) = some s' → P s') ↔
      ∀ r, s.filterPacket junk fuel now packet raw = some r → P r.2 := by
  refine ⟨fun h r hr => h r.2 ?_, fun h s' hs' => ?_⟩
  · rw [ArpService.step, hr]
    rfl
  · obtain ⟨r, hr, rfl⟩ := Option.map_eq_some_iff.mp hs'
    exact h r hr

/-- The condition for what is sent to have the right tags. -/
def TagsFit (s : ArpService) : ArpServiceInput → Prop
  | .query dest vlan => SendsQuery s dest → QueryFits s.switchState.ports vlan
  | .packet fuel now packet raw =>
      (∀ dest vlan, Asks s now packet raw dest vlan → SendsQuery s dest →
        QueryFits s.switchState.ports vlan) ∧
        ∀ arpPkt vlan, ForController s packet raw arpPkt → Responds s fuel now packet raw arpPkt vlan →
          ResponseFits (portAt s.switchState.ports packet.inPort) vlan

/--
**The tags of what the ARP service sends.** Whatever it is asked for, and whatever
comes in: each frame has the right tag on each valid port that it is sent to, exactly
if a query that is sent has a VLAN that fits into a tag, and a response that is sent goes
to a port, if it is valid, that is tagged and in the VLAN.
-/
theorem egress_iff (junk : Nat → UInt8) (s : ArpService) (i : ArpServiceInput) :
    (∀ s', s.step junk i = some s' → Disciplined s.switchState.ports s.controller s'.controller) ↔
      TagsFit s i := by
  cases i with
  | query dest vlan =>
      obtain ⟨s', hsend, hiff⟩ := sendArpQuery_spec junk s dest vlan
      have hstep : s.step junk (.query dest vlan) = some s' := by
        rw [ArpService.step, hsend]
        rfl
      rw [hstep]
      refine ⟨fun h => hiff.mp (h s' rfl), ?_⟩
      intro h s'' hs''
      obtain rfl := Option.some.inj hs''
      exact hiff.mpr h
  | packet fuel now packet raw =>
      rw [step_packet_iff]
      -- a packet of ARP can only be answered, and another only make the service ask
      by_cases harp : raw.packetType = .arp
      · have hnoquery : ∀ dest vlan, Asks s now packet raw dest vlan → SendsQuery s dest →
            QueryFits s.switchState.ports vlan := by
          intro dest vlan hasks
          exact absurd harp hasks.notArp
        by_cases hus : ∃ arpPkt, ForController s packet raw arpPkt
        · obtain ⟨arpPkt, hus⟩ := hus
          rw [filterPacket_request hus, handleRequest_spec]
          refine ⟨fun h => ⟨hnoquery, fun arpPkt' vlan hus' => ?_⟩, fun h vlan => h.2 arpPkt vlan hus⟩
          obtain rfl := Option.some.inj (Except.ok.inj (hus.parsed.symm.trans hus'.parsed))
          exact h vlan
        · refine iff_of_true ?_ ⟨hnoquery, fun arpPkt vlan hus' => absurd ⟨arpPkt, hus'⟩ hus⟩
          intro r hr
          rw [controller_filterPacket harp (fun arpPkt hus' => hus ⟨arpPkt, hus'⟩) hr]
          exact disciplined_self _ _
      · have hnoresponse : ∀ arpPkt vlan, ForController s packet raw arpPkt →
            Responds s fuel now packet raw arpPkt vlan →
            ResponseFits (portAt s.switchState.ports packet.inPort) vlan := by
          intro arpPkt vlan hus
          exact absurd hus.arp harp
        by_cases hinit : s.initialized = true
        · have hrun : s.filterPacket junk fuel now packet raw = s.filterOther junk now packet raw := by
            rw [ArpService.filterPacket, if_neg (by rw [hinit]; decide), if_pos harp]
          rw [hrun, filterOther_spec junk s now packet harp]
          exact (and_iff_left hnoresponse).symm
        · refine iff_of_true ?_ ⟨fun dest vlan _ hsends => absurd hsends.initialized hinit, hnoresponse⟩
          intro r hr
          rw [ArpService.filterPacket, if_pos (by simpa using hinit)] at hr
          obtain rfl := Option.some.inj hr
          exact disciplined_self _ _

/-- A controller at 10.0.0.1, on a switch with VLAN 5. -/
def probedService : ArpService where
  initialized := true
  switchState := { threePorts with switchIpAddress := .ofOctets 10 0 0 1 }
  controller := { switchReady := true }

/-- A request for the controller, from a host on the first port, which is untagged. -/
def untaggedProbe : PacketIn where
  inPort := 1
  pktData := (arpFrame {
    srcMac := .ofOctets 2 0 0 0 0 1
    destMac := MacAddress.broadcast
    senderMac := .ofOctets 2 0 0 0 0 1
    srcIp := .ofOctets 10 0 0 2
    destIp := .ofOctets 10 0 0 1 }).bytes
  size_lt := by decide

/-- What the parser makes of it. -/
def probeHeader : RawPacket where
  packetType := .arp
  ethertype := 0x0806
  srcMac := .ofOctets 2 0 0 0 0 1
  destMac := MacAddress.broadcast

theorem forController_probe : ForController probedService untaggedProbe probeHeader {
    toRawPacket := probeHeader
    senderMac := .ofOctets 2 0 0 0 0 1
    srcIp := .ofOctets 10 0 0 2
    destIp := .ofOctets 10 0 0 1 } :=
  ⟨rfl, rfl, rfl, rfl, rfl, rfl, rfl⟩

/-- Without a tag, the request is answered with one. -/
theorem untaggedProbe_answered_tagged :
    ({} : RawPacket).deserialize untaggedProbe.pktData = .ok (true, probeHeader) ∧
    ¬ ∀ s', probedService.step (fun _ => 0) (.packet 0 0 untaggedProbe probeHeader) = some s' →
      Disciplined probedService.switchState.ports probedService.controller s'.controller := by
  refine ⟨rfl, fun h => ?_⟩
  rw [step_packet_iff, filterPacket_request forController_probe, handleRequest_spec] at h
  have hfits := h 5 ⟨rfl, rfl, rfl⟩ rfl
  exact Bool.false_ne_true hfits.1

end Service

end IronStack.Proof
