import IronStack.Proof.Advertisement
import IronStack.Proof.Discovery
import IronStack.Proof.Versions
import IronStack.Topology.Network

/-!
# What a switch says of itself

A step of the service either leaves what the switch says of itself as it was, or sends
a new version of it. Whatever else is sent is a packet that came in, passed on.
-/

namespace IronStack.Proof

open IronStack Lib Std DiscoveryService LiveTopology

/-- Something that a switch has said of itself: the version of the broadcast, and the node that was sent. -/
structure Announcement where
  version : Nat
  node : TopologyNode

/-- A packet of the service that holds an announcement of the switch with an address. -/
def Conveys (pkt : UdpPacket) (macAddr : MacAddress) (a : Announcement) : Prop :=
  isDiscovery pkt ∧ ∃ p : DiscoveryPacket, pkt.udpPayload = .ofBytes p.serialize ∧ p.name = "" ∧
    p.srcMac = macAddr ∧ (broadcastOf p).version = a.version ∧ p.data = a.node.serialize

/-- One packet, for each of some ports. -/
def copiesTo (ports : List OpenflowPort) (pkt : UdpPacket) : List (UInt16 × UdpPacket) :=
  (ports.filter (·.portNumber ≤ 0xff00)).map fun p => (p.portNumber, pkt)

/-- The number of the next broadcast. -/
def newSeqNum (s : DiscoveryService) (now : Nat) : UInt8 :=
  if msSinceEpoch now ≠ s.lastTimestamp then 0 else s.nextSeqNum

/-- The version of the next broadcast. -/
def newVersion (s : DiscoveryService) (now : Nat) : Nat := versionNumber (msSinceEpoch now) (newSeqNum s now)

/-- What the clock shows when a step sends an update: for the update itself, and for its broadcast. -/
def sendingTimes : DiscoveryInput → Option (Nat × Nat)
  | .receive t _ _ => some (t.updated, t.stamped)
  | .portModified _ updated stamped _ => some (updated, stamped)
  | .heartbeat _ updated stamped => some (updated, stamped)
  | .clean _ => none
  | .sweep _ => none

theorem SameAdvertisement.refl (n : TopologyNode) : SameAdvertisement n n :=
  ⟨rfl, rfl, rfl, rfl, rfl, rfl, fun _ => rfl⟩

theorem SameAdvertisement.trans {l m n : TopologyNode} (h : SameAdvertisement l m) (h' : SameAdvertisement m n) :
    SameAdvertisement l n where
  name := h.name.trans h'.name
  lastRefresh := h.lastRefresh.trans h'.lastRefresh
  seqNum := h.seqNum.trans h'.seqNum
  macAddr := h.macAddr.trans h'.macAddr
  ipAddr := h.ipAddr.trans h'.ipAddr
  ports := h.ports.trans h'.ports
  links := fun portNum => (h.links portNum).trans (h'.links portNum)

theorem SameAdvertisement.symm {m n : TopologyNode} (h : SameAdvertisement m n) : SameAdvertisement n m where
  name := h.name.symm
  lastRefresh := h.lastRefresh.symm
  seqNum := h.seqNum.symm
  macAddr := h.macAddr.symm
  ipAddr := h.ipAddr.symm
  ports := h.ports.symm
  links := fun portNum => (h.links portNum).symm

/-! ## The topology -/

/-- What becomes of the local node: nothing to tell, or an update that is given to `broadcast_data`. -/
def Tells (g g' : LiveTopology) (updated : Nat) (data : Option Bytes) : Prop :=
  g'.me.macAddr = g.me.macAddr ∧
    ((data = none ∧ SameAdvertisement g'.me g.me) ∨
      data = some g'.me.serialize ∧
        versionOf g'.me = (versionOf g.me).next 256 (msSinceEpoch updated).toNat)

theorem tells_sendUpdate {g g₁ : LiveTopology} (updated : Nat) (hversion : versionOf g₁.me = versionOf g.me)
    (hmac : g₁.me.macAddr = g.me.macAddr) :
    Tells g (g₁.sendUpdate updated).1 updated (some (g₁.sendUpdate updated).2) := by
  refine ⟨?_, .inr ⟨rfl, ?_⟩⟩
  · rw [← hmac, sendUpdate]
    dsimp only
    split
    · rfl
    · rfl
  · rw [versionOf_sendUpdate, hversion]

/-- The memory of a port that has not changed is what it was. -/
theorem update_unchanged {s : PortState} {p : OpenflowPort} (h : (s.update p).2 = false) :
    (s.update p).1 = s ∧ s.portNum = p.portNumber := by
  unfold PortState.update at h ⊢
  split at h
  · cases h
  · rename_i hsame
    rw [if_neg hsame]
    exact ⟨rfl, by_contra fun hne => hsame (.inl hne)⟩

theorem tells_updateLocalPort (g : LiveTopology) (updated : Nat) {p : OpenflowPort} (hp : p.portNumber ≠ 0xffff) :
    Tells g (g.updateLocalPort updated p).1 updated (g.updateLocalPort updated p).2 := by
  unfold updateLocalPort
  dsimp only
  split
  · exact tells_sendUpdate updated rfl rfl
  · rename_i hsame
    refine ⟨rfl, .inl ⟨rfl, rfl, rfl, rfl, rfl, rfl, ?_, fun _ => rfl⟩⟩
    obtain ⟨hstate, hnum⟩ := update_unchanged (Bool.eq_false_iff.mpr hsame)
    refine ExtTreeMap.ext_getElem? fun portNum => ?_
    dsimp only
    rw [hstate, getElem?_insert]
    split
    · rename_i hkey
      subst hkey
      -- a port that is not in the map has the number of none
      cases hport : g.me.ports[p.portNumber]? with
      | none =>
          rw [hport] at hnum
          exact absurd hnum.symm hp
      | some state => rfl
    · rfl

/-- A neighbour is entered in the links, and told of if it was not there. -/
theorem tells_updateNeighbor {g g' : LiveTopology} {now refreshed updated : Nat} {phyPort : UInt16}
    {neighborMac : MacAddress} {data : Autobuf} {update : Option Bytes}
    (h : g.updateNeighbor now refreshed updated phyPort neighborMac data = .ok (g', update)) :
    Tells g g' updated update ∧ ∃ g₁ : LiveTopology, g₁.otherNodes = g.otherNodes ∧
      ∃ g₂, g₁.updateTopology refreshed neighborMac data = .ok g₂ ∧ g'.otherNodes = g₂.otherNodes := by
  obtain ⟨g₂, hg₂, h⟩ := bind_eq_ok.mp h
  obtain ⟨_, _, _, hme, _⟩ := updateTopology_cases hg₂
  refine ⟨?_, { g with me := { g.me with links := g.me.links.insert phyPort (neighborMac, msSinceEpoch now) } },
    rfl, g₂, hg₂, ?_⟩
  · dsimp only at h
    split at h
    · obtain ⟨rfl, rfl⟩ := Prod.mk.inj (Except.ok.inj h)
      exact tells_sendUpdate updated (by rw [hme]; rfl) (by rw [hme])
    · rename_i hknown
      obtain ⟨rfl, rfl⟩ := Prod.mk.inj (Except.ok.inj h)
      rw [Tells, hme]
      refine ⟨rfl, .inl ⟨rfl, rfl, rfl, rfl, rfl, rfl, rfl, fun portNum => ?_⟩⟩
      -- the neighbour at the port is the one that was there
      dsimp only
      rw [getElem?_insert]
      split
      · rename_i hport
        subst hport
        cases hlink : g.me.links[phyPort]? with
        | none =>
            rw [hlink] at hknown
            exact absurd rfl hknown
        | some link =>
            rw [hlink] at hknown
            have hmac : link.1 = neighborMac := by simpa using hknown
            rw [Option.map_some, Option.map_some, hmac]
      · rfl
  · dsimp only at h
    split at h
    · rw [← (Prod.mk.inj (Except.ok.inj h)).1]
      rfl
    · rw [← (Prod.mk.inj (Except.ok.inj h)).1]

/-! ## The service -/

/-- What a step of the service says, besides what it passes on. -/
structure Speaks (s s' : DiscoveryService) (input : DiscoveryInput) (forwarded : List (UInt16 × UdpPacket)) :
    Prop where
  switchMac : s'.switchMac = s.switchMac
  macAddr : s'.topology.me.macAddr = s.topology.me.macAddr
  said : (SameAdvertisement s'.topology.me s.topology.me ∧ s'.sent = s.sent ++ forwarded ∧
      s'.lastTimestamp = s.lastTimestamp ∧ s'.nextSeqNum = s.nextSeqNum) ∨
    ∃ updated stamped pkt, sendingTimes input = some (updated, stamped) ∧
      versionOf s'.topology.me = (versionOf s.topology.me).next 256 (msSinceEpoch updated).toNat ∧
      s'.sent = s.sent ++ forwarded ++ copiesTo s'.switchPorts pkt ∧
      Conveys pkt s.switchMac ⟨newVersion s stamped, s'.topology.me⟩ ∧
      s'.lastTimestamp = msSinceEpoch stamped ∧ s'.nextSeqNum = newSeqNum s stamped + 1

/-- The discovery packet in which a buffer is broadcast. -/
def ownDiscoveryPacket (s : DiscoveryService) (now : Nat) (data : Bytes) : DiscoveryPacket where
  srcMac := s.switchMac
  srcIp := s.switchIp
  timestamp := msSinceEpoch now
  seqNum := newSeqNum s now
  data := data

/-- The packet that carries it. -/
def ownPacket (s : DiscoveryService) (now : Nat) (data : Bytes) : UdpPacket where
  srcPort := neighborUpdatePort
  destPort := neighborUpdatePort
  udpPayload := .ofBytes (ownDiscoveryPacket s now data).serialize

theorem broadcastData_eq (s : DiscoveryService) (now : Nat) (data : Bytes) :
    s.broadcastData now data = { s with
      lastTimestamp := msSinceEpoch now
      nextSeqNum := newSeqNum s now + 1
      sent := s.sent ++ copiesTo s.switchPorts (ownPacket s now data) } := by
  unfold broadcastData ownPacket ownDiscoveryPacket newSeqNum sendTo copiesTo
  dsimp only
  by_cases htime : msSinceEpoch now ≠ s.lastTimestamp
  · simp only [if_pos htime]
  · simp only [if_neg htime]
    rw [not_not.mp htime]

theorem conveys_ownPacket (s : DiscoveryService) (now : Nat) (n : TopologyNode) :
    Conveys (ownPacket s now n.serialize) s.switchMac ⟨newVersion s now, n⟩ :=
  ⟨rfl, ownDiscoveryPacket s now n.serialize, rfl, rfl, rfl, rfl, rfl⟩

/-- What the topology tells goes out with the next version. -/
theorem speaks_withTopology {s : DiscoveryService} (s₁ : DiscoveryService) (input : DiscoveryInput)
    {forwarded : List (UInt16 × UdpPacket)} {g : LiveTopology} {updated stamped : Nat} {data : Option Bytes}
    (hmac : s₁.switchMac = s.switchMac) (hlast : s₁.lastTimestamp = s.lastTimestamp)
    (hnext : s₁.nextSeqNum = s.nextSeqNum) (hsent : s₁.sent = s.sent ++ forwarded)
    (htells : Tells s.topology g updated data) (htimes : sendingTimes input = some (updated, stamped)) :
    Speaks s (s₁.withTopology g stamped data) input forwarded := by
  obtain ⟨haddr, ⟨rfl, hsame⟩ | ⟨rfl, hversion⟩⟩ := htells
  · exact ⟨hmac, haddr, .inl ⟨hsame, hsent, hlast, hnext⟩⟩
  · have hseq : newSeqNum s₁ stamped = newSeqNum s stamped := by
      unfold newSeqNum
      rw [hlast, hnext]
    have hcarries := conveys_ownPacket { s₁ with topology := g } stamped g.me
    have hnew : newVersion ({ s₁ with topology := g } : DiscoveryService) stamped = newVersion s stamped :=
      congrArg (versionNumber (msSinceEpoch stamped)) hseq
    rw [hnew] at hcarries
    rw [withTopology, broadcastData_eq]
    refine ⟨hmac, haddr, .inr ⟨updated, stamped, ownPacket { s₁ with topology := g } stamped g.me.serialize,
      htimes, hversion, ?_, ?_, rfl, ?_⟩⟩
    · rw [← hsent]
    · rw [← hmac]
      exact hcarries
    · exact congrArg (· + 1) hseq

/-- A step other than a reception passes nothing on. -/
theorem speaks_act {s s' : DiscoveryService} {input : DiscoveryInput} (hstep : s.step input = some s')
    (hact : ∀ t behind pkt, input ≠ .receive t behind pkt) : Speaks s s' input [] := by
  have hunchanged : ∀ s'' : DiscoveryService, s''.switchMac = s.switchMac → s''.topology.me = s.topology.me →
      s''.sent = s.sent → s''.lastTimestamp = s.lastTimestamp → s''.nextSeqNum = s.nextSeqNum →
      Speaks s s'' input [] := by
    intro s'' hmac hme hsent hlast hnext
    refine ⟨hmac, congrArg (·.macAddr) hme, .inl ⟨hme ▸ .refl _, ?_, hlast, hnext⟩⟩
    rw [hsent, List.append_nil]
  have hnil : s.sent = s.sent ++ [] := (List.append_nil _).symm
  cases input with
  | receive t behind pkt => exact absurd rfl (hact t behind pkt)
  | clean now =>
      obtain rfl := Option.some.inj hstep
      exact hunchanged _ rfl rfl rfl rfl rfl
  | portModified switchPorts updated stamped phyPort =>
      rw [← Option.some.inj hstep, discoveryPortHandler]
      split
      · exact hunchanged _ rfl rfl rfl rfl rfl
      · rename_i hphysical
        split
        · exact hunchanged _ rfl rfl rfl rfl rfl
        · rename_i p hfind
          -- only physical ports are reported
          have hnum : p.portNumber = phyPort := by simpa using List.find?_some hfind
          have hp : p.portNumber ≠ 0xffff := by
            rintro heq
            rw [← hnum, heq] at hphysical
            exact hphysical (by decide)
          have htells : Tells s.topology (s.topology.updateLocalPort updated p).1 updated
              (s.topology.updateLocalPort updated p).2 := tells_updateLocalPort s.topology updated hp
          exact speaks_withTopology { s with switchPorts := switchPorts }
            (.portModified switchPorts updated stamped phyPort) rfl rfl rfl hnil htells rfl
  | heartbeat now updated stamped =>
      rw [← Option.some.inj hstep]
      have htells : Tells s.topology (s.topology.heartbeat now updated).1 updated
          (some (s.topology.heartbeat now updated).2) := tells_sendUpdate updated rfl rfl
      exact speaks_withTopology s (.heartbeat now updated stamped) rfl rfl rfl hnil htells rfl
  | sweep now =>
      obtain rfl := Option.some.inj hstep
      exact hunchanged _ rfl rfl rfl rfl rfl

/-- The ports of the switch change only as they are reported. -/
def newPorts (s : DiscoveryService) : DiscoveryInput → List OpenflowPort
  | .portModified switchPorts _ _ _ => switchPorts
  | _ => s.switchPorts

theorem switchPorts_withTopology (s : DiscoveryService) (g : LiveTopology) (now : Nat) (data : Option Bytes) :
    (s.withTopology g now data).switchPorts = s.switchPorts := by
  cases data with
  | none => rfl
  | some data =>
      rw [withTopology, broadcastData_eq]

theorem topology_withTopology (s : DiscoveryService) (g : LiveTopology) (now : Nat) (data : Option Bytes) :
    (s.withTopology g now data).topology = g := by
  cases data with
  | none => rfl
  | some data => rw [withTopology, broadcastData_eq]

/-! ## Receptions -/

/-- A copy of a packet, with the port that it is passed on under. -/
def relayed (pkt : UdpPacket) : UdpPacket :=
  if pkt.destPort = neighborUpdatePort then
    { srcPort := topologyUpdatePort
      destPort := topologyUpdatePort
      inPort := pkt.inPort
      udpPayload := pkt.udpPayload }
  else pkt

theorem Conveys.relayed {pkt : UdpPacket} {m : MacAddress} {a : Announcement} (h : Conveys pkt m a) :
    Conveys (relayed pkt) m a := by
  unfold Proof.relayed
  split
  · exact ⟨rfl, h.2⟩
  · exact h

theorem Conveys.withPort {pkt : UdpPacket} {m : MacAddress} {a : Announcement} (h : Conveys pkt m a)
    (port : UInt16) : Conveys { pkt with inPort := port } m a := h

/-- What is read from a packet that carries an announcement. -/
theorem Conveys.received {pkt : UdpPacket} {m : MacAddress} {a : Announcement} (h : Conveys pkt m a) :
    ∃ p : DiscoveryPacket, DiscoveryPacket.deserialize pkt.udpPayload = .ok (some p) ∧ p.srcMac = m ∧
      (broadcastOf p).version = a.version ∧ p.data = a.node.serialize := by
  obtain ⟨_, p, hpayload, hname, hmac, hversion, hdata⟩ := h
  refine ⟨p, ?_, hmac, hversion, hdata⟩
  have hread := deserialize_serialize_packet p []
  rw [List.append_nil, hname, show cutName "" = "" from rfl] at hread
  rw [hpayload]
  refine hread.trans ?_
  rw [← hname]

/-- What an announcement that is taken up makes of the other nodes. -/
def Learns (g g' : LiveTopology) (m : MacAddress) (n : TopologyNode) : Prop :=
  (IsLater g m (received n) ∧
      ∃ now, g'.otherNodes = g.otherNodes.insert m (merged g.otherNodes[m]? (received n) now)) ∨
    ¬ IsLater g m (received n) ∧ g'.otherNodes = g.otherNodes

theorem learns_updateTopology {g₁ g₂ : LiveTopology} {refreshed : Nat} {m : MacAddress} {n : TopologyNode}
    {behind : Bytes} (h : g₁.updateTopology refreshed m ⟨n.serialize ++ behind, n.serialize.length⟩ = .ok g₂) :
    g₂.me = g₁.me ∧ Learns g₁ g₂ m n := by
  obtain ⟨ok, node, hread, hme, hcases⟩ := updateTopology_cases h
  rw [deserialize_serialize_append] at hread
  obtain ⟨_, rfl⟩ := Prod.mk.inj (Except.ok.inj hread)
  refine ⟨hme, ?_⟩
  rcases hcases with ⟨hlater, heq⟩ | h
  · exact .inl ⟨hlater, refreshed, heq⟩
  · exact .inr h

theorem firstTimeSeen_else (s : DiscoveryService) (p : DiscoveryPacket) :
    ∃ seen, (s.firstTimeSeen p).1 = { s with broadcastsSeen := seen } := by
  unfold firstTimeSeen
  split
  · exact ⟨_, rfl⟩
  · split
    · split
      · exact ⟨_, rfl⟩
      · split
        · exact ⟨_, rfl⟩
        · exact ⟨_, rfl⟩
    · exact ⟨_, rfl⟩

/--
**A reception**: what is new passes to the ports but the one it came by, and an
announcement that is new, or comes from a neighbour, is taken up.
-/
theorem receive_cases {s s' : DiscoveryService} {t : ClockReadings} {behind : Bytes} {pkt : UdpPacket}
    {m : MacAddress} {a : Announcement} (hcarries : Conveys pkt m a)
    (hstep : s.step (.receive t behind pkt) = some s') :
    ∃ p, receivedPacket (.receive t behind pkt) = some p ∧ p.srcMac = m ∧ (broadcastOf p).version = a.version ∧
      SameSeen (s.firstTimeSeen p).1 s' ∧ s'.switchPorts = s.switchPorts ∧
      Speaks s s' (.receive t behind pkt) (if (s.firstTimeSeen p).2 then
        copiesTo (s.switchPorts.filter (·.portNumber ≠ pkt.inPort)) (relayed pkt) else []) ∧
      (((s.firstTimeSeen p).2 = true ∨ pkt.destPort = neighborUpdatePort) ∧
          Learns s.topology s'.topology m a.node ∨
        (s.firstTimeSeen p).2 = false ∧ pkt.destPort ≠ neighborUpdatePort ∧
          s'.topology.otherNodes = s.topology.otherNodes) := by
  obtain ⟨p, hread, hmac, hversion, hdata⟩ := hcarries.received
  have hreceived : receivedPacket (.receive t behind pkt) = some p := by
    rw [receivedPacket, if_pos hcarries.1, hread]
  rw [DiscoveryService.step] at hstep
  split at hstep
  · cases hstep
  rename_i s₁ handled hcallback
  obtain rfl : s₁ = s' := Option.some.inj hstep
  have hsame : SameSeen (s.firstTimeSeen p).1 s₁ := by
    rcases seen_udpCallback hcallback with ⟨hnone, _⟩ | ⟨q, hq, hsame⟩
    · rw [hreceived] at hnone
      cases hnone
    · rw [hreceived] at hq
      rwa [Option.some.inj hq]
  refine ⟨p, hreceived, hmac, hversion, hsame, ?_⟩
  obtain ⟨seen, hseen⟩ := firstTimeSeen_else s p
  rw [udpCallback, if_neg (by simp [hcarries.1]), hread, ok_bind] at hcallback
  dsimp only at hcallback
  rw [hseen, hdata, hmac] at hcallback
  split at hcallback
  -- from a neighbour
  · rename_i hport
    have hrelayed : relayed pkt = ⟨pkt.inPort, MacAddress.nil, MacAddress.nil, IpAddress.nil, IpAddress.nil,
        topologyUpdatePort, topologyUpdatePort, pkt.udpPayload⟩ := if_pos hport
    obtain ⟨⟨g, update⟩, hupdate, hcallback⟩ := bind_eq_ok.mp hcallback
    obtain ⟨rfl, _⟩ := Prod.mk.inj (Except.ok.inj hcallback)
    have hg : (if (s.firstTimeSeen p).2 = true then
        fwdBroadcastChangeUdpPort { s with broadcastsSeen := seen } pkt topologyUpdatePort
        else { s with broadcastsSeen := seen }).topology = s.topology := by
      split
      · rfl
      · rfl
    rw [hg] at hupdate
    obtain ⟨htells, g₁, hg₁, g₂, hg₂, hothers⟩ := tells_updateNeighbor hupdate
    obtain ⟨_, hlearns⟩ := learns_updateTopology hg₂
    have hlearns : Learns s.topology g m a.node := by
      unfold Learns IsLater at hlearns ⊢
      rwa [hg₁, ← hothers] at hlearns
    have htopology : ∀ s₁ : DiscoveryService, (s₁.withTopology g t.stamped update).topology = g := by
      intro s₁
      cases update with
      | none => rfl
      | some data =>
          rw [withTopology, broadcastData_eq]
    rw [switchPorts_withTopology, htopology]
    cases hnew : (s.firstTimeSeen p).2 with
    | false =>
        refine ⟨rfl, ?_, .inl ⟨.inr hport, hlearns⟩⟩
        exact speaks_withTopology { s with broadcastsSeen := seen } (.receive t behind pkt) rfl rfl rfl
          (List.append_nil _).symm htells rfl
    | true =>
        refine ⟨rfl, ?_, .inl ⟨.inr hport, hlearns⟩⟩
        rw [hrelayed]
        exact speaks_withTopology
          (fwdBroadcastChangeUdpPort { s with broadcastsSeen := seen } pkt topologyUpdatePort)
          (.receive t behind pkt) rfl rfl rfl rfl htells rfl
  -- from further away
  · rename_i hport
    have hrelayed : relayed pkt = pkt := if_neg hport
    split at hcallback
    · rename_i hnew
      obtain ⟨g, hupdate, hcallback⟩ := bind_eq_ok.mp hcallback
      obtain ⟨rfl, _⟩ := Prod.mk.inj (Except.ok.inj hcallback)
      obtain ⟨hme, hlearns⟩ := learns_updateTopology hupdate
      rw [hnew]
      refine ⟨rfl, ⟨rfl, congrArg (·.macAddr) hme, .inl ⟨hme ▸ .refl _, ?_, rfl, rfl⟩⟩, .inl ⟨.inl rfl, hlearns⟩⟩
      rw [hrelayed]
      rfl
    · rename_i hnew
      obtain ⟨rfl, _⟩ := Prod.mk.inj (Except.ok.inj hcallback)
      rw [Bool.not_eq_true] at hnew
      rw [hnew]
      refine ⟨rfl, ⟨rfl, rfl, .inl ⟨.refl _, (List.append_nil _).symm, rfl, rfl⟩⟩, .inr ⟨rfl, hport, rfl⟩⟩

end IronStack.Proof
