import IronStack.Lib.Flooding
import IronStack.Proof.Announcements

/-!
# What switches know of each other

In a network of switches that only hear of each other by discovery broadcasts,
whatever one knows of another is what that one was at some time, however packets are
lost, doubled or overtaken.
-/

namespace IronStack.Proof

open IronStack Lib Std DiscoveryService DiscoveryNetwork

variable {ι : Type}

/-- The links of the network: the port at which something comes in stands for the way there. -/
def wiringOf (c : Cabling ι) : Wiring ι (ι × UInt16) where
  source := fun e => ((c.cable e).getD e).1
  target := Prod.fst
  reverse := fun e => (c.cable e).getD e
  source_reverse := by
    intro e
    cases h : c.cable e with
    | none => rw [Option.getD_none, h, Option.getD_none]
    | some b => rw [Option.getD_some, c.symm e b h, Option.getD_some]
  target_reverse := fun _ => rfl

/-- What a switch has stored of another is what an announcement says, as it arrives. -/
structure Depicts (m n : TopologyNode) : Prop where
  macAddr : m.macAddr = n.macAddr
  lastRefresh : m.lastRefresh = n.lastRefresh
  seqNum : m.seqNum = n.seqNum
  ipAddr : m.ipAddr = n.ipAddr
  /-- The name of a port is cut to what there is room for. -/
  ports : ∀ portNum : UInt16, m.ports[portNum]? = n.ports[portNum]?.map PortState.received
  /-- When a link was refreshed is not sent. -/
  links : ∀ portNum : UInt16, m.links[portNum]?.map Prod.fst = n.links[portNum]?.map Prod.fst

theorem Depicts.of_same {m n n' : TopologyNode} (h : Depicts m n) (hsame : SameAdvertisement n n') :
    Depicts m n' where
  macAddr := h.macAddr.trans hsame.macAddr
  lastRefresh := h.lastRefresh.trans hsame.lastRefresh
  seqNum := h.seqNum.trans hsame.seqNum
  ipAddr := h.ipAddr.trans hsame.ipAddr
  ports := fun portNum => hsame.ports ▸ h.ports portNum
  links := fun portNum => (h.links portNum).trans (hsame.links portNum)

theorem Depicts.versionOf {m n : TopologyNode} (h : Depicts m n) : versionOf m = versionOf n := by
  rw [Proof.versionOf, h.lastRefresh, h.seqNum, Proof.versionOf]

/-- What is stored of an announcement that is taken up describes it. -/
theorem depicts_merged (stored : Option TopologyNode) (n : TopologyNode) (now : Nat) :
    Depicts (merged stored (received n) now) n := by
  refine ⟨rfl, rfl, rfl, rfl, fun portNum => ?_, fun portNum => ?_⟩
  · exact getElem?_foldl_insert_toList PortState.received n.ports portNum
  · have hrebuilt := getElem?_foldl_insert_toList
      (fun l : MacAddress × UInt32 => (l.1, (0 : UInt32))) n.links portNum
    change (received n).links[portNum]? = _ at hrebuilt
    show (received n).links[portNum]?.map Prod.fst = _
    rw [hrebuilt, Option.map_map]
    rfl

/-- What is learnt of a node describes it, or is what was known already. -/
theorem Learns.depicts {g g' : LiveTopology} {m a : MacAddress} {n k : TopologyNode} (h : Learns g g' m n)
    (hk : g'.otherNodes[a]? = some k) :
    (a = m ∧ Depicts k n) ∨ g.otherNodes[a]? = some k := by
  rcases h with ⟨_, now, heq⟩ | ⟨_, heq⟩
  · rw [heq, getElem?_insert] at hk
    split at hk
    · rename_i hma
      rw [← Option.some.inj hk]
      exact .inl ⟨hma.symm, depicts_merged ..⟩
    · exact .inr hk
  · exact .inr (heq ▸ hk)

/-- What packets out of some ports make for the cables. -/
def onCables (c : Cabling ι) (node : ι) (out : List (UInt16 × UdpPacket)) : List ((ι × UInt16) × UdpPacket) :=
  out.filterMap fun out => (c.cable (node, out.1)).map fun port => (port, out.2)

theorem onCables_append (c : Cabling ι) (node : ι) (l l' : List (UInt16 × UdpPacket)) :
    onCables c node (l ++ l') = onCables c node l ++ onCables c node l' := List.filterMap_append

theorem emitted_eq (c : Cabling ι) (node : ι) {s s' : DiscoveryService} {out : List (UInt16 × UdpPacket)}
    (h : s'.sent = s.sent ++ out) : emitted c node s s' = onCables c node out := by
  rw [emitted, h, List.drop_left]
  rfl

theorem mem_onCables_copiesTo {c : Cabling ι} {node : ι} {ports : List OpenflowPort} {pkt : UdpPacket}
    {x : (ι × UInt16) × UdpPacket} (h : x ∈ onCables c node (copiesTo ports pkt)) :
    x.2 = pkt ∧ ∃ p ∈ ports, p.portNumber ≤ 0xff00 ∧ c.cable x.1 = some (node, p.portNumber) := by
  obtain ⟨out, hout, hx⟩ := List.mem_filterMap.mp h
  obtain ⟨p, hp, rfl⟩ := List.mem_map.mp hout
  obtain ⟨port, hcable, rfl⟩ := Option.map_eq_some_iff.mp hx
  obtain ⟨hp, hnum⟩ := List.mem_filter.mp hp
  exact ⟨rfl, p, hp, of_decide_eq_true hnum, c.symm _ _ hcable⟩

section Steps

variable [DecidableEq ι] {c : Cabling ι} {w w' : DiscoveryNetwork ι} {input : NetworkInput ι}

/-- What the network is after a step at a node. -/
def afterNode (c : Cabling ι) (w : DiscoveryNetwork ι) (rest : List ((ι × UInt16) × UdpPacket)) (node : ι)
    (s : DiscoveryService) : DiscoveryNetwork ι where
  nodes := Function.update w.nodes node s
  inFlight := rest ++ emitted c node (w.nodes node) s

/-- **What a step can do**: something happens at a switch, a packet comes in there, is lost, or is doubled. -/
theorem network_step_cases (h : DiscoveryNetwork.step c w input = some w') :
    (∃ node act s, input = .act node act ∧ (∀ t behind pkt, act ≠ .receive t behind pkt) ∧
        (w.nodes node).step act = some s ∧ w' = afterNode c w w.inFlight node s) ∨
      (∃ index t behind before after s, ∃ x : (ι × UInt16) × UdpPacket, input = .arrive index t behind ∧
        w.inFlight[index]? = some x ∧ w.inFlight = before ++ x :: after ∧
        (w.nodes x.1.1).step (.receive t behind { x.2 with inPort := x.1.2 }) = some s ∧
        w' = afterNode c w (before ++ after) x.1.1 s) ∨
      (∃ index before x after, input = .lose index ∧ w.inFlight = before ++ x :: after ∧
        w' = { w with inFlight := before ++ after }) ∨
      ∃ index, ∃ x ∈ w.inFlight, input = .duplicate index ∧ w' = { w with inFlight := w.inFlight ++ [x] } := by
  have hsplit : ∀ {index : Nat} {x : (ι × UInt16) × UdpPacket}, w.inFlight[index]? = some x →
      w.inFlight = w.inFlight.take index ++ x :: w.inFlight.drop (index + 1) := by
    intro index x hx
    obtain ⟨hlt, rfl⟩ := List.getElem?_eq_some_iff.mp hx
    rw [List.getElem_cons_drop, List.take_append_drop]
  have hnode : ∀ {node : ι} {act : DiscoveryInput}, w.atNode c node act = some w' →
      ∃ s, (w.nodes node).step act = some s ∧ w' = afterNode c w w.inFlight node s := by
    intro node act h
    obtain ⟨s, hs, rfl⟩ := Option.map_eq_some_iff.mp h
    exact ⟨s, hs, rfl⟩
  cases input with
  | act node act =>
      refine .inl ?_
      cases act with
      | receive t behind pkt => cases h
      | clean now =>
          obtain ⟨s, hs, hw'⟩ := hnode h
          exact ⟨node, _, s, rfl, (fun _ _ _ heq => by cases heq), hs, hw'⟩
      | portModified switchPorts updated stamped phyPort =>
          obtain ⟨s, hs, hw'⟩ := hnode h
          exact ⟨node, _, s, rfl, (fun _ _ _ heq => by cases heq), hs, hw'⟩
      | heartbeat now updated stamped =>
          obtain ⟨s, hs, hw'⟩ := hnode h
          exact ⟨node, _, s, rfl, (fun _ _ _ heq => by cases heq), hs, hw'⟩
      | sweep now =>
          obtain ⟨s, hs, hw'⟩ := hnode h
          exact ⟨node, _, s, rfl, (fun _ _ _ heq => by cases heq), hs, hw'⟩
  | arrive index t behind =>
      obtain ⟨x, hx, h⟩ := Option.bind_eq_some_iff.mp h
      obtain ⟨s, hs, rfl⟩ := Option.map_eq_some_iff.mp h
      refine .inr (.inl ⟨index, t, behind, _, _, s, x, rfl, hx, hsplit hx, hs, ?_⟩)
      rw [afterNode, ← List.eraseIdx_eq_take_drop_succ]
  | lose index =>
      obtain ⟨x, hx, rfl⟩ := Option.map_eq_some_iff.mp h
      refine .inr (.inr (.inl ⟨index, _, x, _, rfl, hsplit hx, ?_⟩))
      rw [← List.eraseIdx_eq_take_drop_succ]
  | duplicate index =>
      obtain ⟨x, hx, rfl⟩ := Option.map_eq_some_iff.mp h
      exact .inr (.inr (.inr ⟨index, x, List.mem_of_getElem? hx, rfl, rfl⟩))

/-! ## Announcements that were made -/

/-- What a service has stored of other nodes was announced. -/
def StoresTold (setup : ι → SwitchSetup) (told : ι → List Announcement) (s : DiscoveryService) : Prop :=
  ∀ (m : MacAddress) (n : TopologyNode), s.topology.otherNodes[m]? = some n →
    ∃ i, (setup i).macAddr = m ∧ ∃ a ∈ told i, Depicts n a.node

/--
Everything in the network is what some switch has announced: `told` are the
announcements of every switch, in order.
-/
structure Told (c : Cabling ι) (setup : ι → SwitchSetup) (w : DiscoveryNetwork ι) (told : ι → List Announcement) :
    Prop where
  switchMac : ∀ i, (w.nodes i).switchMac = (setup i).macAddr
  macAddr : ∀ i, (w.nodes i).topology.me.macAddr = (setup i).macAddr
  cabled : ∀ x ∈ w.inFlight, ∃ port, c.cable x.1 = some port
  flight : ∀ x ∈ w.inFlight, ∃ i, ∃ a ∈ told i, Conveys x.2 (setup i).macAddr a
  /-- A packet for neighbours is of the switch at the other end of the cable. -/
  neighbor : ∀ x ∈ w.inFlight, x.2.destPort = neighborUpdatePort →
    ∃ a ∈ told ((wiringOf c).source x.1), Conveys x.2 (setup ((wiringOf c).source x.1)).macAddr a
  stored : ∀ j, StoresTold setup told (w.nodes j)
  /-- A switch has said all that there is to say of itself. -/
  last : ∀ i a, (told i).getLast? = some a → SameAdvertisement a.node (w.nodes i).topology.me ∧
    a.version = versionNumber (w.nodes i).lastTimestamp ((w.nodes i).nextSeqNum - 1)
  silent : ∀ i, told i = [] → SameAdvertisement (w.nodes i).topology.me
    (DiscoveryService.init (setup i)).topology.me

/-- The announcements after a step: a switch may have made one more, of what it is now. -/
def ToldMore (w' : DiscoveryNetwork ι) (told told' : ι → List Announcement) : Prop :=
  ∀ i, told' i = told i ∨ ∃ v, told' i = told i ++ [⟨v, (w'.nodes i).topology.me⟩]

variable {setup : ι → SwitchSetup} {told : ι → List Announcement}

/-- An announcement is added to those of a switch. -/
def tellMore (told : ι → List Announcement) (i : ι) (a : Announcement) : ι → List Announcement :=
  Function.update told i (told i ++ [a])

theorem mem_tellMore {i j : ι} {a b : Announcement} (h : b ∈ told j) : b ∈ tellMore told i a j := by
  rw [tellMore]
  by_cases hij : j = i
  · subst hij
    rw [Function.update_self]
    exact List.mem_append_left _ h
  · rwa [Function.update_of_ne hij]

theorem tellMore_self (told : ι → List Announcement) (i : ι) (a : Announcement) :
    tellMore told i a i = told i ++ [a] := Function.update_self ..

theorem tellMore_of_ne (told : ι → List Announcement) {i j : ι} (a : Announcement) (h : j ≠ i) :
    tellMore told i a j = told j := Function.update_of_ne h ..

omit [DecidableEq ι] in
theorem source_wiringOf {x port : ι × UInt16} (h : c.cable x = some port) : (wiringOf c).source x = port.1 := by
  show ((c.cable x).getD x).1 = _
  rw [h, Option.getD_some]

/-- What a step at a switch does apart from what it announces: only what was announced is passed on and stored. -/
structure Handles (c : Cabling ι) (setup : ι → SwitchSetup) (w : DiscoveryNetwork ι) (told : ι → List Announcement)
    (rest : List ((ι × UInt16) × UdpPacket)) (i : ι) (s' : DiscoveryService)
    (forwarded : List (UInt16 × UdpPacket)) : Prop where
  rest : ∀ x ∈ rest, x ∈ w.inFlight
  cabled : ∀ x ∈ onCables c i forwarded, ∃ port, c.cable x.1 = some port
  forwarded : ∀ x ∈ onCables c i forwarded, x.2.destPort ≠ neighborUpdatePort ∧
    ∃ j, ∃ a ∈ told j, Conveys x.2 (setup j).macAddr a
  stored : StoresTold setup told s'

variable {rest : List ((ι × UInt16) × UdpPacket)} {i : ι} {s' : DiscoveryService}
  {forwarded : List (UInt16 × UdpPacket)}

theorem nodes_afterNode_self : (afterNode c w rest i s').nodes i = s' := Function.update_self ..

theorem nodes_afterNode_of_ne {j : ι} (h : j ≠ i) : (afterNode c w rest i s').nodes j = w.nodes j :=
  Function.update_of_ne h ..

/-- What holds of the switch at which the step is, and of the others as before, holds of all. -/
theorem forall_afterNode {P : ι → DiscoveryService → Prop} (hself : P i s') (hothers : ∀ j ≠ i, P j (w.nodes j))
    (j : ι) : P j ((afterNode c w rest i s').nodes j) := by
  by_cases hj : j = i
  · subst hj
    rwa [nodes_afterNode_self]
  · rw [nodes_afterNode_of_ne hj]
    exact hothers j hj

/-- A step at a switch that says nothing new. -/
theorem Told.keep (h : Told c setup w told) (hhandles : Handles c setup w told rest i s' forwarded)
    (hsent : s'.sent = (w.nodes i).sent ++ forwarded) (hmac : s'.switchMac = (w.nodes i).switchMac)
    (haddr : s'.topology.me.macAddr = (w.nodes i).topology.me.macAddr)
    (hsame : SameAdvertisement s'.topology.me (w.nodes i).topology.me)
    (htime : s'.lastTimestamp = (w.nodes i).lastTimestamp) (hseq : s'.nextSeqNum = (w.nodes i).nextSeqNum) :
    Told c setup (afterNode c w rest i s') told := by
  have hflight : (afterNode c w rest i s').inFlight = rest ++ onCables c i forwarded := by
    rw [afterNode, emitted_eq c i hsent]
  refine ⟨?_, ?_, fun x hx => ?_, fun x hx => ?_, fun x hx hport => ?_, ?_, ?_, ?_⟩
  · exact forall_afterNode (P := fun j s => s.switchMac = _) (hmac.trans (h.switchMac i)) fun j _ => h.switchMac j
  · exact forall_afterNode (P := fun j s => s.topology.me.macAddr = _) (haddr.trans (h.macAddr i))
      fun j _ => h.macAddr j
  · rw [hflight] at hx
    rcases List.mem_append.mp hx with hx | hx
    · exact h.cabled x (hhandles.rest x hx)
    · exact hhandles.cabled x hx
  · rw [hflight] at hx
    rcases List.mem_append.mp hx with hx | hx
    · exact h.flight x (hhandles.rest x hx)
    · exact (hhandles.forwarded x hx).2
  · rw [hflight] at hx
    rcases List.mem_append.mp hx with hx | hx
    · exact h.neighbor x (hhandles.rest x hx) hport
    · exact absurd hport (hhandles.forwarded x hx).1
  · exact forall_afterNode (P := fun _ s => StoresTold setup told s) hhandles.stored fun j _ => h.stored j
  · refine forall_afterNode (P := fun j s => ∀ a, (told j).getLast? = some a →
      SameAdvertisement a.node s.topology.me ∧ a.version = versionNumber s.lastTimestamp (s.nextSeqNum - 1))
      (fun a ha => ?_) fun j _ => h.last j
    obtain ⟨hlast, hversion⟩ := h.last i a ha
    rw [htime, hseq]
    exact ⟨hlast.trans hsame.symm, hversion⟩
  · exact forall_afterNode (P := fun j s => told j = [] → SameAdvertisement s.topology.me _)
      (fun hnil => hsame.trans (h.silent i hnil)) fun j _ => h.silent j

/-- A step at a switch that announces what it is now. -/
theorem Told.announce (h : Told c setup w told) (hhandles : Handles c setup w told rest i s' forwarded)
    {ports : List OpenflowPort} {pkt : UdpPacket} {v : Nat}
    (hsent : s'.sent = (w.nodes i).sent ++ forwarded ++ copiesTo ports pkt)
    (hmac : s'.switchMac = (w.nodes i).switchMac)
    (haddr : s'.topology.me.macAddr = (w.nodes i).topology.me.macAddr)
    (hcarries : Conveys pkt (w.nodes i).switchMac ⟨v, s'.topology.me⟩)
    (hversion : v = versionNumber s'.lastTimestamp (s'.nextSeqNum - 1)) :
    Told c setup (afterNode c w rest i s') (tellMore told i ⟨v, s'.topology.me⟩) := by
  have hflight : (afterNode c w rest i s').inFlight =
      rest ++ (onCables c i forwarded ++ onCables c i (copiesTo ports pkt)) := by
    rw [List.append_assoc] at hsent
    rw [afterNode, emitted_eq c i hsent, onCables_append]
  have hnew : (⟨v, s'.topology.me⟩ : Announcement) ∈ tellMore told i ⟨v, s'.topology.me⟩ i := by
    rw [tellMore_self]
    exact List.mem_append_right _ (List.mem_singleton.mpr rfl)
  have hown : ∀ x ∈ onCables c i (copiesTo ports pkt), (∃ port, c.cable x.1 = some port) ∧
      (wiringOf c).source x.1 = i ∧ Conveys x.2 (setup i).macAddr ⟨v, s'.topology.me⟩ := by
    intro x hx
    obtain ⟨hpkt, p, _, _, hcable⟩ := mem_onCables_copiesTo hx
    rw [hpkt, ← h.switchMac i]
    exact ⟨⟨_, hcable⟩, source_wiringOf hcable, hcarries⟩
  refine ⟨?_, ?_, fun x hx => ?_, fun x hx => ?_, fun x hx hport => ?_, ?_, ?_, ?_⟩
  · exact forall_afterNode (P := fun j s => s.switchMac = _) (hmac.trans (h.switchMac i)) fun j _ => h.switchMac j
  · exact forall_afterNode (P := fun j s => s.topology.me.macAddr = _) (haddr.trans (h.macAddr i))
      fun j _ => h.macAddr j
  · rw [hflight] at hx
    rcases List.mem_append.mp hx with hx | hx
    · exact h.cabled x (hhandles.rest x hx)
    · rcases List.mem_append.mp hx with hx | hx
      · exact hhandles.cabled x hx
      · exact (hown x hx).1
  · rw [hflight] at hx
    rcases List.mem_append.mp hx with hx | hx
    · obtain ⟨j, a, ha, hc⟩ := h.flight x (hhandles.rest x hx)
      exact ⟨j, a, mem_tellMore ha, hc⟩
    · rcases List.mem_append.mp hx with hx | hx
      · obtain ⟨_, j, a, ha, hc⟩ := hhandles.forwarded x hx
        exact ⟨j, a, mem_tellMore ha, hc⟩
      · exact ⟨i, _, hnew, (hown x hx).2.2⟩
  · rw [hflight] at hx
    rcases List.mem_append.mp hx with hx | hx
    · obtain ⟨a, ha, hc⟩ := h.neighbor x (hhandles.rest x hx) hport
      exact ⟨a, mem_tellMore ha, hc⟩
    · rcases List.mem_append.mp hx with hx | hx
      · exact absurd hport (hhandles.forwarded x hx).1
      · obtain ⟨_, hsource, hc⟩ := hown x hx
        rw [hsource]
        exact ⟨_, hnew, hc⟩
  · refine forall_afterNode (P := fun _ s => StoresTold setup (tellMore told i ⟨v, s'.topology.me⟩) s)
      (fun m n hn => ?_) fun j _ m n hn => ?_
    · obtain ⟨k, hk, a, ha, hd⟩ := hhandles.stored m n hn
      exact ⟨k, hk, a, mem_tellMore ha, hd⟩
    · obtain ⟨k, hk, a, ha, hd⟩ := h.stored j m n hn
      exact ⟨k, hk, a, mem_tellMore ha, hd⟩
  · refine forall_afterNode (P := fun j s => ∀ a, (tellMore told i ⟨v, s'.topology.me⟩ j).getLast? = some a →
      SameAdvertisement a.node s.topology.me ∧ a.version = versionNumber s.lastTimestamp (s.nextSeqNum - 1))
      (fun a ha => ?_) fun j hj a ha => ?_
    · rw [tellMore_self, List.getLast?_concat] at ha
      rw [← Option.some.inj ha]
      exact ⟨.refl _, hversion⟩
    · rw [tellMore_of_ne told _ hj] at ha
      exact h.last j a ha
  · refine forall_afterNode (P := fun j s => tellMore told i ⟨v, s'.topology.me⟩ j = [] →
      SameAdvertisement s.topology.me _) (fun hnil => ?_) fun j hj hnil => ?_
    · rw [tellMore_self] at hnil
      cases (List.append_eq_nil_iff.mp hnil).2
    · rw [tellMore_of_ne told _ hj] at hnil
      exact h.silent j hnil

omit [DecidableEq ι] in
/-- Packets that are lost or doubled say nothing new. -/
theorem Told.of_flight (h : Told c setup w told) {l : List ((ι × UInt16) × UdpPacket)}
    (hl : ∀ x ∈ l, x ∈ w.inFlight) : Told c setup { w with inFlight := l } told :=
  ⟨h.switchMac, h.macAddr, fun x hx => h.cabled x (hl x hx), fun x hx => h.flight x (hl x hx),
    fun x hx => h.neighbor x (hl x hx), h.stored, h.last, h.silent⟩

/-! ## Steps -/

/-- What becomes of the other nodes when nothing comes in: some may be forgotten. -/
theorem otherNodes_act {s s' : DiscoveryService} {act : DiscoveryInput} (hstep : s.step act = some s')
    (hact : ∀ t behind pkt, act ≠ .receive t behind pkt) {m : MacAddress} {n : TopologyNode}
    (hn : s'.topology.otherNodes[m]? = some n) : s.topology.otherNodes[m]? = some n := by
  cases act with
  | receive t behind pkt => exact absurd rfl (hact t behind pkt)
  | clean now =>
      obtain rfl := Option.some.inj hstep
      exact hn
  | portModified switchPorts updated stamped phyPort =>
      rw [← Option.some.inj hstep, discoveryPortHandler] at hn
      split at hn
      · exact hn
      · split at hn
        · exact hn
        · dsimp only at hn
          rw [topology_withTopology, otherNodes_updateLocalPort] at hn
          exact hn
  | heartbeat now updated stamped =>
      rw [← Option.some.inj hstep] at hn
      dsimp only at hn
      rw [topology_withTopology] at hn
      exact hn
  | sweep now =>
      obtain rfl := Option.some.inj hstep
      exact (Option.filter_eq_some_iff.mp (ExtTreeMap.getElem?_filter'.symm.trans hn)).1

omit [DecidableEq ι] in
/-- A step at which nothing comes in passes nothing on, and stores nothing. -/
theorem Told.handles_act (h : Told c setup w told) {act : DiscoveryInput}
    (hstep : (w.nodes i).step act = some s') (hact : ∀ t behind pkt, act ≠ .receive t behind pkt) :
    Handles c setup w told w.inFlight i s' [] :=
  ⟨fun _ hx => hx, fun _ hx => (by cases hx), fun _ hx => (by cases hx),
    fun m n hn => h.stored i m n (otherNodes_act hstep hact hn)⟩

omit [DecidableEq ι] in
/-- A packet that comes in is passed on as it is, and what it says is stored. -/
theorem Told.handles_receive (h : Told c setup w told) {before after : List ((ι × UInt16) × UdpPacket)}
    {x : (ι × UInt16) × UdpPacket} (hx : w.inFlight = before ++ x :: after) {j : ι} {a : Announcement}
    (ha : a ∈ told j) (hcarries : Conveys x.2 (setup j).macAddr a) {ports : List OpenflowPort} {isNew : Bool}
    (hlearns : Learns (w.nodes x.1.1).topology s'.topology (setup j).macAddr a.node ∨
      s'.topology.otherNodes = (w.nodes x.1.1).topology.otherNodes) :
    Handles c setup w told (before ++ after) x.1.1 s'
      (if isNew then copiesTo ports (relayed { x.2 with inPort := x.1.2 }) else []) := by
  have hcopies : ∀ y ∈ onCables c x.1.1
      (if isNew then copiesTo ports (relayed { x.2 with inPort := x.1.2 }) else []),
      y.2 = relayed { x.2 with inPort := x.1.2 } ∧ ∃ port, c.cable y.1 = some port := by
    intro y hy
    cases isNew with
    | false => cases hy
    | true =>
        obtain ⟨hpkt, p, _, _, hcable⟩ := mem_onCables_copiesTo hy
        exact ⟨hpkt, _, hcable⟩
  refine ⟨fun y hy => ?_, fun y hy => (hcopies y hy).2, fun y hy => ?_, fun m n hn => ?_⟩
  · rw [hx]
    rcases List.mem_append.mp hy with hy | hy
    · exact List.mem_append_left _ hy
    · exact List.mem_append_right _ (List.mem_cons_of_mem _ hy)
  · rw [(hcopies y hy).1]
    refine ⟨?_, j, a, ha, (hcarries.withPort x.1.2).relayed⟩
    unfold relayed
    split
    · show topologyUpdatePort ≠ neighborUpdatePort
      decide
    · assumption
  · rcases hlearns with hlearns | hsame
    · rcases hlearns.depicts hn with ⟨rfl, hd⟩ | hold
      · exact ⟨j, rfl, a, ha, hd⟩
      · exact h.stored _ m n hold
    · exact h.stored _ m n (hsame ▸ hn)

/-- What a switch says at a step is what it is then. -/
theorem Told.speak (h : Told c setup w told) {act : DiscoveryInput}
    (hhandles : Handles c setup w told rest i s' forwarded) (hspeaks : Speaks (w.nodes i) s' act forwarded) :
    ∃ told', Told c setup (afterNode c w rest i s') told' ∧ ToldMore (afterNode c w rest i s') told told' := by
  obtain ⟨hmac, haddr, ⟨hsame, hsent, htime, hseq⟩ | ⟨updated, stamped, pkt, _, _, hsent, hcarries, htime, hseq⟩⟩ :=
    hspeaks
  · exact ⟨told, h.keep hhandles hsent hmac haddr hsame htime hseq, fun _ => .inl rfl⟩
  · have hversion : newVersion (w.nodes i) stamped = versionNumber s'.lastTimestamp (s'.nextSeqNum - 1) := by
      rw [htime, hseq, newVersion, UInt8.add_sub_cancel]
    refine ⟨_, h.announce hhandles hsent hmac haddr hcarries hversion, fun j => ?_⟩
    by_cases hj : j = i
    · subst hj
      rw [tellMore_self, nodes_afterNode_self]
      exact .inr ⟨_, rfl⟩
    · exact .inl (tellMore_of_ne told _ hj)

/-- Every step keeps to what was announced. -/
theorem Told.step (h : Told c setup w told) (hstep : DiscoveryNetwork.step c w input = some w') :
    ∃ told', Told c setup w' told' ∧ ToldMore w' told told' := by
  rcases network_step_cases hstep with ⟨i, act, s', _, hact, hs, rfl⟩ |
    ⟨index, t, behind, before, after, s', x, _, hget, hx, hs, rfl⟩ | ⟨index, before, x, after, _, hx, rfl⟩ |
    ⟨index, x, hx, _, rfl⟩
  · exact h.speak (h.handles_act hs hact) (speaks_act hs hact)
  · obtain ⟨j, a, ha, hcarries⟩ := h.flight x (List.mem_of_getElem? hget)
    obtain ⟨p, _, _, _, _, _, hspeaks, hlearns⟩ := receive_cases (hcarries.withPort x.1.2) hs
    exact h.speak (h.handles_receive hx ha hcarries (hlearns.imp And.right fun hsame => hsame.2.2)) hspeaks
  · refine ⟨told, h.of_flight fun y hy => ?_, fun _ => .inl rfl⟩
    rw [hx]
    rcases List.mem_append.mp hy with hy | hy
    · exact List.mem_append_left _ hy
    · exact List.mem_append_right _ (List.mem_cons_of_mem _ hy)
  · refine ⟨told, h.of_flight fun y hy => ?_, fun _ => .inl rfl⟩
    rcases List.mem_append.mp hy with hy | hy
    · exact hy
    · rw [List.mem_singleton.mp hy]
      exact hx

end Steps

/-! ## Runs -/

section Runs

variable [DecidableEq ι] {c : Cabling ι} {setup : ι → SwitchSetup}

omit [DecidableEq ι] in
/-- Nothing is known of another switch at the start, and nothing is on its way. -/
theorem told_boot (c : Cabling ι) (setup : ι → SwitchSetup) :
    Told c setup (DiscoveryNetwork.boot setup) fun _ => [] where
  switchMac := fun _ => rfl
  macAddr := fun _ => rfl
  cabled := fun _ hx => by cases hx
  flight := fun _ hx => by cases hx
  neighbor := fun _ hx => by cases hx
  stored := by
    intro j m n hn
    have hn : (∅ : ExtTreeMap MacAddress TopologyNode)[m]? = some n := hn
    rw [ExtTreeMap.getElem?_empty] at hn
    cases hn
  last := fun _ _ ha => by cases ha
  silent := fun _ _ => .refl _

/-- Every announcement is of what its switch was after some step of the run. -/
def MadeIn (ts : List (Transition (DiscoveryNetwork ι) (NetworkInput ι))) (told : ι → List Announcement) : Prop :=
  ∀ i, ∀ a ∈ told i, ∃ tr ∈ ts, a.node = (tr.target.nodes i).topology.me

theorem exists_told {ts : List (Transition (DiscoveryNetwork ι) (NetworkInput ι))} {w : DiscoveryNetwork ι}
    (hrun : Run (DiscoveryNetwork.step c) (DiscoveryNetwork.boot setup) ts w) :
    ∃ told, Told c setup w told ∧ MadeIn ts told := by
  induction hrun with
  | nil => exact ⟨_, told_boot c setup, fun _ _ ha => by cases ha⟩
  | @snoc ts u v input _ hstep ih =>
      obtain ⟨told, htold, hmade⟩ := ih
      obtain ⟨told', htold', hmore⟩ := htold.step hstep
      refine ⟨told', htold', fun i a ha => ?_⟩
      have hold : a ∈ told i → ∃ tr ∈ ts ++ [⟨u, input, v⟩], a.node = (tr.target.nodes i).topology.me := by
        intro ha
        obtain ⟨tr, htr, hnode⟩ := hmade i a ha
        exact ⟨tr, List.mem_append_left _ htr, hnode⟩
      rcases hmore i with hsame | ⟨version, hnew⟩
      · exact hold (hsame ▸ ha)
      · rw [hnew] at ha
        rcases List.mem_append.mp ha with ha | ha
        · exact hold ha
        · rw [List.mem_singleton.mp ha]
          exact ⟨_, List.mem_append_right _ (List.mem_singleton.mpr rfl), rfl⟩

/--
**What a switch knows of another is what that one was**: in every run of a network of
switches, however packets are lost, doubled, delayed and overtaken, and whatever is
forgotten, each node that a switch has stored under an address describes, port by port
and link by link, what a switch with this address was after some step of the run.
-/
theorem stored_node_was {ts : List (Transition (DiscoveryNetwork ι) (NetworkInput ι))} {w : DiscoveryNetwork ι}
    (hrun : Run (DiscoveryNetwork.step c) (DiscoveryNetwork.boot setup) ts w) (j : ι) (m : MacAddress)
    (n : TopologyNode) (hn : (w.nodes j).topology.otherNodes[m]? = some n) :
    ∃ i, (setup i).macAddr = m ∧ ∃ tr ∈ ts, Depicts n (tr.target.nodes i).topology.me := by
  obtain ⟨told, htold, hmade⟩ := exists_told hrun
  obtain ⟨i, hmac, a, ha, hdescribes⟩ := htold.stored j m n hn
  obtain ⟨tr, htr, hnode⟩ := hmade i a ha
  exact ⟨i, hmac, tr, htr, hnode ▸ hdescribes⟩

end Runs

/-- Two switches, with a cable between them. -/
def pairCabling : Cabling Bool where
  cable := fun a => if a.2 = 1 then some (!a.1, 1) else none
  symm := by
    intro a b h
    split at h
    · rename_i hport
      obtain ⟨i, portNum⟩ := a
      obtain rfl : portNum = 1 := hport
      rw [← Option.some.inj h]
      simp
    · cases h
  irrefl := by
    intro a b h
    split at h
    · rw [← Option.some.inj h]
      exact (Bool.not_ne_self a.1).symm
    · cases h

def pairSetup (i : Bool) : SwitchSetup where
  macAddr := .ofOctets 2 0 0 0 0 (if i then 1 else 2)
  ipAddr := IpAddress.nil
  name := ""
  ports := [{ portNumber := 1 }]

/-- One of them announces itself, and the other stores that. -/
theorem stored_node_was_neighbor : ∃ ts w, Run (DiscoveryNetwork.step pairCabling)
    (DiscoveryNetwork.boot pairSetup) ts w ∧ ∃ n,
      (w.nodes true).topology.otherNodes[(pairSetup false).macAddr]? = some n ∧
        ∃ i, (pairSetup i).macAddr = (pairSetup false).macAddr ∧
          ∃ tr ∈ ts, Depicts n (tr.target.nodes i).topology.me := by
  obtain ⟨ts, w, hrun, hstored⟩ := Run.exists_of_test (DiscoveryNetwork.step pairCabling)
    (DiscoveryNetwork.boot pairSetup) [.act false (.heartbeat 5 5 5), .arrive 0 ⟨6, 6, 6, 6⟩ []]
    (fun _ w => (w.nodes true).topology.otherNodes[(pairSetup false).macAddr]?.isSome) (by decide +kernel)
  obtain ⟨n, hn⟩ := Option.isSome_iff_exists.mp hstored
  exact ⟨ts, w, hrun, n, hn, stored_node_was hrun true _ n hn⟩

end IronStack.Proof
