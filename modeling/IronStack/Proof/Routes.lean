import IronStack.Proof.Converged
import IronStack.Proof.Topology

/-!
# What switches route over

A switch takes a neighbour from the discovery packets that come in at a port, so the
graph in which it looks for paths has an edge only where there is a cable. In a network
that has become quiet, connected switches have the same graph.
-/

namespace IronStack.Proof

open IronStack Lib Lib.Flood IronStack.SimpleGraph Std DiscoveryService DiscoveryNetwork LiveTopology
  TopologyGraph

variable {ι : Type}

/-! ## Links -/

/-- The neighbour that a node has a link to at a port. -/
def linkAt (n : TopologyNode) (portNum : UInt16) : Option MacAddress := n.links[portNum]?.map Prod.fst

theorem hasLink_iff {n : TopologyNode} {v : MacAddress} :
    HasLink n.toNetworkNode v ↔ ∃ portNum, linkAt n portNum = some v := by
  refine ⟨fun ⟨portNum, time, h⟩ => ⟨portNum, ?_⟩, fun ⟨portNum, h⟩ => ?_⟩
  · have h : n.links[portNum]? = some (v, time) := h
    rw [linkAt, h]
    rfl
  · obtain ⟨⟨_, time⟩, hlink, rfl⟩ := Option.map_eq_some_iff.mp h
    exact ⟨portNum, time, hlink⟩

theorem linkAt_sendUpdate (g : LiveTopology) (now : Nat) (portNum : UInt16) :
    linkAt (g.sendUpdate now).1.me portNum = linkAt g.me portNum := by
  rw [sendUpdate]
  dsimp only
  split
  · rfl
  · rfl

/-- The neighbour is entered as the link at its port, and told of unless it was the link there before. -/
theorem updateNeighbor_links {g g' : LiveTopology} {now refreshed updated : Nat} {phyPort : UInt16}
    {neighborMac : MacAddress} {data : Autobuf} {update : Option Bytes}
    (h : g.updateNeighbor now refreshed updated phyPort neighborMac data = .ok (g', update)) :
    (∀ portNum, linkAt g'.me portNum = if phyPort = portNum then some neighborMac else linkAt g.me portNum) ∧
      (linkAt g.me phyPort = some neighborMac → versionOf g'.me = versionOf g.me) := by
  obtain ⟨g₂, hg₂, h⟩ := bind_eq_ok.mp h
  obtain ⟨_, _, _, hme, _⟩ := updateTopology_cases hg₂
  have hlinks : ∀ portNum, linkAt g₂.me portNum =
      if phyPort = portNum then some neighborMac else linkAt g.me portNum := by
    intro portNum
    rw [hme, linkAt]
    dsimp only
    rw [getElem?_insert]
    split
    · rfl
    · rfl
  dsimp only at h
  split at h
  · rename_i hneeded
    rw [← (Prod.mk.inj (Except.ok.inj h)).1]
    refine ⟨fun portNum => (linkAt_sendUpdate g₂ updated portNum).trans (hlinks portNum), fun hlink => ?_⟩
    -- the link is there already
    obtain ⟨⟨mac, time⟩, hfound, rfl⟩ := Option.map_eq_some_iff.mp hlink
    rw [hfound] at hneeded
    simp at hneeded
  · rw [← (Prod.mk.inj (Except.ok.inj h)).1]
    exact ⟨hlinks, fun _ => by rw [hme]; rfl⟩

/-- A packet that comes in leaves the local node alone, unless a neighbour sent it. -/
theorem topology_receive {s s' : DiscoveryService} {t : ClockReadings} {behind : Bytes} {pkt : UdpPacket}
    (hstep : s.step (.receive t behind pkt) = some s') :
    s'.topology.me = s.topology.me ∨ ∃ p, receivedPacket (.receive t behind pkt) = some p ∧
      pkt.destPort = neighborUpdatePort ∧ ∃ data g update,
        s.topology.updateNeighbor t.heard t.refreshed t.updated pkt.inPort p.srcMac data = .ok (g, update) ∧
          s'.topology.me = g.me := by
  rw [DiscoveryService.step] at hstep
  split at hstep
  · cases hstep
  rename_i s₁ handled hcallback
  obtain rfl : s₁ = s' := Option.some.inj hstep
  rw [udpCallback] at hcallback
  split at hcallback
  · rw [← (Prod.mk.inj (Except.ok.inj hcallback)).1]
    exact .inl rfl
  rename_i hdiscovery
  obtain ⟨read, hread, hcallback⟩ := bind_eq_ok.mp hcallback
  cases read with
  | none =>
      rw [← (Prod.mk.inj (Except.ok.inj hcallback)).1]
      exact .inl rfl
  | some p =>
      obtain ⟨seen, hseen⟩ := firstTimeSeen_else s p
      dsimp only at hcallback
      rw [hseen] at hcallback
      split at hcallback
      · rename_i hport
        obtain ⟨⟨g, update⟩, hupdate, hcallback⟩ := bind_eq_ok.mp hcallback
        obtain ⟨rfl, _⟩ := Prod.mk.inj (Except.ok.inj hcallback)
        have hg : (if (s.firstTimeSeen p).2 = true then
            fwdBroadcastChangeUdpPort { s with broadcastsSeen := seen } pkt topologyUpdatePort
            else { s with broadcastsSeen := seen }).topology = s.topology := by
          split
          · rfl
          · rfl
        rw [hg] at hupdate
        refine .inr ⟨p, ?_, hport, _, g, update, hupdate, congrArg LiveTopology.me (topology_withTopology ..)⟩
        rw [receivedPacket, if_pos (by simpa using hdiscovery), hread]
      · refine .inl ?_
        split at hcallback
        · obtain ⟨g, hupdate, hcallback⟩ := bind_eq_ok.mp hcallback
          obtain ⟨rfl, _⟩ := Prod.mk.inj (Except.ok.inj hcallback)
          obtain ⟨_, _, _, hme, _⟩ := updateTopology_cases hupdate
          exact hme
        · obtain ⟨rfl, _⟩ := Prod.mk.inj (Except.ok.inj hcallback)
          rfl

/-- What can make a link: a packet of the neighbour that comes in at its port. -/
theorem linkAt_step {s s' : DiscoveryService} {input : DiscoveryInput} (hstep : s.step input = some s')
    {portNum : UInt16} {m : MacAddress} (hlink : linkAt s'.topology.me portNum = some m) :
    linkAt s.topology.me portNum = some m ∨ ∃ t behind pkt p, input = .receive t behind pkt ∧
      receivedPacket input = some p ∧ pkt.destPort = neighborUpdatePort ∧ pkt.inPort = portNum ∧ p.srcMac = m := by
  cases input with
  | clean now =>
      obtain rfl := Option.some.inj hstep
      exact .inl hlink
  | sweep now =>
      obtain rfl := Option.some.inj hstep
      exact .inl hlink
  | heartbeat now updated stamped =>
      rw [← Option.some.inj hstep, topology_withTopology] at hlink
      have hlink : linkAt (s.topology.heartbeat now updated).1.me portNum = some m := hlink
      rw [LiveTopology.heartbeat, linkAt_sendUpdate, linkAt] at hlink
      obtain ⟨link, hfound, rfl⟩ := Option.map_eq_some_iff.mp hlink
      have hfound := (Option.filter_eq_some_iff.mp (ExtTreeMap.getElem?_filter'.symm.trans hfound)).1
      exact .inl (by rw [linkAt, hfound]; rfl)
  | portModified switchPorts updated stamped phyPort =>
      refine .inl ?_
      rw [← Option.some.inj hstep, discoveryPortHandler] at hlink
      split at hlink
      · exact hlink
      · split at hlink
        · exact hlink
        · dsimp only at hlink
          rw [topology_withTopology, updateLocalPort] at hlink
          dsimp only at hlink
          split at hlink
          · rwa [linkAt_sendUpdate] at hlink
          · exact hlink
  | receive t behind pkt =>
      rcases topology_receive hstep with hsame | ⟨p, hreceived, hport, data, g, update, hupdate, hme⟩
      · exact .inl (hsame ▸ hlink)
      · rw [hme] at hlink
        rw [(updateNeighbor_links hupdate).1] at hlink
        split at hlink
        · rename_i hin
          exact .inr ⟨t, behind, pkt, p, rfl, hreceived, hport, hin, Option.some.inj hlink⟩
        · exact .inl hlink

/-- The links of a node are cables of its switch, to the neighbours that they name. -/
def LinksAreCables (c : Cabling ι) (setup : ι → SwitchSetup) (i : ι) (n : TopologyNode) : Prop :=
  ∀ portNum m, linkAt n portNum = some m → ∃ e, c.cable (i, portNum) = some e ∧ (setup e.1).macAddr = m

/-- Announcements that were made, of links that are cables. -/
structure Plugged (c : Cabling ι) (setup : ι → SwitchSetup) (w : DiscoveryNetwork ι) (told : ι → List Announcement) :
    Prop where
  holds : Told c setup w told
  current : ∀ i, LinksAreCables c setup i (w.nodes i).topology.me
  announced : ∀ i, ∀ a ∈ told i, LinksAreCables c setup i a.node

section Runs

variable [DecidableEq ι] {c : Cabling ι} {setup : ι → SwitchSetup} {w w' : DiscoveryNetwork ι}
  {told : ι → List Announcement} {ts : List (Transition (DiscoveryNetwork ι) (NetworkInput ι))}

/-- A packet of a neighbour comes in where the cable to that neighbour is. -/
theorem Plugged.current_step {input : NetworkInput ι} (h : Plugged c setup w told)
    (hstep : DiscoveryNetwork.step c w input = some w') (i : ι) :
    LinksAreCables c setup i (w'.nodes i).topology.me := by
  rcases network_step_cases hstep with ⟨j, act, s', _, hact, hs, rfl⟩ |
    ⟨index, t, behind, before, after, s', x, _, hget, hx, hs, rfl⟩ | ⟨_, _, _, _, _, _, rfl⟩ | ⟨_, _, _, _, rfl⟩
  · refine forall_afterNode (P := fun i s => LinksAreCables c setup i s.topology.me) (fun portNum m hlink => ?_)
      (fun k _ => h.current k) i
    rcases linkAt_step hs hlink with hold | ⟨t, behind, pkt, _, rfl, _⟩
    · exact h.current j portNum m hold
    · exact absurd rfl (hact t behind pkt)
  · refine forall_afterNode (P := fun i s => LinksAreCables c setup i s.topology.me) (fun portNum m hlink => ?_)
      (fun k _ => h.current k) i
    rcases linkAt_step hs hlink with hold | ⟨t', behind', pkt, p, heq, hreceived, hport, hin, hmac⟩
    · exact h.current _ portNum m hold
    · obtain ⟨rfl, rfl, rfl⟩ : t = t' ∧ behind = behind' ∧ { x.2 with inPort := x.1.2 } = pkt := by
        simpa using heq
      obtain ⟨e, hcable⟩ := h.holds.cabled x (List.mem_of_getElem? hget)
      obtain ⟨a, _, hcarries⟩ := h.holds.neighbor x (List.mem_of_getElem? hget) hport
      obtain ⟨q, hq, hqmac, _⟩ := (hcarries.withPort x.1.2).received
      rw [receivedPacket, if_pos (hcarries.withPort x.1.2).1, hq] at hreceived
      rw [source_wiringOf hcable] at hqmac
      refine ⟨e, ?_, ?_⟩
      · rw [← hin]
        exact hcable
      · rw [← hmac, ← hqmac]
        exact congrArg DiscoveryPacket.srcMac (Option.some.inj hreceived)
  · exact h.current i
  · exact h.current i

theorem Plugged.step {input : NetworkInput ι} (h : Plugged c setup w told)
    (hstep : DiscoveryNetwork.step c w input = some w') :
    ∃ told', Plugged c setup w' told' ∧ ToldMore w' told told' := by
  have hcurrent := h.current_step hstep
  obtain ⟨told', htold', hmore⟩ := h.holds.step hstep
  refine ⟨told', ⟨htold', hcurrent, fun i a ha => ?_⟩, hmore⟩
  rcases hmore i with hsame | ⟨v, hnew⟩
  · exact h.announced i a (hsame ▸ ha)
  · rw [hnew] at ha
    rcases List.mem_append.mp ha with ha | ha
    · exact h.announced i a ha
    · rw [List.mem_singleton.mp ha]
      exact hcurrent i

omit [DecidableEq ι] in
theorem linkAt_init (setup : SwitchSetup) (portNum : UInt16) :
    linkAt (DiscoveryService.init setup).topology.me portNum = none := by
  show ((∅ : ExtTreeMap UInt16 (MacAddress × UInt32))[portNum]?).map _ = none
  rw [ExtTreeMap.getElem?_empty, Option.map_none]

theorem exists_plugged (hrun : Run (DiscoveryNetwork.step c) (DiscoveryNetwork.boot setup) ts w) :
    ∃ told, Plugged c setup w told := by
  induction hrun with
  | nil =>
      refine ⟨_, told_boot c setup, fun i portNum m hlink => ?_, fun _ _ ha => by cases ha⟩
      have hlink : linkAt (DiscoveryService.init (setup i)).topology.me portNum = some m := hlink
      rw [linkAt_init] at hlink
      cases hlink
  | snoc _ hstep ih =>
      obtain ⟨told, hplugged⟩ := ih
      obtain ⟨told', hplugged', _⟩ := hplugged.step hstep
      exact ⟨told', hplugged'⟩

/-! ## Paths -/

/-- The graph in which a switch looks for paths. -/
def routesOf (w : DiscoveryNetwork ι) (j : ι) : TopologyGraph := (w.nodes j).topology.toTopologyGraph

/-- A cable joins two switches with these addresses. -/
def Joined (c : Cabling ι) (setup : ι → SwitchSetup) (u v : MacAddress) : Prop :=
  ∃ i e portNum, c.cable (i, portNum) = some e ∧ (setup i).macAddr = u ∧ (setup e.1).macAddr = v

omit [DecidableEq ι] in
/-- The edges at a switch: its own links, and those of the nodes it has stored. -/
theorem linked_routesOf {j : ι} {u v : MacAddress} : Linked (routesOf w j) u v ↔
    (u = (w.nodes j).topology.me.macAddr ∧ ∃ portNum, linkAt (w.nodes j).topology.me portNum = some v) ∨
      ∃ n, (w.nodes j).topology.otherNodes[u]? = some n ∧ ∃ portNum, linkAt n portNum = some v := by
  refine or_congr (and_congr Iff.rfl hasLink_iff) ⟨?_, ?_⟩
  · rintro ⟨node, hnode, hlink⟩
    have hnode : ((w.nodes j).topology.otherNodes.map fun _ n => n.toNetworkNode)[u]? = some node := hnode
    rw [ExtTreeMap.getElem?_map] at hnode
    obtain ⟨n, hn, rfl⟩ := Option.map_eq_some_iff.mp hnode
    exact ⟨n, hn, hasLink_iff.mp hlink⟩
  · rintro ⟨n, hn, hlink⟩
    refine ⟨n.toNetworkNode, ?_, hasLink_iff.mpr hlink⟩
    show ((w.nodes j).topology.otherNodes.map fun _ n => n.toNetworkNode)[u]? = some _
    rw [ExtTreeMap.getElem?_map, hn]
    rfl

omit [DecidableEq ι] in
theorem Plugged.joined (h : Plugged c setup w told) {j : ι} {u v : MacAddress} (hlinked : Linked (routesOf w j) u v) :
    Joined c setup u v := by
  have hcable : ∀ {i : ι} {n : TopologyNode}, LinksAreCables c setup i n → (setup i).macAddr = u →
      (∃ portNum, linkAt n portNum = some v) → Joined c setup u v := by
    rintro i n hlinks hmac ⟨portNum, hlink⟩
    obtain ⟨e, he, hv⟩ := hlinks portNum v hlink
    exact ⟨i, e, portNum, he, hmac, hv⟩
  rcases linked_routesOf.mp hlinked with ⟨hme, hlink⟩ | ⟨n, hn, portNum, hlink⟩
  · exact hcable (h.current j) ((h.holds.macAddr j).symm.trans hme.symm) hlink
  · obtain ⟨i, hmac, a, ha, hdescribes⟩ := h.holds.stored j u n hn
    refine hcable (h.announced i a ha) hmac ⟨portNum, ?_⟩
    exact (hdescribes.links portNum).symm.trans hlink

/--
**Paths go along cables**: in every run of a network of switches, whatever is lost,
doubled, overtaken or forgotten, a path that `get_shortest_path` finds at a switch leads
from the source to the destination, over cables only, and past no switch twice.
-/
theorem path_along_cables (hrun : Run (DiscoveryNetwork.step c) (DiscoveryNetwork.boot setup) ts w) (j : ι)
    (fuel : Nat) (source dest : MacAddress) (path : List MacAddress)
    (hpath : (routesOf w j).getShortestPath fuel source dest = some path) :
    path = [] ∨ IsPath (Joined c setup) source dest path ∧ path.Nodup := by
  obtain ⟨told, hplugged⟩ := exists_plugged hrun
  rcases (bfs_outcome hpath).sound (sorted_follows _ _) with ⟨hnil, _⟩ | ⟨hfound, hnodup⟩
  · exact .inl hnil
  · rw [hop_eq_linked] at hfound
    exact .inr ⟨⟨hfound.head, hfound.last, hfound.hops.imp fun _ _ hlinked => hplugged.joined hlinked⟩, hnodup⟩

/-! ## Quiet networks -/

omit [DecidableEq ι] in
/-- The graph is made from the edges alone. -/
theorem toSimpleGraph_congr {t t' : TopologyGraph} (h : ∀ u v, Linked t u v ↔ Linked t' u v) :
    t.toSimpleGraph = t'.toSimpleGraph := by
  have hflows : t.toSimpleGraph.flows = t'.toSimpleGraph.flows := by
    rw [flows_toSimpleGraph, flows_toSimpleGraph]
  have hedges : t.toSimpleGraph.edges = t'.toSimpleGraph.edges := by
    refine ExtTreeMap.ext_getElem? fun u => ?_
    have hcontains : t.toSimpleGraph.edges.contains u = t'.toSimpleGraph.edges.contains u := by
      rw [Bool.eq_iff_iff, contains_edges_iff, contains_edges_iff]
      exact exists_congr (h u)
    have hmem : ∀ v, v ∈ t.toSimpleGraph.edges[u]?.getD ∅ ↔ v ∈ t'.toSimpleGraph.edges[u]?.getD ∅ := by
      intro v
      rw [← mem_neighbors, ← mem_neighbors, mem_neighbors_toSimpleGraph, mem_neighbors_toSimpleGraph]
      exact h u v
    rw [ExtTreeMap.contains_eq_isSome_getElem?, ExtTreeMap.contains_eq_isSome_getElem?] at hcontains
    cases hu : t.toSimpleGraph.edges[u]? with
    | none =>
        rw [hu, Option.isSome_none, eq_comm, Option.isSome_eq_false_iff, Option.isNone_iff_eq_none] at hcontains
        rw [hcontains]
    | some set =>
        rw [hu, Option.isSome_some, eq_comm, Option.isSome_iff_exists] at hcontains
        obtain ⟨set', hu'⟩ := hcontains
        rw [hu, hu', Option.getD_some, Option.getD_some] at hmem
        rw [hu', ExtTreeSet.ext_mem hmem]
  cases hg : t.toSimpleGraph with
  | mk edges flows =>
      cases hg' : t'.toSimpleGraph with
      | mk edges' flows' =>
          rw [hg, hg'] at hflows hedges
          rw [show edges = edges' from hedges, show flows = flows' from hflows]

omit [DecidableEq ι] in
/-- An up-to-date switch has the links of another. -/
theorem UpToDate.links {i j : ι} (h : UpToDate setup w j i) {portNum : UInt16} {v : MacAddress} :
    linkAt (w.nodes i).topology.me portNum = some v ↔
      ∃ n, (w.nodes j).topology.otherNodes[(setup i).macAddr]? = some n ∧ linkAt n portNum = some v := by
  rw [UpToDate] at h
  split at h
  · rename_i n hn
    rw [hn]
    constructor
    · intro hlink
      exact ⟨n, rfl, (h.links portNum).trans hlink⟩
    · rintro ⟨m, hm, hlink⟩
      obtain rfl := Option.some.inj hm
      exact (h.links portNum).symm.trans hlink
  · rename_i hn
    rw [hn]
    constructor
    · intro hlink
      have hlink := (h.links portNum).symm.trans hlink
      rw [← linkAt, linkAt_init] at hlink
      cases hlink
    · rintro ⟨m, hm, _⟩
      cases hm

omit [DecidableEq ι] in
/-- The edges at a switch are edges at another that is connected to it. -/
theorem Flooded.linked (h : Flooded c setup w told) (hquiet : w.inFlight = []) {i j : ι}
    (hconn : (wiringOf c).Connected i j) {u v : MacAddress}
    (hlinked : Linked (routesOf w i) u v) : Linked (routesOf w j) u v := by
  by_cases hne : j = i
  · rwa [hne]
  have hji := h.up_to_date hquiet hconn hne
  have hij := h.up_to_date hquiet hconn.symm (Ne.symm hne)
  obtain ⟨htold, f, hf⟩ := h
  refine linked_routesOf.mpr ?_
  rcases linked_routesOf.mp hlinked with ⟨hme, portNum, hlink⟩ | ⟨n, hn, portNum, hlink⟩
  · obtain ⟨n, hn, hlink⟩ := hji.links.mp hlink
    rw [hme, htold.macAddr]
    exact .inr ⟨n, hn, portNum, hlink⟩
  · obtain ⟨k, rfl, _⟩ := htold.stored i u n hn
    have hki : k ≠ i := by
      rintro rfl
      rw [(hf.knows k).notOwn] at hn
      cases hn
    by_cases hkj : k = j
    · subst hkj
      exact .inl ⟨(htold.macAddr k).symm, portNum, hij.links.mpr ⟨n, hn, hlink⟩⟩
    -- a third switch, of which both have heard the same version
    · have hempty : f.inFlight = [] := by rw [hf.copies, hquiet, List.map_nil]
      have hknown : f.known i (setup k).macAddr = f.known j (setup k).macAddr :=
        (hf.covers.agree hempty hconn _).antisymm (hf.covers.agree hempty hconn.symm _)
      have hsome : f.known i (setup k).macAddr ≠ 0 := by
        intro hzero
        rw [(hf.knows i).unknown _ hzero] at hn
        cases hn
      obtain ⟨n₁, a, ha, hn₁, hversion, hdescribes⟩ := (hf.knows i).stored k hki.symm hsome
      obtain ⟨n₂, b, hb, hn₂, hversion', hdescribes'⟩ := (hf.knows j).stored k (Ne.symm hkj) (hknown ▸ hsome)
      obtain rfl : n = n₁ := Option.some.inj (hn.symm.trans hn₁)
      obtain rfl := (hf.increasing k).eq_of_version ha hb
        (Nat.succ.inj (hversion.symm.trans (hknown.trans hversion')))
      refine .inr ⟨n₂, hn₂, portNum, ?_⟩
      exact (hdescribes'.links portNum).trans ((hdescribes.links portNum).symm.trans hlink)

/--
**Connected switches route alike**: after any run in which no packet is lost, no switch
forgets another, cabled ports stay and the clocks move on, once no packet is on its way
connected switches find the same shortest path and the same disjoint paths between any
two addresses.
-/
theorem quiet_routes_agree (hdistinct : Function.Injective fun i => (setup i).macAddr)
    (hlisted : ∀ i, Listed c i (setup i).ports)
    (hrun : Run (DiscoveryNetwork.step c) (DiscoveryNetwork.boot setup) ts w)
    (hreliable : ∀ tr ∈ ts, Reliable c tr) (hquiet : w.inFlight = []) {i j : ι}
    (hconn : (wiringOf c).Connected i j) (fuel : Nat) (source dest : MacAddress) :
    (routesOf w i).getShortestPath fuel source dest = (routesOf w j).getShortestPath fuel source dest ∧
      (routesOf w i).getDisjointPaths fuel source dest = (routesOf w j).getDisjointPaths fuel source dest := by
  obtain ⟨told, hflooded⟩ := exists_flooded hdistinct hlisted hrun hreliable
  have hgraph : (routesOf w i).toSimpleGraph = (routesOf w j).toSimpleGraph := by
    refine toSimpleGraph_congr fun u v => ⟨?_, ?_⟩
    · exact hflooded.linked hquiet hconn
    · exact hflooded.linked hquiet hconn.symm
  refine ⟨?_, ?_⟩
  · rw [getShortestPath, getShortestPath, hgraph]
  · rw [getDisjointPaths, getDisjointPaths, hgraph]

end Runs

/-- The path from one switch of a pair to the other. -/
theorem pair_path_along_cable : ∃ ts w path,
    Run (DiscoveryNetwork.step pairCabling) (DiscoveryNetwork.boot pairSetup) ts w ∧
      (routesOf w true).getShortestPath 8 (pairSetup false).macAddr (pairSetup true).macAddr = some path ∧
        path.length = 2 ∧ (path = [] ∨ IsPath (Joined pairCabling pairSetup) (pairSetup false).macAddr
          (pairSetup true).macAddr path ∧ path.Nodup) := by
  obtain ⟨ts, w, hrun, htest⟩ := Run.exists_of_test (DiscoveryNetwork.step pairCabling)
    (DiscoveryNetwork.boot pairSetup) pairInputs
    (fun _ w => ((routesOf w true).getShortestPath 8 (pairSetup false).macAddr (pairSetup true).macAddr).any
      fun path => path.length == 2) (by decide +kernel)
  obtain ⟨path, hpath, hlength⟩ := (Option.any_eq_true _ _).mp htest
  exact ⟨ts, w, path, hrun, hpath, eq_of_beq hlength, path_along_cables hrun true 8 _ _ path hpath⟩

theorem pair_routes_agree : ∃ ts w, Run (DiscoveryNetwork.step pairCabling) (DiscoveryNetwork.boot pairSetup) ts w ∧
    (w.nodes true).topology.otherNodes[(pairSetup false).macAddr]?.isSome ∧
      (routesOf w false).getShortestPath 8 (pairSetup false).macAddr (pairSetup true).macAddr =
          (routesOf w true).getShortestPath 8 (pairSetup false).macAddr (pairSetup true).macAddr ∧
        (routesOf w false).getDisjointPaths 8 (pairSetup false).macAddr (pairSetup true).macAddr =
          (routesOf w true).getDisjointPaths 8 (pairSetup false).macAddr (pairSetup true).macAddr := by
  obtain ⟨ts, w, hrun, hreliable, hquiet, hstored⟩ := pair_quiet
  exact ⟨ts, w, hrun, hstored, quiet_routes_agree pairSetup_distinct pairSetup_listed hrun hreliable hquiet
    (pairCabling_connected false) ..⟩

end IronStack.Proof
