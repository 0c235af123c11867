import IronStack.Lib.Machine
import IronStack.Lib.OrdMap
import IronStack.Lib.Stamps
import IronStack.Topology.Live

/-!
# What an update does to the known nodes

An update goes in as a whole, or not at all, if it can be deserialized, is of a node
without a name, and is later than what is known. One that cannot be deserialized goes
in as far as it was read, unless something as late is known already.
-/

namespace IronStack.Proof

open IronStack Lib Std LiveTopology

/-- The buffer that is given to `update_topology`, and for which node. -/
def receivedUpdate : TopologyInput → Option (MacAddress × Autobuf)
  | .updateNeighbor _ _ _ _ neighborMac data => some (neighborMac, data)
  | .updateTopology _ macAddr data => some (macAddr, data)
  | _ => none

/-- An update for a node is later than what is known of it, if anything is. -/
def IsLater (s : LiveTopology) (macAddr : MacAddress) (node : TopologyNode) : Prop :=
  ∀ stored, s.otherNodes[macAddr]? = some stored → stored.isNewer node

/-- Two nodes are the same in everything that is transmitted. -/
structure SameTransmitted (m n : TopologyNode) : Prop where
  macAddr : m.macAddr = n.macAddr
  ipAddr : m.ipAddr = n.ipAddr
  name : m.name = n.name
  lastRefresh : m.lastRefresh = n.lastRefresh
  seqNum : m.seqNum = n.seqNum
  ports : m.ports = n.ports
  links : m.links = n.links

/-- Updates are atomic, and versions never go back. -/
structure Atomic (tr : Transition TopologySystem TopologyInput) : Prop where
  rejected : ∀ macAddr data node, receivedUpdate tr.input = some (macAddr, data) →
    TopologyNode.deserialize data = .ok (false, node) →
    tr.target.graph.otherNodes = tr.source.graph.otherNodes
  monotone : ∀ (macAddr : MacAddress) (n n' : TopologyNode), tr.source.graph.otherNodes[macAddr]? = some n →
    tr.target.graph.otherNodes[macAddr]? = some n' → n'.isNewer n = false
  accepted : ∀ macAddr data node, receivedUpdate tr.input = some (macAddr, data) →
    TopologyNode.deserialize data = .ok (true, node) → IsLater tr.source.graph macAddr node →
    ∃ n, tr.target.graph.otherNodes[macAddr]? = some n ∧ SameTransmitted n node

/--
A buffer that is rejected comes for a node of which something as late is known, and
one that is accepted has no name in it.
-/
def Harmless (s : TopologySystem) (input : TopologyInput) : Prop :=
  ∀ macAddr data, receivedUpdate input = some (macAddr, data) →
    (∀ node, TopologyNode.deserialize data = .ok (false, node) → ¬ IsLater s.graph macAddr node) ∧
    (∀ node, TopologyNode.deserialize data = .ok (true, node) → IsLater s.graph macAddr node → node.name = "")

/-! ## `update_topology` -/

/-- What is stored of a node after an update. -/
def merged (stored : Option TopologyNode) (node : TopologyNode) (now : Nat) : TopologyNode :=
  { stored.getD {} with
    macAddr := node.macAddr
    lastRefresh := node.lastRefresh
    seqNum := node.seqNum
    ipAddr := node.ipAddr
    ports := node.ports
    links := node.links
    localRefresh := msSinceEpoch now }

section Update

variable {s s' : LiveTopology} {now : Nat} {macAddr : MacAddress} {data : Autobuf}

/-- An update is merged into what is stored if it is later, and dropped if it is not. -/
theorem updateTopology_cases (h : s.updateTopology now macAddr data = .ok s') :
    ∃ ok node, TopologyNode.deserialize data = .ok (ok, node) ∧ s'.me = s.me ∧
      ((IsLater s macAddr node ∧
          s'.otherNodes = s.otherNodes.insert macAddr (merged s.otherNodes[macAddr]? node now)) ∨
        ¬ IsLater s macAddr node ∧ s'.otherNodes = s.otherNodes) := by
  obtain ⟨⟨ok, node⟩, hread, h⟩ := bind_eq_ok.mp h
  have hlater : (s.otherNodes[macAddr]?.all (·.isNewer node)) = true ↔ IsLater s macAddr node := by
    rw [Option.all_eq_true]
    rfl
  refine ⟨ok, node, hread, ?_⟩
  dsimp only at h
  split at h
  · rename_i hall
    obtain rfl := Except.ok.inj h
    exact ⟨rfl, .inl ⟨hlater.mp hall, rfl⟩⟩
  · rename_i hall
    obtain rfl := Except.ok.inj h
    exact ⟨rfl, .inr ⟨fun hl => hall (hlater.mpr hl), rfl⟩⟩

theorem otherNodes_updateLocalPort (s : LiveTopology) (now : Nat) (p : OpenflowPort) :
    (s.updateLocalPort now p).1.otherNodes = s.otherNodes := by
  unfold updateLocalPort
  dsimp only
  split
  · rfl
  · rfl

end Update

/-- The version of a node. -/
def versionOf (n : TopologyNode) : Stamp := ⟨n.lastRefresh.toNat, n.seqNum.toNat⟩

/-- Updates are compared by their versions, in lexicographic order. -/
theorem isNewer_iff {m n : TopologyNode} : m.isNewer n ↔ (versionOf m).Before (versionOf n) := by
  simp only [TopologyNode.isNewer, Bool.or_eq_true, Bool.and_eq_true, decide_eq_true_eq, beq_iff_eq,
    Stamp.Before, versionOf, UInt32.lt_iff_toNat_lt, UInt8.lt_iff_toNat_lt, UInt32.toNat_inj]

/-- An update is not later than one that is as late. -/
theorem isNewer_eq_false {m n : TopologyNode} (h : versionOf m = versionOf n ∨ m.isNewer n) :
    n.isNewer m = false := by
  rw [← Bool.not_eq_true, isNewer_iff]
  intro hback
  rcases h with h | h
  · rw [h] at hback
    rcases hback with hback | ⟨_, hback⟩
    · exact Nat.lt_irrefl _ hback
    · exact Nat.lt_irrefl _ hback
  · rcases isNewer_iff.mp h with h | ⟨heq, h⟩
    · rcases hback with hback | ⟨hback, _⟩
      · omega
      · omega
    · rcases hback with hback | ⟨_, hback⟩
      · omega
      · omega

/-! ## Steps -/

/-- What an update does to the other nodes of a system. -/
def Updates (s s' : TopologySystem) (macAddr : MacAddress) (data : Autobuf) : Prop :=
  ∃ ok node now, TopologyNode.deserialize data = .ok (ok, node) ∧
    ((IsLater s.graph macAddr node ∧ s'.graph.otherNodes =
        s.graph.otherNodes.insert macAddr (merged s.graph.otherNodes[macAddr]? node now)) ∨
      ¬ IsLater s.graph macAddr node ∧ s'.graph.otherNodes = s.graph.otherNodes)

section Step

variable {s s' : TopologySystem} {input : TopologyInput}

/-- Other nodes change by updates, and else are only forgotten. -/
theorem otherNodes_step (hstep : TopologySystem.step s input = some s') :
    (∃ macAddr data, receivedUpdate input = some (macAddr, data) ∧ Updates s s' macAddr data) ∨
      receivedUpdate input = none ∧ ∀ (a : MacAddress) (n : TopologyNode),
        s'.graph.otherNodes[a]? = some n → s.graph.otherNodes[a]? = some n := by
  -- only the two updates write to the other nodes; the sweep filters them
  cases input with
  | updateLocalPort now modifiedPort =>
      refine .inr ⟨rfl, fun a n ha => ?_⟩
      rw [← Option.some.inj hstep] at ha
      exact otherNodes_updateLocalPort .. ▸ ha
  | updateNeighbor now refreshed sent phyPort neighborMac data =>
      refine .inl ⟨neighborMac, data, rfl, ?_⟩
      rw [TopologySystem.step] at hstep
      split at hstep
      · cases hstep
      · rename_i graph sentData hneighbor
        obtain ⟨g, hg, hsend⟩ := bind_eq_ok.mp hneighbor
        obtain ⟨ok, node, hread, _, hcases⟩ := updateTopology_cases hg
        have hnodes : s'.graph.otherNodes = g.otherNodes := by
          rw [← Option.some.inj hstep, TopologySystem.broadcast]
          dsimp only at hsend
          split at hsend
          · rw [← (Prod.mk.inj (Except.ok.inj hsend)).1]
            rfl
          · rw [← (Prod.mk.inj (Except.ok.inj hsend)).1]
        refine ⟨ok, node, refreshed, hread, ?_⟩
        rw [hnodes]
        exact hcases
  | updateTopology now macAddr data =>
      refine .inl ⟨macAddr, data, rfl, ?_⟩
      rw [TopologySystem.step] at hstep
      split at hstep
      · cases hstep
      · rename_i graph hgraph
        obtain ⟨ok, node, hread, _, hcases⟩ := updateTopology_cases hgraph
        obtain rfl := Option.some.inj hstep
        exact ⟨ok, node, now, hread, hcases⟩
  | heartbeat now sent =>
      refine .inr ⟨rfl, fun a n ha => ?_⟩
      rw [← Option.some.inj hstep] at ha
      exact ha
  | sweep now =>
      refine .inr ⟨rfl, fun a n ha => ?_⟩
      rw [← Option.some.inj hstep] at ha
      exact (Option.filter_eq_some_iff.mp (ExtTreeMap.getElem?_filter'.symm.trans ha)).1

/-- No node that is known has a name. -/
def Nameless (s : TopologySystem) : Prop :=
  ∀ (macAddr : MacAddress) (n : TopologyNode), s.graph.otherNodes[macAddr]? = some n → n.name = ""

theorem Nameless.merged (h : Nameless s) (macAddr : MacAddress) (node : TopologyNode) (now : Nat) :
    (merged s.graph.otherNodes[macAddr]? node now).name = "" := by
  show (s.graph.otherNodes[macAddr]?.getD {}).name = ""
  cases hstored : s.graph.otherNodes[macAddr]? with
  | none => rfl
  | some stored => exact h macAddr stored hstored

theorem Nameless.step (h : Nameless s) (hstep : TopologySystem.step s input = some s') : Nameless s' := by
  intro a n ha
  rcases otherNodes_step hstep with ⟨macAddr, data, _, ok, node, now, _, hcases⟩ | ⟨_, hsub⟩
  · rcases hcases with ⟨_, heq⟩ | ⟨_, heq⟩
    · rw [heq, getElem?_insert] at ha
      split at ha
      · rw [← Option.some.inj ha]
        exact h.merged macAddr node now
      · exact h a n ha
    · exact h a n (heq ▸ ha)
  · exact h a n (hsub a n ha)

/-- What is known of a node is never replaced by something earlier. -/
theorem monotone_step (hstep : TopologySystem.step s input = some s') (a : MacAddress) (n n' : TopologyNode)
    (hn : s.graph.otherNodes[a]? = some n) (hn' : s'.graph.otherNodes[a]? = some n') :
      n'.isNewer n = false := by
  have hsame : s.graph.otherNodes[a]? = some n' → n'.isNewer n = false := by
    intro h
    rw [hn] at h
    exact isNewer_eq_false (.inl (congrArg versionOf (Option.some.inj h)))
  rcases otherNodes_step hstep with ⟨macAddr, data, _, ok, node, now, _, hcases⟩ | ⟨_, hsub⟩
  · rcases hcases with ⟨hlater, heq⟩ | ⟨_, heq⟩
    · rw [heq, getElem?_insert] at hn'
      split at hn'
      · rename_i hmac
        subst hmac
        rw [← Option.some.inj hn']
        -- The version of what is stored now is that of the update.
        exact isNewer_eq_false (m := n) (n := merged _ node now) (.inr (hlater n hn))
      · exact hsame hn'
    · exact hsame (heq ▸ hn')
  · exact hsame (hsub a n' hn')

/-- A buffer that is rejected leaves the nodes as they are exactly if it would not be merged. -/
theorem Updates.rejected_iff {macAddr : MacAddress} {data : Autobuf} (h : Updates s s' macAddr data) :
    (∀ node, TopologyNode.deserialize data = .ok (false, node) → s'.graph.otherNodes = s.graph.otherNodes) ↔
      ∀ node, TopologyNode.deserialize data = .ok (false, node) → ¬ IsLater s.graph macAddr node := by
  obtain ⟨ok, read, now, hread, hcases⟩ := h
  refine forall_congr' fun node => forall_congr' fun hnode => ?_
  obtain rfl := (Prod.mk.inj (Except.ok.inj (hread.symm.trans hnode))).2
  rcases hcases with ⟨hlater, heq⟩ | ⟨hno, heq⟩
  · refine iff_of_false (fun hsame => ?_) (not_not_intro hlater)
    -- What was stored before would be what is stored now, and no update is later than itself.
    have hback : s.graph.otherNodes[macAddr]? = some (merged s.graph.otherNodes[macAddr]? read now) := by
      have hinserted : s'.graph.otherNodes[macAddr]? =
        some (merged s.graph.otherNodes[macAddr]? read now) := by
        rw [heq, getElem?_insert, if_pos rfl]
      rwa [hsame] at hinserted
    have hself := hlater _ hback
    have hnot := isNewer_eq_false (m := read) (n := merged s.graph.otherNodes[macAddr]? read now) (.inl rfl)
    rw [hnot] at hself
    cases hself
  · exact iff_of_true heq hno

/-- One that is accepted is stored whole exactly if it has no name, which is not stored. -/
theorem Updates.accepted_iff {macAddr : MacAddress} {data : Autobuf} (h : Updates s s' macAddr data)
    (hnames : Nameless s) :
    (∀ node, TopologyNode.deserialize data = .ok (true, node) → IsLater s.graph macAddr node →
      ∃ n, s'.graph.otherNodes[macAddr]? = some n ∧ SameTransmitted n node) ↔
      ∀ node, TopologyNode.deserialize data = .ok (true, node) → IsLater s.graph macAddr node →
        node.name = "" := by
  obtain ⟨ok, read, now, hread, hcases⟩ := h
  refine forall_congr' fun node => forall_congr' fun hnode => forall_congr' fun hl => ?_
  obtain rfl := (Prod.mk.inj (Except.ok.inj (hread.symm.trans hnode))).2
  rcases hcases with ⟨_, heq⟩ | ⟨hno, _⟩
  · have hstored : s'.graph.otherNodes[macAddr]? = some (merged s.graph.otherNodes[macAddr]? read now) := by
      rw [heq, getElem?_insert, if_pos rfl]
    have hname := hnames.merged macAddr read now
    rw [hstored]
    refine ⟨?_, ?_⟩
    · intro ⟨n, hn, hsame⟩
      rw [← hsame.name, ← Option.some.inj hn]
      exact hname
    · intro hread_name
      exact ⟨_, rfl, rfl, rfl, hname.trans hread_name.symm, rfl, rfl, rfl, rfl⟩
  · exact absurd hl hno

/-- For one step. -/
theorem atomic_step_iff (hnames : Nameless s) (hstep : TopologySystem.step s input = some s') :
    Atomic ⟨s, input, s'⟩ ↔ Harmless s input := by
  rcases otherNodes_step hstep with ⟨macAddr, data, hreceived, hupdates⟩ | ⟨hnone, _⟩
  -- a step receives one update, and that deserializes in one way
  · have hsame : ∀ {a d}, receivedUpdate input = some (a, d) → a = macAddr ∧ d = data := fun h => by
      have heq := Option.some.inj (hreceived.symm.trans h)
      exact ⟨(Prod.mk.inj heq).1.symm, (Prod.mk.inj heq).2.symm⟩
    have hrejected := hupdates.rejected_iff
    have haccepted := hupdates.accepted_iff hnames
    refine ⟨fun hatomic a d hr => ?_,
      fun hharmless => ⟨fun a d n hr => ?_, monotone_step hstep, fun a d n hr => ?_⟩⟩
    · obtain ⟨rfl, rfl⟩ := hsame hr
      exact ⟨hrejected.mp fun n => hatomic.rejected a d n hr, haccepted.mp fun n => hatomic.accepted a d n hr⟩
    · obtain ⟨rfl, rfl⟩ := hsame hr
      exact hrejected.mpr (hharmless a d hr).1 n
    · obtain ⟨rfl, rfl⟩ := hsame hr
      exact haccepted.mpr (hharmless a d hr).2 n
  · refine ⟨fun _ a d hr => ?_, fun _ => ⟨fun a d n hr => ?_, monotone_step hstep, fun a d n hr => ?_⟩⟩
    · rw [hnone] at hr
      cases hr
    · rw [hnone] at hr
      cases hr
    · rw [hnone] at hr
      cases hr

end Step

/--
**Updates are atomic and versions monotone exactly in the runs where every buffer that
is rejected comes for a node of which something as late is known, and every one that is
accepted has no name in it.**
-/
theorem atomic_iff {macAddr : MacAddress} {ipAddr : IpAddress} {name : String} {ports : List OpenflowPort}
    {ts : List (Transition TopologySystem TopologyInput)} {s : TopologySystem}
    (hrun : Run TopologySystem.step ⟨.init macAddr ipAddr name ports, []⟩ ts s) :
    (∀ tr ∈ ts, Atomic tr) ↔ ∀ tr ∈ ts, Harmless tr.source tr.input := by
  have hstart : Nameless ⟨.init macAddr ipAddr name ports, []⟩ := by
    intro a n ha
    have ha : (∅ : ExtTreeMap MacAddress TopologyNode)[a]? = some n := ha
    rw [ExtTreeMap.getElem?_empty] at ha
    cases ha
  exact hrun.forall_good_iff Nameless (fun _ => True) hstart trivial
    (fun _ _ _ hnames hstep => hnames.step hstep) (fun _ _ _ _ _ _ _ => trivial)
    fun _ _ _ hnames _ hstep => atomic_step_iff hnames hstep

/-- An update of a node that has neither a name nor links, at time 1. -/
def plainUpdate : Autobuf := .ofBytes (TopologyNode.serialize { lastRefresh := 1 })

/-- It is accepted as a whole. -/
theorem atomic_plainUpdate : ∃ ts s,
    Run TopologySystem.step ⟨.init MacAddress.nil IpAddress.nil "" [], []⟩ ts s ∧
    s.graph.otherNodes.size = 1 ∧ ∀ tr ∈ ts, Atomic tr := by
  have hread : TopologyNode.deserialize plainUpdate = .ok (true, { lastRefresh := 1 }) := by rfl
  have hstep : TopologySystem.step ⟨.init MacAddress.nil IpAddress.nil "" [], []⟩
      (.updateTopology 0 MacAddress.nil plainUpdate) = some _ := rfl
  refine ⟨_, _, .snoc .nil hstep, rfl, (atomic_iff (.snoc .nil hstep)).mpr fun tr htr => ?_⟩
  rw [List.mem_singleton.mp htr]
  intro a d hr
  obtain ⟨rfl, rfl⟩ := Prod.mk.inj (Option.some.inj hr)
  refine ⟨fun node hnode => ?_, fun node hnode _ => ?_⟩
  · rw [hread] at hnode
    cases hnode
  · rw [hread] at hnode
    rw [← (Prod.mk.inj (Except.ok.inj hnode)).2]

/-- An empty buffer is rejected, and makes a node known of which nothing else is. -/
theorem empty_update_inserts : ∃ ts s, Run TopologySystem.step
    ⟨.init MacAddress.nil IpAddress.nil "" [], []⟩ ts s ∧ ¬ ∀ tr ∈ ts, Atomic tr := by
  have hread : TopologyNode.deserialize (.ofBytes []) = .ok (false, {}) := rfl
  have hstep : TopologySystem.step ⟨.init MacAddress.nil IpAddress.nil "" [], []⟩
      (.updateTopology 0 MacAddress.nil (.ofBytes [])) = some _ := rfl
  refine ⟨_, _, .snoc .nil hstep, fun hall => ?_⟩
  have hrejected := (hall _ (List.mem_singleton.mpr rfl)).rejected MacAddress.nil _ {} rfl hread
  have hmem := congrArg (fun m : ExtTreeMap MacAddress TopologyNode => m.contains MacAddress.nil) hrejected
  exact absurd hmem (by decide)

end IronStack.Proof
