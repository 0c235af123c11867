import IronStack.Proof.Network
import IronStack.Proof.Topology

/-!
# Switches that agree

Discovery broadcasts are flooded: as long as no packet is lost and versions increase,
a switch knows of every other one what that one last said of itself, once no packet is
on its way between them. So switches that are connected look for paths in one graph.
-/

namespace IronStack.Proof

open IronStack Lib Lib.Flood Std DiscoveryService DiscoveryNetwork

variable {ι : Type}

/-- A version that is known of, with 0 for none. -/
def rank : Option Nat → Nat
  | none => 0
  | some v => v + 1

/-- The copy of a version that a packet is. -/
def copyOf (x : (ι × UInt16) × UdpPacket) : Copy (ι × UInt16) MacAddress Nat :=
  match DiscoveryPacket.deserialize x.2.udpPayload with
  | .ok (some p) => ⟨x.1, p.srcMac, (broadcastOf p).version + 1⟩
  | _ => ⟨x.1, MacAddress.nil, 0⟩

theorem copyOf_of_conveys {x : (ι × UInt16) × UdpPacket} {m : MacAddress} {a : Announcement}
    (h : Conveys x.2 m a) : copyOf x = ⟨x.1, m, a.version + 1⟩ := by
  obtain ⟨p, hread, hmac, hversion, _⟩ := h.received
  rw [copyOf, hread]
  dsimp only
  rw [hmac, hversion]

/-- The announcements of a switch have later and later versions. -/
def Increasing (l : List Announcement) : Prop :=
  l.Pairwise fun a b => a.version < b.version ∧ (versionOf a.node).Before (versionOf b.node)

theorem Increasing.eq_or_lt_last {l : List Announcement} (h : Increasing l) {a : Announcement} (ha : a ∈ l) :
    ∃ b, l.getLast? = some b ∧ (a = b ∨ a.version < b.version) := by
  rcases List.eq_nil_or_concat l with rfl | ⟨l, b, rfl⟩
  · cases ha
  · rw [List.concat_eq_append] at h ha ⊢
    refine ⟨b, List.getLast?_concat, ?_⟩
    rcases List.mem_append.mp ha with ha | ha
    · exact .inr ((List.pairwise_append.mp h).2.2 a ha b (List.mem_singleton.mpr rfl)).1
    · exact .inl (List.mem_singleton.mp ha)

theorem before_asymm {s t : Stamp} (h : s.Before t) : ¬ t.Before s := by
  unfold Stamp.Before at *
  omega

/-- Of two announcements, the broadcast is later whenever the node is, and the other way round. -/
theorem Increasing.before_iff {l : List Announcement} (h : Increasing l) {a b : Announcement} (ha : a ∈ l)
    (hb : b ∈ l) : (versionOf a.node).Before (versionOf b.node) ↔ a.version < b.version := by
  induction h with
  | nil => cases ha
  | @cons x l hx _ ih =>
      rcases List.mem_cons.mp ha with rfl | hal
      · rcases List.mem_cons.mp hb with rfl | hbl
        · exact iff_of_false (fun h => before_asymm h h) (lt_irrefl _)
        · exact iff_of_true (hx b hbl).2 (hx b hbl).1
      · rcases List.mem_cons.mp hb with rfl | hbl
        · exact iff_of_false (before_asymm (hx a hal).2) (hx a hal).1.not_gt
        · exact ih hal hbl

theorem Increasing.eq_of_version {l : List Announcement} (h : Increasing l) {a b : Announcement} (ha : a ∈ l)
    (hb : b ∈ l) (hversion : a.version = b.version) : a = b := by
  induction h with
  | nil => cases ha
  | @cons x l hx _ ih =>
      rcases List.mem_cons.mp ha with rfl | hal
      · rcases List.mem_cons.mp hb with rfl | hbl
        · rfl
        · exact absurd hversion (hx b hbl).1.ne
      · rcases List.mem_cons.mp hb with rfl | hbl
        · exact absurd hversion.symm (hx a hal).1.ne
        · exact ih hal hbl

/-- The ports with a cable are ports of the switch, and not reserved ones. -/
def Listed (c : Cabling ι) (i : ι) (ports : List OpenflowPort) : Prop :=
  ∀ portNum e, c.cable (i, portNum) = some e → portNum ≤ 0xff00 ∧ ∃ p ∈ ports, p.portNumber = portNum

/-- Copies to the ports of a switch go over all its cables, except those spared that the ports leave out. -/
theorem spreads_copiesTo {c : Cabling ι} {i : ι} {ports : List OpenflowPort} {pkt : UdpPacket} {m : MacAddress}
    {a : Announcement} (hcarries : Conveys pkt m a) {spared : ι × UInt16 → Prop}
    (hports : ∀ e portNum, c.cable (i, portNum) = some e → ¬ spared e →
      ∃ p ∈ ports, p.portNumber = portNum ∧ portNum ≤ 0xff00) :
    Spreads (wiringOf c) i m (a.version + 1) spared ((onCables c i (copiesTo ports pkt)).map copyOf) where
  from_node := by
    intro d hd
    obtain ⟨x, hx, rfl⟩ := List.mem_map.mp hd
    obtain ⟨hpkt, p, _, _, hcable⟩ := mem_onCables_copiesTo hx
    rw [copyOf_of_conveys (hpkt.symm ▸ hcarries)]
    exact ⟨source_wiringOf hcable, rfl, rfl⟩
  everywhere := by
    intro e hsource htarget hspared
    have hcable : ∃ port, c.cable e = some port := by
      cases h : c.cable e with
      | some port => exact ⟨port, rfl⟩
      | none =>
          have hsource : ((c.cable e).getD e).1 = i := hsource
          rw [h, Option.getD_none] at hsource
          exact absurd hsource htarget
    obtain ⟨⟨j, portNum⟩, hcable⟩ := hcable
    obtain rfl : j = i := (source_wiringOf hcable).symm.trans hsource
    obtain ⟨p, hp, hnum, hle⟩ := hports e portNum (c.symm _ _ hcable) hspared
    have hx : (e, pkt) ∈ onCables c j (copiesTo ports pkt) := by
      refine List.mem_filterMap.mpr ⟨(p.portNumber, pkt), List.mem_map.mpr ⟨p, ?_, rfl⟩, ?_⟩
      · exact List.mem_filter.mpr ⟨hp, by rw [hnum]; exact decide_eq_true hle⟩
      · rw [hnum, c.symm _ _ hcable]
        rfl
    refine ⟨copyOf (e, pkt), List.mem_map_of_mem hx, ?_⟩
    rw [copyOf_of_conveys (x := (e, pkt)) hcarries]

/-! ## The flood of announcements -/

/-- What a switch has of the others, when `known` are the versions it knows of. -/
structure Knows (c : Cabling ι) (setup : ι → SwitchSetup) (told : ι → List Announcement)
    (known : MacAddress → Nat) (j : ι) (s : DiscoveryService) : Prop where
  listed : Listed c j s.switchPorts
  /-- A cleanup may have forgotten what was seen. -/
  seen : ∀ m, m ≠ (setup j).macAddr → rank (seenVersion s m) ≤ known m
  unknown : ∀ m, known m = 0 → s.topology.otherNodes[m]? = none
  notOwn : s.topology.otherNodes[(setup j).macAddr]? = none
  stored : ∀ i, j ≠ i → known (setup i).macAddr ≠ 0 → ∃ n, ∃ a ∈ told i,
    s.topology.otherNodes[(setup i).macAddr]? = some n ∧ known (setup i).macAddr = a.version + 1 ∧
      Depicts n a.node

/--
What the switches know of each other floods the network: `f` has the versions that are
known of every switch, and those that are on their way.
-/
structure Floods (c : Cabling ι) (setup : ι → SwitchSetup) (nodes : ι → DiscoveryService)
    (flight : List ((ι × UInt16) × UdpPacket)) (told : ι → List Announcement)
    (f : Flood ι (ι × UInt16) MacAddress Nat) : Prop where
  copies : f.inFlight = flight.map copyOf
  covers : Covers (wiringOf c) f
  knows : ∀ j, Knows c setup told (f.known j) j (nodes j)
  own : ∀ i, f.known i (setup i).macAddr = rank ((told i).getLast?.map Announcement.version)
  increasing : ∀ i, Increasing (told i)

variable {c : Cabling ι} {setup : ι → SwitchSetup} {nodes : ι → DiscoveryService}
  {flight rest : List ((ι × UInt16) × UdpPacket)} {told : ι → List Announcement}
  {f : Flood ι (ι × UInt16) MacAddress Nat} {i : ι} {s s' : DiscoveryService} {known : MacAddress → Nat}

/-- A switch knows no less when more is announced. -/
theorem Knows.mono {told' : ι → List Announcement} (h : Knows c setup told known i s)
    (hmore : ∀ j, ∀ a ∈ told j, a ∈ told' j) : Knows c setup told' known i s where
  listed := h.listed
  seen := h.seen
  unknown := h.unknown
  notOwn := h.notOwn
  stored := by
    intro j hj hknown
    obtain ⟨n, a, ha, hn, hle, hdescribes⟩ := h.stored j hj hknown
    exact ⟨n, a, hmore j a ha, hn, hle, hdescribes⟩

/-- A switch that says something new knows the same of the others. -/
theorem Knows.own_version (h : Knows c setup told known i s)
    (hdistinct : Function.Injective fun i => (setup i).macAddr) (v : Nat) :
    Knows c setup told (Function.update known (setup i).macAddr v) i s where
  listed := h.listed
  seen := by
    intro m hm
    rw [Function.update_of_ne hm]
    exact h.seen m hm
  unknown := by
    intro m hm
    by_cases hown : m = (setup i).macAddr
    · rw [hown]
      exact h.notOwn
    · rw [Function.update_of_ne hown] at hm
      exact h.unknown m hm
  notOwn := h.notOwn
  stored := by
    intro j hj hknown
    have hne : (setup j).macAddr ≠ (setup i).macAddr := fun heq => hj (hdistinct heq).symm
    rw [Function.update_of_ne hne] at hknown ⊢
    exact h.stored j hj hknown

/-- A version that comes in is the first or a later one, unless one as late is known. -/
theorem rank_le_of_not_first {p : DiscoveryPacket} (hmac : p.srcMac ≠ s.switchMac)
    (h : (s.firstTimeSeen p).2 = false) : (broadcastOf p).version + 1 ≤ rank (seenVersion s p.srcMac) := by
  have hnot := mt firstTimeSeen_iff.mpr (Bool.not_eq_true _ ▸ h)
  cases hseen : seenVersion s p.srcMac with
  | none => exact absurd ⟨hmac, fun v hv => by rw [hseen] at hv; cases hv⟩ hnot
  | some u =>
      refine Nat.succ_le_succ (Nat.le_of_not_lt fun hlt => hnot ⟨hmac, fun v hv => ?_⟩)
      rw [hseen] at hv
      rwa [← Option.some.inj hv]

theorem rank_keepLatest (seen : Option Nat) (v : Nat) :
    rank (keepLatest seen (.offer v)) = max (rank seen) (v + 1) := by
  cases seen with
  | none => exact (Nat.zero_max _).symm
  | some u =>
      rw [keepLatest]
      split
      · exact (max_eq_right (show u + 1 ≤ v + 1 by omega)).symm
      · exact (max_eq_left (show v + 1 ≤ u + 1 by omega)).symm

/-- An announcement of another switch comes in. -/
theorem Knows.receive {j : ι} (h : Knows c setup told known j s)
    (hdistinct : Function.Injective fun i => (setup i).macAddr) (hincreasing : Increasing (told i)) (hne : j ≠ i)
    (hmac : s.switchMac = (setup j).macAddr) {a : Announcement} (ha : a ∈ told i) {p : DiscoveryPacket}
    (hp : p.srcMac = (setup i).macAddr) (hversion : (broadcastOf p).version = a.version)
    (hsame : SameSeen (s.firstTimeSeen p).1 s') (hports : s'.switchPorts = s.switchPorts)
    (hothers : Learns s.topology s'.topology (setup i).macAddr a.node ∨
      (s.firstTimeSeen p).2 = false ∧ s'.topology.otherNodes = s.topology.otherNodes) :
    Knows c setup told
      (Function.update known (setup i).macAddr (max (known (setup i).macAddr) (a.version + 1))) j s' := by
  have hmacs : (setup i).macAddr ≠ (setup j).macAddr := fun heq => hne (hdistinct heq).symm
  have helse : ∀ m, m ≠ (setup i).macAddr → s'.topology.otherNodes[m]? = s.topology.otherNodes[m]? := by
    intro m hm
    rcases hothers with (⟨_, now, heq⟩ | ⟨_, heq⟩) | ⟨_, heq⟩
    · rw [heq, getElem?_insert, if_neg hm.symm]
    · rw [heq]
    · rw [heq]
  refine ⟨hports ▸ h.listed, fun m hm => ?_, fun m hm => ?_, ?_, fun k hk hknown => ?_⟩
  · rw [hsame.seenVersion, seenVersion_firstTimeSeen (hmac ▸ hm), hp]
    by_cases hmi : (setup i).macAddr = m
    · subst hmi
      rw [if_pos rfl, Function.update_self, rank_keepLatest, hversion]
      exact max_le_max (h.seen _ hm) le_rfl
    · rw [if_neg hmi, Function.update_of_ne (Ne.symm hmi)]
      exact h.seen m hm
  · by_cases hmi : m = (setup i).macAddr
    · rw [hmi, Function.update_self] at hm
      exact absurd (le_max_right (known _) (a.version + 1)) (by rw [hm]; omega)
    · rw [Function.update_of_ne hmi] at hm
      rw [helse m hmi]
      exact h.unknown m hm
  · rw [helse _ hmacs.symm]
    exact h.notOwn
  · by_cases hki : k = i
    -- what the announcement is of
    · subst hki
      rw [Function.update_self]
      -- what was known of it, if anything
      have hold : ∀ n, s.topology.otherNodes[(setup k).macAddr]? = some n → ∃ b ∈ told k,
          known (setup k).macAddr = b.version + 1 ∧ Depicts n b.node := by
        intro n hn
        have hsome : known (setup k).macAddr ≠ 0 := by
          intro hzero
          rw [h.unknown _ hzero] at hn
          cases hn
        obtain ⟨m, b, hb, hm, hle, hdescribes⟩ := h.stored k hk hsome
        rw [hm] at hn
        rw [← Option.some.inj hn]
        exact ⟨b, hb, hle, hdescribes⟩
      rcases hothers with (⟨hlater, now, heq⟩ | ⟨hnot, heq⟩) | ⟨hseen, heq⟩
      · refine ⟨_, a, ha, by rw [heq, getElem?_insert, if_pos rfl], max_eq_right ?_, depicts_merged ..⟩
        by_contra hlt
        obtain ⟨n, b, hb, hn, hversion, hdescribes⟩ := h.stored k hk (by omega)
        have hbefore := isNewer_iff.mp (hlater n hn)
        rw [hdescribes.versionOf] at hbefore
        have := (hincreasing.before_iff hb ha).mp hbefore
        omega
      · unfold IsLater at hnot
        push Not at hnot
        obtain ⟨n, hn, hnewer⟩ := hnot
        obtain ⟨b, hb, hversion, hdescribes⟩ := hold n hn
        refine ⟨n, b, hb, heq ▸ hn, ?_, hdescribes⟩
        rw [Ne, isNewer_iff, hdescribes.versionOf] at hnewer
        have := mt (hincreasing.before_iff hb ha).mpr hnewer
        rw [hversion, max_eq_left (by omega)]
      · have hle := rank_le_of_not_first (by rw [hp, hmac]; exact hmacs) hseen
        rw [hversion, hp] at hle
        have hknows := hle.trans (h.seen _ hmacs)
        rw [max_eq_left hknows, heq]
        exact h.stored k hk (by omega)
    · have hmk : (setup k).macAddr ≠ (setup i).macAddr := fun heq => hki (hdistinct heq)
      rw [Function.update_of_ne hmk] at hknown ⊢
      rw [helse _ hmk]
      exact h.stored k hk hknown

/-- A sweep finds nothing stale. -/
def FindsNothing (s : DiscoveryService) (now : Nat) : Prop :=
  ∀ (m : MacAddress) (n : TopologyNode), s.topology.otherNodes[m]? = some n →
    isStale (msSinceEpoch now) n.localRefresh = false

/-- What is known of others stays as it is, unless a packet comes in or a sweep finds something stale. -/
theorem act_keeps {act : DiscoveryInput} (hstep : s.step act = some s')
    (hact : ∀ t behind pkt, act ≠ .receive t behind pkt) (hsweep : ∀ now, act = .sweep now → FindsNothing s now) :
    s'.switchPorts = newPorts s act ∧ s'.topology.otherNodes = s.topology.otherNodes ∧
      ∀ m, rank (seenVersion s' m) ≤ rank (seenVersion s m) := by
  cases act with
  | receive t behind pkt => exact absurd rfl (hact t behind pkt)
  | sweep now =>
      obtain rfl := Option.some.inj hstep
      refine ⟨rfl, ExtTreeMap.ext_getElem? fun m => ?_, fun m => le_rfl⟩
      refine ExtTreeMap.getElem?_filter'.trans ?_
      cases hn : s.topology.otherNodes[m]? with
      | none => rfl
      | some n =>
          rw [Option.filter_some, hsweep now rfl m n hn]
          rfl
  | clean now =>
      obtain rfl := Option.some.inj hstep
      refine ⟨rfl, rfl, fun m => ?_⟩
      rw [seenVersion_clean]
      split
      · split
        · exact Nat.zero_le _
        · exact le_rfl
      · exact le_rfl
  | portModified switchPorts updated stamped phyPort =>
      have hsame := sameSeen_discoveryPortHandler { s with switchPorts := switchPorts } updated stamped phyPort
      obtain rfl := Option.some.inj hstep
      refine ⟨?_, ?_, fun m => ?_⟩
      · rw [discoveryPortHandler]
        split
        · rfl
        · split
          · rfl
          · exact switchPorts_withTopology ..
      · rw [discoveryPortHandler]
        split
        · rfl
        · split
          · rfl
          · dsimp only
            rw [topology_withTopology, otherNodes_updateLocalPort]
      · rw [hsame.seenVersion]
        exact le_rfl
  | heartbeat now updated stamped =>
      have hsame := sameSeen_withTopology s (s.topology.heartbeat now updated).1 stamped
        (some (s.topology.heartbeat now updated).2)
      obtain rfl := Option.some.inj hstep
      refine ⟨switchPorts_withTopology .., ?_, fun m => ?_⟩
      · dsimp only
        rw [topology_withTopology]
      · exact (congrArg rank (hsame.seenVersion m)).le

/-- The ports of a switch may change, and seen broadcasts may be forgotten. -/
theorem Knows.act (h : Knows c setup told known i s) (hlisted : Listed c i s'.switchPorts)
    (hothers : s'.topology.otherNodes = s.topology.otherNodes)
    (hseen : ∀ m, rank (seenVersion s' m) ≤ rank (seenVersion s m)) : Knows c setup told known i s' where
  listed := hlisted
  seen := fun m hm => (hseen m).trans (h.seen m hm)
  unknown := by
    rw [hothers]
    exact h.unknown
  notOwn := by
    rw [hothers]
    exact h.notOwn
  stored := by
    rw [hothers]
    exact h.stored

section Steps

variable [DecidableEq ι]

omit [DecidableEq ι] in
/-- A switch knows the versions of its own announcements. -/
theorem Floods.own_known (h : Floods c setup nodes flight told f) {a : Announcement} (ha : a ∈ told i) :
    a.version + 1 ≤ f.known i (setup i).macAddr := by
  obtain ⟨b, hb, hle⟩ := (h.increasing i).eq_or_lt_last ha
  rw [h.own, hb, Option.map_some]
  refine Nat.succ_le_succ ?_
  rcases hle with rfl | hlt
  · exact le_rfl
  · exact hlt.le

/-- What a switch knows after a step, and the others as before. -/
theorem knows_learn {told' : ι → List Announcement} {m : MacAddress} {v : Nat}
    (hself : Knows c setup told' (Function.update (f.known i) m v) i s')
    (hothers : ∀ j ≠ i, Knows c setup told' (f.known j) j (nodes j)) (j : ι) :
    Knows c setup told' (f.learn i m v j) j (Function.update nodes i s' j) := by
  rw [learn]
  by_cases hj : j = i
  · subst hj
    rwa [Function.update_self, Function.update_self]
  · rw [Function.update_of_ne hj, Function.update_of_ne hj]
    exact hothers j hj

/-- A step at which nothing comes in, before the switch says anything. -/
theorem Floods.act (h : Floods c setup nodes flight told f) (hknows : Knows c setup told (f.known i) i s') :
    Floods c setup (Function.update nodes i s') flight told f where
  copies := h.copies
  covers := h.covers
  knows := by
    intro j
    by_cases hj : j = i
    · subst hj
      rwa [Function.update_self]
    · rw [Function.update_of_ne hj]
      exact h.knows j
  own := h.own
  increasing := h.increasing

/-- A reception, before the switch says anything of itself. -/
theorem Floods.arrive {before after out : List ((ι × UInt16) × UdpPacket)} {x : (ι × UInt16) × UdpPacket}
    {a : Announcement} (h : Floods c setup nodes (before ++ x :: after) told f)
    (hdistinct : Function.Injective fun i => (setup i).macAddr) (ha : a ∈ told i)
    (hcarries : Conveys x.2 (setup i).macAddr a)
    (hout : (a.version + 1 ≤ f.known x.1.1 (setup i).macAddr ∧ out = []) ∨
      Spreads (wiringOf c) x.1.1 (setup i).macAddr (a.version + 1) (· = (wiringOf c).reverse x.1) (out.map copyOf))
    (hknows : Knows c setup told (Function.update (f.known x.1.1) (setup i).macAddr
      (max (f.known x.1.1 (setup i).macAddr) (a.version + 1))) x.1.1 s') :
    ∃ f', Floods c setup (Function.update nodes x.1.1 s') (before ++ after ++ out) told f' := by
  have hcopy := copyOf_of_conveys hcarries
  have hflight : f.inFlight = before.map copyOf ++ copyOf x :: after.map copyOf := by
    rw [h.copies, List.map_append, List.map_cons]
  refine ⟨⟨f.learn x.1.1 (setup i).macAddr (max (f.known x.1.1 (setup i).macAddr) (a.version + 1)),
    before.map copyOf ++ after.map copyOf ++ out.map copyOf⟩, ?_, ?_, knows_learn hknows
    fun j _ => h.knows j, fun j => ?_, h.increasing⟩
  · rw [List.map_append, List.map_append]
  · rw [hcopy] at hflight
    refine h.covers.receive hflight (hout.imp_left fun hdrop => ⟨hdrop.1, ?_⟩)
    rw [hdrop.2]
    rfl
  · dsimp only
    by_cases hown : j = x.1.1 ∧ (setup j).macAddr = (setup i).macAddr
    -- an announcement of its own is not later than its last
    · obtain ⟨rfl, hmac⟩ := hown
      obtain rfl := hdistinct hmac
      rw [learn_self, max_eq_left (h.own_known ha)]
      exact h.own x.1.1
    · rw [learn_of_ne f _ hown]
      exact h.own j

/-- A switch says what it is. -/
theorem Floods.announce {ports : List OpenflowPort} {pkt : UdpPacket} {a : Announcement}
    (h : Floods c setup nodes flight told f) (hdistinct : Function.Injective fun i => (setup i).macAddr)
    (hports : ports = (nodes i).switchPorts) (hcarries : Conveys pkt (setup i).macAddr a)
    (hlater : ∀ b ∈ told i, b.version < a.version ∧ (versionOf b.node).Before (versionOf a.node)) :
    ∃ f', Floods c setup nodes (flight ++ onCables c i (copiesTo ports pkt)) (tellMore told i a) f' := by
  have hmore : ∀ j, ∀ b ∈ told j, b ∈ tellMore told i a j := fun _ _ hb => mem_tellMore hb
  have hknown : f.known i (setup i).macAddr ≤ a.version + 1 := by
    rw [h.own]
    cases hlast : (told i).getLast? with
    | none => exact Nat.zero_le _
    | some b => exact Nat.succ_le_succ (hlater b (List.mem_of_getLast? hlast)).1.le
  refine ⟨⟨f.learn i (setup i).macAddr (a.version + 1),
    f.inFlight ++ (onCables c i (copiesTo ports pkt)).map copyOf⟩, ?_, ?_, fun j => ?_, fun j => ?_, fun j => ?_⟩
  · rw [List.map_append, h.copies]
  · refine h.covers.step (.originate hknown (spreads_copiesTo hcarries fun e portNum hcable _ => ?_))
    obtain ⟨hle, p, hp, hnum⟩ := (h.knows i).listed portNum e hcable
    exact ⟨p, hports ▸ hp, hnum, hle⟩
  · have hself := ((h.knows i).own_version hdistinct (a.version + 1)).mono hmore
    have hknows := knows_learn hself (fun j _ => (h.knows j).mono hmore) j
    rwa [Function.update_eq_self] at hknows
  · dsimp only
    by_cases hj : j = i
    · subst hj
      rw [learn_self, tellMore_self, List.getLast?_concat]
      rfl
    · rw [learn_of_ne f _ fun heq => hj heq.1, tellMore_of_ne told _ hj]
      exact h.own j
  · by_cases hj : j = i
    · subst hj
      rw [tellMore_self]
      refine List.pairwise_append.mpr ⟨h.increasing j, List.pairwise_singleton _ _, fun b hb d hd => ?_⟩
      rw [List.mem_singleton.mp hd]
      exact hlater b hb
    · rw [tellMore_of_ne told _ hj]
      exact h.increasing j

/-! ## Steps -/

/-- The clock has moved on since the last update, as far as the next one needs for a later version. -/
structure Advances (s : DiscoveryService) (updated stamped : Nat) : Prop where
  refreshed : s.topology.me.lastRefresh < msSinceEpoch updated ∨ s.topology.me.seqNum ≠ 255
  timestamp : s.lastTimestamp < msSinceEpoch stamped ∨
    s.lastTimestamp = msSinceEpoch stamped ∧ s.nextSeqNum ≠ 0

theorem Advances.before_next {updated stamped : Nat} (h : Advances s updated stamped) :
    (versionOf s.topology.me).Before ((versionOf s.topology.me).next 256 (msSinceEpoch updated).toNat) := by
  rw [Stamp.next]
  by_cases htime : (versionOf s.topology.me).time < (msSinceEpoch updated).toNat
  · rw [if_pos htime]
    exact .inl htime
  · rw [if_neg htime]
    rcases h.refreshed with hlt | hne
    · exact absurd (UInt32.lt_iff_toNat_lt.mp hlt) htime
    · have hlt := UInt8.toNat_lt s.topology.me.seqNum
      have hne : s.topology.me.seqNum.toNat ≠ 255 := fun heq => hne (UInt8.toNat_inj.mp heq)
      refine .inr ⟨rfl, ?_⟩
      show s.topology.me.seqNum.toNat < (s.topology.me.seqNum.toNat + 1) % 256
      omega

theorem Advances.lt_newVersion {updated stamped : Nat} (h : Advances s updated stamped) :
    versionNumber s.lastTimestamp (s.nextSeqNum - 1) < newVersion s stamped := by
  rw [newVersion, versionNumber_lt_iff]
  rcases h.timestamp with hlt | ⟨heq, hne⟩
  · exact .inl hlt
  · refine .inr ⟨heq.symm, ?_⟩
    rw [newSeqNum, if_neg (not_not_intro heq.symm), UInt8.lt_iff_toNat_lt]
    have hpos : s.nextSeqNum.toNat ≠ 0 := fun hzero => hne (UInt8.toNat_inj.mp hzero)
    have hle : (1 : UInt8) ≤ s.nextSeqNum := UInt8.le_iff_toNat_le.mpr (Nat.one_le_iff_ne_zero.mpr hpos)
    rw [UInt8.toNat_sub_of_le _ _ hle]
    exact Nat.sub_lt (Nat.pos_of_ne_zero hpos) Nat.one_pos

/-- What a switch says at a step is later than all it has said. -/
theorem Floods.speak {w : DiscoveryNetwork ι} {act : DiscoveryInput} {forwarded : List (UInt16 × UdpPacket)}
    (h : Floods c setup (Function.update w.nodes i s') (rest ++ onCables c i forwarded) told f)
    (hdistinct : Function.Injective fun i => (setup i).macAddr) (htold : Told c setup w told)
    (hhandles : Handles c setup w told rest i s' forwarded) (hspeaks : Speaks (w.nodes i) s' act forwarded)
    (hadvances : ∀ updated stamped, sendingTimes act = some (updated, stamped) →
      Advances (w.nodes i) updated stamped) :
    ∃ told' f', Told c setup (afterNode c w rest i s') told' ∧
      Floods c setup (afterNode c w rest i s').nodes (afterNode c w rest i s').inFlight told' f' := by
  obtain ⟨hmac, haddr, ⟨hsame, hsent, htime, hseq⟩ |
    ⟨updated, stamped, pkt, htimes, hnode, hsent, hcarries, htime, hseq⟩⟩ := hspeaks
  · refine ⟨told, f, htold.keep hhandles hsent hmac haddr hsame htime hseq, ?_⟩
    rw [afterNode, emitted_eq c i hsent]
    exact h
  · have hadv := hadvances updated stamped htimes
    have hversion : newVersion (w.nodes i) stamped = versionNumber s'.lastTimestamp (s'.nextSeqNum - 1) := by
      rw [htime, hseq, newVersion, UInt8.add_sub_cancel]
    have hlater : ∀ b ∈ told i, b.version < newVersion (w.nodes i) stamped ∧
        (versionOf b.node).Before (versionOf s'.topology.me) := by
      intro b hb
      obtain ⟨d, hd, hle⟩ := (h.increasing i).eq_or_lt_last hb
      obtain ⟨hlast, hlastVersion⟩ := htold.last i d hd
      have hnewer : d.version < newVersion (w.nodes i) stamped := hlastVersion ▸ hadv.lt_newVersion
      have hbefore : (versionOf d.node).Before (versionOf s'.topology.me) := by
        rw [hnode, versionOf, hlast.lastRefresh, hlast.seqNum]
        exact hadv.before_next
      rcases hle with rfl | hlt
      · exact ⟨hnewer, hbefore⟩
      · exact ⟨hlt.trans hnewer,
          (((h.increasing i).before_iff hb (List.mem_of_getLast? hd)).mpr hlt).trans hbefore⟩
    rw [htold.switchMac i] at hcarries
    have hports : s'.switchPorts = (Function.update w.nodes i s' i).switchPorts := by rw [Function.update_self]
    obtain ⟨f', hf'⟩ := h.announce hdistinct hports hcarries hlater
    refine ⟨_, f', htold.announce hhandles hsent hmac haddr ((htold.switchMac i).symm ▸ hcarries) hversion, ?_⟩
    rw [List.append_assoc] at hsent hf'
    rw [afterNode, emitted_eq c i hsent, onCables_append]
    exact hf'

theorem Conveys.macAddr_eq {pkt : UdpPacket} {m m' : MacAddress} {a a' : Announcement} (h : Conveys pkt m a)
    (h' : Conveys pkt m' a') : m = m' := by
  obtain ⟨p, hp, rfl, _⟩ := h.received
  obtain ⟨p', hp', rfl, _⟩ := h'.received
  rw [hp] at hp'
  rw [Option.some.inj (Except.ok.inj hp')]

omit [DecidableEq ι] in
/-- A switch is not its own neighbour. -/
theorem Told.not_own_neighbor {w : DiscoveryNetwork ι} (h : Told c setup w told)
    (hdistinct : Function.Injective fun i => (setup i).macAddr) {x : (ι × UInt16) × UdpPacket}
    (hx : x ∈ w.inFlight) {a : Announcement} (hcarries : Conveys x.2 (setup x.1.1).macAddr a) :
    x.2.destPort ≠ neighborUpdatePort := by
  intro hport
  obtain ⟨b, _, hb⟩ := h.neighbor x hx hport
  obtain ⟨port, hcable⟩ := h.cabled x hx
  rw [source_wiringOf hcable] at hb
  exact c.irrefl _ _ hcable (hdistinct (hcarries.macAddr_eq hb))

omit [DecidableEq ι] in
/-- What comes in is passed on if it is the first or a later version, over all cables but the one it came by. -/
theorem Floods.passes_on {x : (ι × UInt16) × UdpPacket} {a : Announcement} {p : DiscoveryPacket}
    (hknows : Knows c setup told known x.1.1 s) (hmac : s.switchMac = (setup x.1.1).macAddr)
    (hcarries : Conveys x.2 (setup i).macAddr a) (hp : p.srcMac = (setup i).macAddr)
    (hversion : (broadcastOf p).version = a.version)
    (hown : (setup i).macAddr = (setup x.1.1).macAddr → a.version + 1 ≤ known (setup i).macAddr) :
    (a.version + 1 ≤ known (setup i).macAddr ∧ onCables c x.1.1 (if (s.firstTimeSeen p).2 then
        copiesTo (s.switchPorts.filter (·.portNumber ≠ x.1.2)) (relayed { x.2 with inPort := x.1.2 }) else []) = []) ∨
      Spreads (wiringOf c) x.1.1 (setup i).macAddr (a.version + 1) (· = (wiringOf c).reverse x.1)
        ((onCables c x.1.1 (if (s.firstTimeSeen p).2 then
          copiesTo (s.switchPorts.filter (·.portNumber ≠ x.1.2)) (relayed { x.2 with inPort := x.1.2 })
          else [])).map copyOf) := by
  cases hnew : (s.firstTimeSeen p).2 with
  | false =>
      refine .inl ⟨?_, rfl⟩
      by_cases hmacs : (setup i).macAddr = (setup x.1.1).macAddr
      · exact hown hmacs
      · have hle := rank_le_of_not_first (by rw [hp, hmac]; exact hmacs) hnew
        rw [hversion, hp] at hle
        exact hle.trans (hknows.seen _ hmacs)
  | true =>
      refine .inr (spreads_copiesTo (hcarries.withPort x.1.2).relayed fun e portNum hcable hback => ?_)
      obtain ⟨hle, q, hq, hnum⟩ := hknows.listed portNum e hcable
      refine ⟨q, List.mem_filter.mpr ⟨hq, decide_eq_true fun hin => hback ?_⟩, hnum, hle⟩
      -- the port it came by is the one that its own cable leads back from
      have hx : x.1 = (x.1.1, portNum) := by rw [← hnum, hin]
      show e = (c.cable x.1).getD x.1
      rw [hx, hcable, Option.getD_some]

/-- No packet is lost, no switch forgets another or unplugs its cables, and versions increase. -/
def Reliable (c : Cabling ι) (tr : Transition (DiscoveryNetwork ι) (NetworkInput ι)) : Prop :=
  match tr.input with
  | .act _ (.receive ..) => True
  | .act _ (.clean _) => True
  | .act i (.portModified switchPorts updated stamped _) =>
      Listed c i switchPorts ∧ Advances (tr.source.nodes i) updated stamped
  | .act i (.heartbeat _ updated stamped) => Advances (tr.source.nodes i) updated stamped
  | .act i (.sweep now) => FindsNothing (tr.source.nodes i) now
  | .arrive index t _ => ∀ x, tr.source.inFlight[index]? = some x →
      Advances (tr.source.nodes x.1.1) t.updated t.stamped
  | .lose _ => False
  | .duplicate _ => True

/-- Announcements were made, and have flooded the network. -/
def Flooded (c : Cabling ι) (setup : ι → SwitchSetup) (w : DiscoveryNetwork ι) (told : ι → List Announcement) : Prop :=
  Told c setup w told ∧ ∃ f, Floods c setup w.nodes w.inFlight told f

theorem Flooded.step {w w' : DiscoveryNetwork ι} {input : NetworkInput ι} (h : Flooded c setup w told)
    (hdistinct : Function.Injective fun i => (setup i).macAddr) (hreliable : Reliable c ⟨w, input, w'⟩)
    (hstep : DiscoveryNetwork.step c w input = some w') : ∃ told', Flooded c setup w' told' := by
  obtain ⟨htold, f, hf⟩ := h
  rcases network_step_cases hstep with ⟨i, act, s', rfl, hact, hs, rfl⟩ |
    ⟨index, t, behind, before, after, s', x, rfl, hget, hx, hs, rfl⟩ | ⟨index, before, x, after, rfl, hx, rfl⟩ |
    ⟨index, x, hx, rfl, rfl⟩
  · have hsweep : ∀ now, act = .sweep now → FindsNothing (w.nodes i) now := by
      rintro now rfl
      exact hreliable
    have hlisted : Listed c i (newPorts (w.nodes i) act) := by
      cases act with
      | portModified switchPorts updated stamped phyPort => exact hreliable.1
      | _ => exact (hf.knows i).listed
    have hadvances : ∀ updated stamped, sendingTimes act = some (updated, stamped) →
        Advances (w.nodes i) updated stamped := by
      intro updated stamped htimes
      cases act with
      | receive t behind pkt => exact absurd rfl (hact t behind pkt)
      | portModified switchPorts updated' stamped' phyPort =>
          obtain ⟨rfl, rfl⟩ := Prod.mk.inj (Option.some.inj htimes)
          exact hreliable.2
      | heartbeat now updated' stamped' =>
          obtain ⟨rfl, rfl⟩ := Prod.mk.inj (Option.some.inj htimes)
          exact hreliable
      | clean now => cases htimes
      | sweep now => cases htimes
    obtain ⟨hports, hothers, hseen⟩ := act_keeps hs hact hsweep
    have hknows : Knows c setup told (f.known i) i s' := (hf.knows i).act (hports ▸ hlisted) hothers hseen
    have hflood : Floods c setup (Function.update w.nodes i s') (w.inFlight ++ onCables c i []) told f := by
      rw [show onCables c i [] = [] from rfl, List.append_nil]
      exact hf.act hknows
    obtain ⟨told', f', htold', hf'⟩ := hflood.speak hdistinct htold (htold.handles_act hs hact)
      (speaks_act hs hact) hadvances
    exact ⟨told', htold', f', hf'⟩
  · have hadvances := hreliable x hget
    obtain ⟨i, a, ha, hcarries⟩ := htold.flight x (List.mem_of_getElem? hget)
    obtain ⟨p, _, hp, hversion, hsame, hports, hspeaks, hlearns⟩ := receive_cases (hcarries.withPort x.1.2) hs
    have hown : (setup i).macAddr = (setup x.1.1).macAddr → a.version + 1 ≤ f.known x.1.1 (setup i).macAddr := by
      intro hmacs
      obtain rfl := hdistinct hmacs
      exact hf.own_known ha
    have hknows : Knows c setup told (Function.update (f.known x.1.1) (setup i).macAddr
        (max (f.known x.1.1 (setup i).macAddr) (a.version + 1))) x.1.1 s' := by
      by_cases hmacs : (setup i).macAddr = (setup x.1.1).macAddr
      -- its own announcement, which cannot come from a neighbour
      · obtain rfl := hdistinct hmacs
        have hfirst := firstTimeSeen_own (s := w.nodes x.1.1) (hp.trans (htold.switchMac x.1.1).symm)
        rw [hfirst] at hsame hlearns
        rw [max_eq_left (hown hmacs), Function.update_eq_self]
        have hothers : s'.topology.otherNodes = (w.nodes x.1.1).topology.otherNodes := by
          rcases hlearns with ⟨hfrom, _⟩ | ⟨_, _, heq⟩
          · rcases hfrom with hfalse | hport
            · cases hfalse
            · exact absurd hport (htold.not_own_neighbor hdistinct (List.mem_of_getElem? hget) hcarries)
          · exact heq
        exact (hf.knows x.1.1).act (hports ▸ (hf.knows x.1.1).listed) hothers fun m =>
          (congrArg rank (hsame.seenVersion m)).le
      · exact (hf.knows x.1.1).receive hdistinct (hf.increasing i) (fun heq => hmacs (heq ▸ rfl))
          (htold.switchMac x.1.1) ha hp hversion hsame hports (hlearns.imp And.right fun h => ⟨h.1, h.2.2⟩)
    rw [hx] at hf
    obtain ⟨f₁, hf₁⟩ := hf.arrive hdistinct ha hcarries
      (Floods.passes_on (hf.knows x.1.1) (htold.switchMac x.1.1) hcarries hp hversion hown) hknows
    obtain ⟨told', f', htold', hf'⟩ := hf₁.speak hdistinct htold
      (htold.handles_receive hx ha hcarries (hlearns.imp And.right fun hsame => hsame.2.2)) hspeaks
      fun updated stamped htimes => by
        obtain ⟨rfl, rfl⟩ := Prod.mk.inj (Option.some.inj htimes)
        exact hadvances
    exact ⟨told', htold', f', hf'⟩
  · exact hreliable.elim
  · refine ⟨told, htold.of_flight fun y hy => ?_, ⟨f.known, f.inFlight ++ [copyOf x]⟩, ?_, ?_, hf.knows, hf.own,
      hf.increasing⟩
    · rcases List.mem_append.mp hy with hy | hy
      · exact hy
      · rwa [List.mem_singleton.mp hy]
    · rw [List.map_append, hf.copies, List.map_singleton]
    · refine hf.covers.step (.resend fun d hd => ?_)
      rw [List.mem_singleton.mp hd]
      exact hf.covers.carried _ (hf.copies ▸ List.mem_map_of_mem hx)

omit [DecidableEq ι] in
/-- At the start nothing is known of any switch. -/
theorem flooded_boot (hlisted : ∀ i, Listed c i (setup i).ports) :
    Flooded c setup (DiscoveryNetwork.boot setup) fun _ => [] := by
  have hempty : ∀ (j : ι) (m : MacAddress),
      (DiscoveryService.init (setup j)).topology.otherNodes[m]? = none := fun _ _ => ExtTreeMap.getElem?_empty
  have hseen : ∀ (j : ι) (m : MacAddress), seenVersion (DiscoveryService.init (setup j)) m = none := by
    intro j m
    show ((∅ : ExtTreeMap MacAddress (UInt32 × UInt8))[m]?).map _ = none
    rw [ExtTreeMap.getElem?_empty, Option.map_none]
  refine ⟨told_boot c setup, ⟨fun _ _ => 0, []⟩, rfl, covers_start fun _ _ _ => le_rfl, fun j => ?_,
    fun _ => rfl, fun _ => .nil⟩
  refine ⟨hlisted j, fun m _ => ?_, fun m _ => hempty j m, hempty j _, fun _ _ hzero => absurd rfl hzero⟩
  show rank (seenVersion (DiscoveryService.init (setup j)) m) ≤ 0
  rw [hseen]
  exact le_rfl

variable {ts : List (Transition (DiscoveryNetwork ι) (NetworkInput ι))} {w : DiscoveryNetwork ι}

theorem exists_flooded (hdistinct : Function.Injective fun i => (setup i).macAddr)
    (hlisted : ∀ i, Listed c i (setup i).ports)
    (hrun : Run (DiscoveryNetwork.step c) (DiscoveryNetwork.boot setup) ts w)
    (hreliable : ∀ tr ∈ ts, Reliable c tr) : ∃ told, Flooded c setup w told := by
  induction hrun with
  | nil => exact ⟨_, flooded_boot hlisted⟩
  | @snoc ts u v input _ hstep ih =>
      obtain ⟨told, htold⟩ := ih fun tr htr => hreliable tr (List.mem_append_left _ htr)
      exact htold.step hdistinct (hreliable _ (List.mem_append_right _ (List.mem_singleton.mpr rfl))) hstep

/-! ## Quiet networks -/

/-- What a switch has of another is what that one is, or that one is still as it was started. -/
def UpToDate (setup : ι → SwitchSetup) (w : DiscoveryNetwork ι) (j i : ι) : Prop :=
  match (w.nodes j).topology.otherNodes[(setup i).macAddr]? with
  | some n => Depicts n (w.nodes i).topology.me
  | none => SameAdvertisement (w.nodes i).topology.me (DiscoveryService.init (setup i)).topology.me

omit [DecidableEq ι] in
theorem Flooded.up_to_date (h : Flooded c setup w told) (hquiet : w.inFlight = []) {i j : ι}
    (hconn : (wiringOf c).Connected i j) (hne : j ≠ i) : UpToDate setup w j i := by
  obtain ⟨htold, f, hf⟩ := h
  have hempty : f.inFlight = [] := by rw [hf.copies, hquiet, List.map_nil]
  have hknown : f.known j (setup i).macAddr = f.known i (setup i).macAddr :=
    (hf.covers.agree hempty hconn.symm _).antisymm (hf.covers.agree hempty hconn _)
  rw [hf.own] at hknown
  cases hlast : (told i).getLast? with
  | none =>
      rw [hlast] at hknown
      rw [UpToDate, (hf.knows j).unknown _ hknown]
      exact htold.silent i (List.getLast?_eq_none_iff.mp hlast)
  | some a =>
      rw [hlast, Option.map_some] at hknown
      obtain ⟨n, b, hb, hn, hversion, hdescribes⟩ :=
        (hf.knows j).stored i hne (by rw [hknown]; exact Nat.succ_ne_zero _)
      rw [UpToDate, hn]
      obtain rfl := (hf.increasing i).eq_of_version hb (List.mem_of_getLast? hlast)
        (Nat.succ.inj (hversion.symm.trans hknown))
      exact hdescribes.of_same (htold.last i b hlast).1

/--
**Quiet networks have converged**: after any run in which no packet is lost, no switch
forgets another, cabled ports stay and the clocks move on, once no packet is on its way
every switch has, of each other switch that it is connected to, what that one is now.
-/
theorem quiet_up_to_date (hdistinct : Function.Injective fun i => (setup i).macAddr)
    (hlisted : ∀ i, Listed c i (setup i).ports)
    (hrun : Run (DiscoveryNetwork.step c) (DiscoveryNetwork.boot setup) ts w)
    (hreliable : ∀ tr ∈ ts, Reliable c tr) (hquiet : w.inFlight = []) {i j : ι}
    (hconn : (wiringOf c).Connected i j) (hne : j ≠ i) : UpToDate setup w j i := by
  obtain ⟨told, hflooded⟩ := exists_flooded hdistinct hlisted hrun hreliable
  exact hflooded.up_to_date hquiet hconn hne

end Steps

instance (s : DiscoveryService) (updated stamped : Nat) : Decidable (Advances s updated stamped) :=
  decidable_of_iff
    ((s.topology.me.lastRefresh < msSinceEpoch updated ∨ s.topology.me.seqNum ≠ 255) ∧
      (s.lastTimestamp < msSinceEpoch stamped ∨ s.lastTimestamp = msSinceEpoch stamped ∧ s.nextSeqNum ≠ 0))
    ⟨fun h => ⟨h.1, h.2⟩, fun h => ⟨h.refreshed, h.timestamp⟩⟩

/-- A test for heartbeats and receptions. -/
def isTimely (tr : Transition (DiscoveryNetwork Bool) (NetworkInput Bool)) : Bool :=
  match tr.input with
  | .act i (.heartbeat _ updated stamped) => decide (Advances (tr.source.nodes i) updated stamped)
  | .arrive index t _ => tr.source.inFlight[index]?.all fun x =>
      decide (Advances (tr.source.nodes x.1.1) t.updated t.stamped)
  | _ => false

theorem reliable_of_isTimely {tr : Transition (DiscoveryNetwork Bool) (NetworkInput Bool)} (h : isTimely tr = true) :
    Reliable pairCabling tr := by
  obtain ⟨source, input, target⟩ := tr
  cases input with
  | act i act =>
      cases act with
      | heartbeat now updated stamped =>
          have h : decide (Advances (source.nodes i) updated stamped) = true := h
          have hadvances : Advances (source.nodes i) updated stamped := of_decide_eq_true h
          exact hadvances
      | _ => cases h
  | arrive index t behind =>
      intro x hx
      have h : (source.inFlight[index]?.all fun x =>
        decide (Advances (source.nodes x.1.1) t.updated t.stamped)) = true := h
      rw [show source.inFlight[index]? = some x from hx, Option.all_some] at h
      have hadvances : Advances (source.nodes x.1.1) t.updated t.stamped := of_decide_eq_true h
      exact hadvances
  | lose index => cases h
  | duplicate index => cases h

/-- A heartbeat of one switch, which the other takes for a new neighbour's, and so on. -/
def pairInputs : List (NetworkInput Bool) :=
  [.act false (.heartbeat 5 5 5), .arrive 0 ⟨6, 6, 6, 6⟩ [], .arrive 0 ⟨7, 7, 7, 7⟩ [], .arrive 0 ⟨8, 8, 8, 8⟩ []]

theorem pair_quiet : ∃ ts w, Run (DiscoveryNetwork.step pairCabling) (DiscoveryNetwork.boot pairSetup) ts w ∧
    (∀ tr ∈ ts, Reliable pairCabling tr) ∧ w.inFlight = [] ∧
      (w.nodes true).topology.otherNodes[(pairSetup false).macAddr]?.isSome := by
  obtain ⟨ts, w, hrun, htest⟩ := Run.exists_of_test (DiscoveryNetwork.step pairCabling)
    (DiscoveryNetwork.boot pairSetup) pairInputs
    (fun ts w => ts.all isTimely && (w.inFlight.isEmpty &&
      (w.nodes true).topology.otherNodes[(pairSetup false).macAddr]?.isSome)) (by decide +kernel)
  obtain ⟨htimely, hquiet⟩ := Bool.and_eq_true_iff.mp htest
  obtain ⟨hquiet, hstored⟩ := Bool.and_eq_true_iff.mp hquiet
  exact ⟨ts, w, hrun, fun tr htr => reliable_of_isTimely (List.all_eq_true.mp htimely tr htr),
    List.isEmpty_iff.mp hquiet, hstored⟩

theorem pairSetup_distinct : Function.Injective fun i => (pairSetup i).macAddr := by
  intro i j h
  revert i j
  decide

theorem pairSetup_listed (i : Bool) : Listed pairCabling i (pairSetup i).ports := by
  intro portNum e h
  have h : (if portNum = 1 then some (!i, (1 : UInt16)) else none) = some e := h
  split at h
  · rename_i hport
    subst hport
    exact ⟨by decide, _, List.mem_singleton.mpr rfl, rfl⟩
  · cases h

theorem pairCabling_connected (i : Bool) : (wiringOf pairCabling).Connected i (!i) :=
  .single ⟨(!i, 1), by cases i <;> rfl, rfl⟩

theorem pair_up_to_date : ∃ ts w, Run (DiscoveryNetwork.step pairCabling) (DiscoveryNetwork.boot pairSetup) ts w ∧
    (w.nodes true).topology.otherNodes[(pairSetup false).macAddr]?.isSome ∧ UpToDate pairSetup w true false := by
  obtain ⟨ts, w, hrun, hreliable, hquiet, hstored⟩ := pair_quiet
  exact ⟨ts, w, hrun, hstored, quiet_up_to_date pairSetup_distinct pairSetup_listed hrun hreliable hquiet
    (pairCabling_connected false) (by decide)⟩

end IronStack.Proof
