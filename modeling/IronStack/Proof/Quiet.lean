import IronStack.Proof.Routes
import Mathlib.Algebra.BigOperators.Ring.Finset
import Mathlib.Algebra.Order.BigOperators.Group.Finset

/-!
# Networks that are left alone

When nothing happens any more but that packets come in, a network of switches becomes
quiet: a switch tells of a new neighbour once for each of its ports, and passes every
announcement on once.
-/

namespace IronStack.Proof

open IronStack Lib Std DiscoveryService DiscoveryNetwork LiveTopology

variable {ι : Type} {c : Cabling ι} {setup : ι → SwitchSetup} {told : ι → List Announcement}
  {s s' : DiscoveryService} {w w' : DiscoveryNetwork ι}

/-! ## What a packet can cause -/

/-- A packet that carries an announcement can always be handled. -/
theorem exists_receive {t : ClockReadings} {behind : Bytes} {pkt : UdpPacket} {m : MacAddress} {a : Announcement}
    (hcarries : Conveys pkt m a) : ∃ s', s.step (.receive t behind pkt) = some s' := by
  obtain ⟨p, hread, _, _, hdata⟩ := hcarries.received
  obtain ⟨seen, hseen⟩ := firstTimeSeen_else s p
  have hupdate : ∀ g : LiveTopology, ∃ g',
      g.updateTopology t.refreshed p.srcMac ⟨p.data ++ behind, p.data.length⟩ = .ok g' := by
    intro g
    rw [hdata, updateTopology, deserialize_serialize_append, ok_bind]
    dsimp only
    split
    · exact ⟨_, rfl⟩
    · exact ⟨_, rfl⟩
  choose learnt hlearnt using hupdate
  have hneighbor : ∀ g : LiveTopology, ∃ r, g.updateNeighbor t.heard t.refreshed t.updated pkt.inPort p.srcMac
      ⟨p.data ++ behind, p.data.length⟩ = .ok r := by
    intro g
    rw [updateNeighbor]
    dsimp only
    rw [hlearnt, ok_bind]
    split
    · exact ⟨_, rfl⟩
    · exact ⟨_, rfl⟩
  choose met hmet using hneighbor
  have hcallback : ∃ r, s.udpCallback t behind pkt = .ok r := by
    rw [udpCallback, if_neg (by simp [hcarries.1]), hread, ok_bind]
    dsimp only
    rw [hseen]
    split
    · rw [hmet, ok_bind]
      exact ⟨_, rfl⟩
    · split
      · rw [hlearnt, ok_bind]
        exact ⟨_, rfl⟩
      · exact ⟨_, rfl⟩
  obtain ⟨⟨s', handled⟩, hr⟩ := hcallback
  refine ⟨s', ?_⟩
  rw [DiscoveryService.step, hr]

/-- A packet that comes in takes no link away. -/
theorem linkAt_receive {t : ClockReadings} {behind : Bytes} {pkt : UdpPacket}
    (hstep : s.step (.receive t behind pkt) = some s') {portNum : UInt16}
    (hnone : linkAt s'.topology.me portNum = none) : linkAt s.topology.me portNum = none := by
  rcases topology_receive hstep with hsame | ⟨p, _, _, data, g, update, hupdate, hme⟩
  · rwa [← hsame]
  · rw [hme, (updateNeighbor_links hupdate).1] at hnone
    split at hnone
    · cases hnone
    · exact hnone

/-- A switch that tells of itself as a packet comes in has a new link at the port. -/
theorem new_link_of_version {t : ClockReadings} {behind : Bytes} {pkt : UdpPacket}
    (hstep : s.step (.receive t behind pkt) = some s') (hversion : versionOf s'.topology.me ≠ versionOf s.topology.me) :
    ∃ p, receivedPacket (.receive t behind pkt) = some p ∧ pkt.destPort = neighborUpdatePort ∧
      linkAt s.topology.me pkt.inPort ≠ some p.srcMac ∧ linkAt s'.topology.me pkt.inPort = some p.srcMac := by
  rcases topology_receive hstep with hsame | ⟨p, hreceived, hport, data, g, update, hupdate, hme⟩
  · exact absurd (congrArg versionOf hsame) hversion
  · obtain ⟨hlinks, hknown⟩ := updateNeighbor_links hupdate
    rw [hme] at hversion
    refine ⟨p, hreceived, hport, fun hlink => hversion (hknown hlink), ?_⟩
    rw [hme, hlinks, if_pos rfl]

theorem next_ne (v : Stamp) (now : Nat) : v.next 256 now ≠ v := by
  rw [Stamp.next]
  intro h
  split at h
  · rename_i hlt
    exact absurd (congrArg Stamp.time h) hlt.ne'
  · have := congrArg Stamp.number h
    dsimp only at this
    omega

/-! ## What is left to do -/

/-- The announcements of others that a switch has not yet seen a version as late of. -/
def unseen [Fintype ι] (setup : ι → SwitchSetup) (told : ι → List Announcement) (s : DiscoveryService) : Nat :=
  ∑ i, (told i).countP fun a =>
    (setup i).macAddr ≠ s.switchMac ∧ rank (seenVersion s (setup i).macAddr) ≤ a.version

theorem countP_lt_countP {α : Type} {p q : α → Bool} {l : List α} (h : ∀ x ∈ l, p x = true → q x = true) {a : α}
    (ha : a ∈ l) (hp : ¬ p a = true) (hq : q a = true) : l.countP p < l.countP q := by
  obtain ⟨l₁, l₂, rfl⟩ := List.append_of_mem ha
  rw [List.countP_append, List.countP_append, List.countP_cons_of_neg hp, List.countP_cons_of_pos hq]
  have h₁ := List.countP_mono_left fun x hx => h x (List.mem_append_left _ hx)
  have h₂ := List.countP_mono_left fun x hx => h x (List.mem_append_right l₁ (List.mem_cons_of_mem a hx))
  omega

theorem unseen_le [Fintype ι] (hmac : s'.switchMac = s.switchMac)
    (hseen : ∀ m, m ≠ s.switchMac → rank (seenVersion s m) ≤ rank (seenVersion s' m)) :
    unseen setup told s' ≤ unseen setup told s := by
  refine Finset.sum_le_sum fun i _ => List.countP_mono_left fun a _ h => ?_
  rw [decide_eq_true_eq] at h ⊢
  rw [hmac] at h
  exact ⟨h.1, (hseen _ h.1).trans h.2⟩

/-- An announcement that is seen is one less to see. -/
theorem unseen_lt [Fintype ι] (hmac : s'.switchMac = s.switchMac)
    (hseen : ∀ m, m ≠ s.switchMac → rank (seenVersion s m) ≤ rank (seenVersion s' m)) {i : ι} {a : Announcement}
    (ha : a ∈ told i) (hother : (setup i).macAddr ≠ s.switchMac)
    (hbefore : rank (seenVersion s (setup i).macAddr) ≤ a.version)
    (hafter : a.version < rank (seenVersion s' (setup i).macAddr)) : unseen setup told s' < unseen setup told s := by
  have hmono : ∀ i, ∀ a ∈ told i, decide ((setup i).macAddr ≠ s'.switchMac ∧
      rank (seenVersion s' (setup i).macAddr) ≤ a.version) = true →
        decide ((setup i).macAddr ≠ s.switchMac ∧ rank (seenVersion s (setup i).macAddr) ≤ a.version) = true := by
    intro i a _ h
    rw [decide_eq_true_eq] at h ⊢
    rw [hmac] at h
    exact ⟨h.1, (hseen _ h.1).trans h.2⟩
  refine Finset.sum_lt_sum (fun i _ => List.countP_mono_left (hmono i)) ⟨i, Finset.mem_univ i, ?_⟩
  refine countP_lt_countP (hmono i) ha ?_ (decide_eq_true ⟨hother, hbefore⟩)
  rw [decide_eq_true_eq]
  exact fun h => absurd h.2 hafter.not_ge

/-- Every switch makes one announcement more at most. -/
theorem unseen_more [Fintype ι] {told' : ι → List Announcement}
    (hmore : ToldMore w told told') : unseen setup told' s ≤ unseen setup told s + Fintype.card ι := by
  have hone : ∀ i, (told' i).countP (fun a => (setup i).macAddr ≠ s.switchMac ∧
      rank (seenVersion s (setup i).macAddr) ≤ a.version) ≤ (told i).countP (fun a =>
        (setup i).macAddr ≠ s.switchMac ∧ rank (seenVersion s (setup i).macAddr) ≤ a.version) + 1 := by
    intro i
    rcases hmore i with hsame | ⟨v, hnew⟩
    · rw [hsame]
      exact Nat.le_succ _
    · rw [hnew, List.countP_append]
      exact Nat.add_le_add_left List.countP_le_length _
  refine (Finset.sum_le_sum fun i _ => hone i).trans ?_
  rw [Finset.sum_add_distrib, ← Finset.card_eq_sum_ones, Finset.card_univ, unseen]

/-- How many cabled ports have no link yet. -/
def unlinked [Fintype ι] (c : Cabling ι) (w : DiscoveryNetwork ι) : Nat :=
  ∑ i, (List.range 65536).countP fun n =>
    (c.cable (i, UInt16.ofNat n)).isSome ∧ linkAt (w.nodes i).topology.me (UInt16.ofNat n) = none

theorem unlinked_le [Fintype ι] (h : ∀ i portNum, linkAt (w'.nodes i).topology.me portNum = none →
    linkAt (w.nodes i).topology.me portNum = none) : unlinked c w' ≤ unlinked c w := by
  refine Finset.sum_le_sum fun i _ => List.countP_mono_left fun n _ hn => ?_
  rw [decide_eq_true_eq] at hn ⊢
  exact ⟨hn.1, h i _ hn.2⟩

/-- A port that gets its link is one less without. -/
theorem unlinked_lt [Fintype ι] (h : ∀ i portNum, linkAt (w'.nodes i).topology.me portNum = none →
    linkAt (w.nodes i).topology.me portNum = none) {e : ι × UInt16} (hcable : (c.cable e).isSome)
    (hbefore : linkAt (w.nodes e.1).topology.me e.2 = none) (hafter : linkAt (w'.nodes e.1).topology.me e.2 ≠ none) :
    unlinked c w' < unlinked c w := by
  have hmono : ∀ i, ∀ n ∈ List.range 65536, decide ((c.cable (i, UInt16.ofNat n)).isSome ∧
      linkAt (w'.nodes i).topology.me (UInt16.ofNat n) = none) = true → decide ((c.cable (i, UInt16.ofNat n)).isSome ∧
        linkAt (w.nodes i).topology.me (UInt16.ofNat n) = none) = true := by
    intro i n _ hn
    rw [decide_eq_true_eq] at hn ⊢
    exact ⟨hn.1, h i _ hn.2⟩
  refine Finset.sum_lt_sum (fun i _ => List.countP_mono_left (hmono i)) ⟨e.1, Finset.mem_univ _, ?_⟩
  refine countP_lt_countP (hmono e.1) (a := e.2.toNat) (List.mem_range.mpr e.2.toNat_lt) ?_ ?_
  · rw [decide_eq_true_eq, UInt16.ofNat_toNat]
    exact fun hn => hafter hn.2
  · rw [decide_eq_true_eq, UInt16.ofNat_toNat]
    exact ⟨hcable, hbefore⟩

/-- A bound on the packets that will come in, when no switch has more ports than `portCount`. -/
def work [Fintype ι] (c : Cabling ι) (setup : ι → SwitchSetup) (portCount : Nat) (told : ι → List Announcement)
    (w : DiscoveryNetwork ι) : Nat :=
  unlinked c w * (Fintype.card ι * Fintype.card ι * (portCount + 1) + 2 * portCount + 1) +
    (∑ j, unseen setup told (w.nodes j)) * (portCount + 1) + w.inFlight.length

/-- Announcements that were made, and a bound on the ports of each switch. -/
structure Settling (c : Cabling ι) (setup : ι → SwitchSetup) (portCount : Nat) (w : DiscoveryNetwork ι)
    (told : ι → List Announcement) : Prop where
  plugged : Plugged c setup w told
  ports : ∀ j, (w.nodes j).switchPorts.length ≤ portCount

theorem length_copiesTo (ports : List OpenflowPort) (pkt : UdpPacket) : (copiesTo ports pkt).length ≤ ports.length := by
  rw [copiesTo, List.length_map]
  exact List.length_filter_le ..

theorem length_onCables (c : Cabling ι) (i : ι) (out : List (UInt16 × UdpPacket)) :
    (onCables c i out).length ≤ out.length := List.length_filterMap_le ..

section Steps

variable [Fintype ι] [DecidableEq ι] {portCount index : Nat} {t : ClockReadings} {behind : Bytes}

omit [Fintype ι] in
/-- A version that is seen is not forgotten by a reception. -/
theorem seen_mono {p : DiscoveryPacket} (hsame : SameSeen (s.firstTimeSeen p).1 s') {m : MacAddress}
    (hm : m ≠ s.switchMac) : rank (seenVersion s m) ≤ rank (seenVersion s' m) := by
  rw [hsame.seenVersion, seenVersion_firstTimeSeen hm]
  split
  · rw [rank_keepLatest]
    exact le_max_left _ _
  · exact le_rfl

/-- A first or later version is one less to see. -/
theorem sum_unseen_lt (rest : List ((ι × UInt16) × UdpPacket)) {j i : ι} {a : Announcement}
    {p : DiscoveryPacket} (ha : a ∈ told i) (hp : p.srcMac = (setup i).macAddr)
    (hversion : (broadcastOf p).version = a.version) (hsame : SameSeen ((w.nodes j).firstTimeSeen p).1 s')
    (hnew : ((w.nodes j).firstTimeSeen p).2 = true) :
    ∑ k, unseen setup told ((afterNode c w rest j s').nodes k) < ∑ k, unseen setup told (w.nodes k) := by
  have hmac : s'.switchMac = (w.nodes j).switchMac := hsame.switchMac.trans switchMac_firstTimeSeen
  obtain ⟨hother, hlater⟩ := firstTimeSeen_iff.mp hnew
  have hlt : unseen setup told s' < unseen setup told (w.nodes j) := by
    refine unseen_lt hmac (fun m hm => seen_mono hsame hm) ha (hp ▸ hother) ?_ ?_
    · rw [← hp]
      cases hseen : seenVersion (w.nodes j) p.srcMac with
      | none => exact Nat.zero_le _
      | some u => exact hversion ▸ hlater u hseen
    · rw [hsame.seenVersion, seenVersion_firstTimeSeen (hp ▸ hother), if_pos hp, rank_keepLatest, hversion]
      exact Nat.lt_of_lt_of_le (Nat.lt_succ_self _) (le_max_right _ _)
  refine Finset.sum_lt_sum (fun k _ => ?_) ⟨j, Finset.mem_univ j, by rwa [nodes_afterNode_self]⟩
  exact forall_afterNode (P := fun k s => unseen setup told s ≤ unseen setup told (w.nodes k)) hlt.le
    (fun _ _ => le_rfl) k

omit [Fintype ι] [DecidableEq ι] in
/-- A link is new where there was none, since the cable at a port stays. -/
theorem Plugged.no_link (h : Plugged c setup w told) {j : ι}
    (hcurrent : LinksAreCables c setup j s'.topology.me) {portNum : UInt16} {m : MacAddress}
    (hold : linkAt (w.nodes j).topology.me portNum ≠ some m) (hnew : linkAt s'.topology.me portNum = some m) :
    (c.cable (j, portNum)).isSome ∧ linkAt (w.nodes j).topology.me portNum = none := by
  obtain ⟨e, hcable, hmac⟩ := hcurrent portNum m hnew
  refine ⟨by rw [hcable]; rfl, ?_⟩
  cases hlink : linkAt (w.nodes j).topology.me portNum with
  | none => rfl
  | some m' =>
      obtain ⟨e', hcable', hmac'⟩ := h.current j portNum m' hlink
      rw [hcable] at hcable'
      obtain rfl := Option.some.inj hcable'
      rw [hlink, ← hmac', hmac] at hold
      exact absurd rfl hold

variable {before after : List ((ι × UInt16) × UdpPacket)} {x : (ι × UInt16) × UdpPacket}

omit [Fintype ι] [DecidableEq ι] in
/-- A packet is passed on at each port of the switch at most, and only if it is new. -/
theorem Settling.length_passed (h : Settling c setup portCount w told) (j : ι) (isNew : Bool) (portNum : UInt16)
    (pkt : UdpPacket) : (if isNew = true then
      copiesTo ((w.nodes j).switchPorts.filter (·.portNumber ≠ portNum)) pkt else []).length ≤
        if isNew = true then portCount else 0 := by
  cases isNew with
  | false => exact Nat.zero_le _
  | true => exact (length_copiesTo _ _).trans ((List.length_filter_le _ _).trans (h.ports j))

omit [Fintype ι] in
/-- The packet that came in has gone, and what the switch sends may be on its way. -/
theorem length_inFlight_receive (hx : w.inFlight = before ++ x :: after) {out : List (UInt16 × UdpPacket)}
    (hsent : s'.sent = (w.nodes x.1.1).sent ++ out) :
    (afterNode c w (before ++ after) x.1.1 s').inFlight.length + 1 ≤ w.inFlight.length + out.length := by
  have hlength : w.inFlight.length = (before ++ after).length + 1 := by
    rw [hx, List.length_append, List.length_cons, List.length_append, Nat.add_assoc]
  have hle := length_onCables c x.1.1 out
  rw [afterNode, emitted_eq c _ hsent, List.length_append, hlength]
  omega

omit [Fintype ι] in
/-- A reception takes no link away. -/
theorem no_link_receive (hs : (w.nodes x.1.1).step (.receive t behind { x.2 with inPort := x.1.2 }) = some s') :
    ∀ k portNum, linkAt ((afterNode c w (before ++ after) x.1.1 s').nodes k).topology.me portNum = none →
      linkAt (w.nodes k).topology.me portNum = none :=
  forall_afterNode (P := fun k s => ∀ portNum, linkAt s.topology.me portNum = none →
    linkAt (w.nodes k).topology.me portNum = none) (fun _ hnone => linkAt_receive hs hnone) fun _ _ _ hnone => hnone

/-- Nor does it make a switch forget a version that it has seen. -/
theorem sum_unseen_le (rest : List ((ι × UInt16) × UdpPacket)) {j : ι} {p : DiscoveryPacket}
    (hsame : SameSeen ((w.nodes j).firstTimeSeen p).1 s') :
    ∑ k, unseen setup told ((afterNode c w rest j s').nodes k) ≤ ∑ k, unseen setup told (w.nodes k) :=
  Finset.sum_le_sum fun k _ =>
    forall_afterNode (P := fun k s => unseen setup told s ≤ unseen setup told (w.nodes k))
      (unseen_le (hsame.switchMac.trans switchMac_firstTimeSeen) fun _ hm => seen_mono hsame hm) (fun _ _ => le_rfl) k

/-- A switch that says nothing of itself passes a packet on only if it is one less to see. -/
theorem work_lt_of_silent (h : Settling c setup portCount w told)
    (hs : (w.nodes x.1.1).step (.receive t behind { x.2 with inPort := x.1.2 }) = some s')
    (hx : w.inFlight = before ++ x :: after) {i : ι} {a : Announcement} {p : DiscoveryPacket} (ha : a ∈ told i)
    (hp : p.srcMac = (setup i).macAddr) (hversion : (broadcastOf p).version = a.version)
    (hsame : SameSeen ((w.nodes x.1.1).firstTimeSeen p).1 s') {portNum : UInt16} {pkt : UdpPacket}
    (hsent : s'.sent = (w.nodes x.1.1).sent ++ if ((w.nodes x.1.1).firstTimeSeen p).2 = true then
      copiesTo ((w.nodes x.1.1).switchPorts.filter (·.portNumber ≠ portNum)) pkt else []) :
    work c setup portCount told (afterNode c w (before ++ after) x.1.1 s') < work c setup portCount told w := by
  have hlinks : unlinked c (afterNode c w (before ++ after) x.1.1 s') ≤ unlinked c w :=
    unlinked_le (no_link_receive hs)
  have hlinked := Nat.mul_le_mul_right
    (Fintype.card ι * Fintype.card ι * (portCount + 1) + 2 * portCount + 1) hlinks
  have hflight := (length_inFlight_receive (c := c) hx hsent).trans
    (Nat.add_le_add_left (h.length_passed _ _ _ _) _)
  cases hnew : ((w.nodes x.1.1).firstTimeSeen p).2 with
  | false =>
      have hunseen : ∑ k, unseen setup told ((afterNode c w (before ++ after) x.1.1 s').nodes k) ≤
          ∑ k, unseen setup told (w.nodes k) := sum_unseen_le (before ++ after) hsame
      have hseen := Nat.mul_le_mul_right (portCount + 1) hunseen
      rw [hnew, if_neg Bool.false_ne_true] at hflight
      rw [work, work]
      omega
  | true =>
      have hseen := Nat.mul_le_mul_right (portCount + 1)
        (Nat.succ_le_of_lt (sum_unseen_lt (c := c) (before ++ after) ha hp hversion hsame hnew))
      rw [hnew, if_pos rfl] at hflight
      rw [Nat.succ_mul] at hseen
      rw [work, work]
      omega

/-- A switch that tells of a new neighbour has one port less without a link. -/
theorem work_lt_of_told (h : Settling c setup portCount w told) {told' : ι → List Announcement}
    (hmore : ToldMore w' told told')
    (hs : (w.nodes x.1.1).step (.receive t behind { x.2 with inPort := x.1.2 }) = some s')
    (hx : w.inFlight = before ++ x :: after) {p : DiscoveryPacket}
    (hsame : SameSeen ((w.nodes x.1.1).firstTimeSeen p).1 s') (hports : s'.switchPorts = (w.nodes x.1.1).switchPorts)
    {linked : UInt16} {m : MacAddress} (hcable : (c.cable (x.1.1, linked)).isSome)
    (hnone : linkAt (w.nodes x.1.1).topology.me linked = none) (hlink : linkAt s'.topology.me linked = some m)
    {portNum : UInt16} {pkt own : UdpPacket}
    (hsent : s'.sent = (w.nodes x.1.1).sent ++ (if ((w.nodes x.1.1).firstTimeSeen p).2 = true then
      copiesTo ((w.nodes x.1.1).switchPorts.filter (·.portNumber ≠ portNum)) pkt else []) ++
        copiesTo s'.switchPorts own) :
    work c setup portCount told' (afterNode c w (before ++ after) x.1.1 s') < work c setup portCount told w := by
  have hlinks : unlinked c (afterNode c w (before ++ after) x.1.1 s') < unlinked c w :=
    unlinked_lt (no_link_receive hs) hcable hnone (by rw [nodes_afterNode_self, hlink]; exact Option.some_ne_none _)
  have hlinked := Nat.mul_le_mul_right (Fintype.card ι * Fintype.card ι * (portCount + 1) + 2 * portCount + 1)
    (Nat.succ_le_of_lt hlinks)
  have hunseen : ∑ k, unseen setup told ((afterNode c w (before ++ after) x.1.1 s').nodes k) ≤
      ∑ k, unseen setup told (w.nodes k) := sum_unseen_le (before ++ after) hsame
  -- there is one announcement more at most, which every switch may have to see
  have htold : ∑ k, unseen setup told' ((afterNode c w (before ++ after) x.1.1 s').nodes k) ≤
      ∑ k, unseen setup told (w.nodes k) + Fintype.card ι * Fintype.card ι := by
    refine (Finset.sum_le_sum fun k _ => unseen_more hmore).trans ?_
    rw [Finset.sum_add_distrib, Finset.sum_const, Finset.card_univ, nsmul_eq_mul, Nat.cast_id]
    exact Nat.add_le_add_right hunseen _
  have hseen := Nat.mul_le_mul_right (portCount + 1) htold
  have hflight := length_inFlight_receive (c := c) hx (hsent.trans (List.append_assoc _ _ _))
  rw [List.length_append] at hflight
  have hown : (copiesTo s'.switchPorts own).length ≤ portCount :=
    (length_copiesTo _ _).trans (hports ▸ h.ports x.1.1)
  have hpassed := h.length_passed x.1.1 ((w.nodes x.1.1).firstTimeSeen p).2 portNum pkt
  have hcount : (if ((w.nodes x.1.1).firstTimeSeen p).2 = true then portCount else 0) ≤ portCount := by
    split
    · exact le_rfl
    · exact Nat.zero_le _
  rw [Nat.succ_mul] at hlinked
  rw [Nat.add_mul] at hseen
  rw [work, work]
  omega

/-- **Less is left to do** with every packet that comes in. -/
theorem Settling.arrive (h : Settling c setup portCount w told)
    (hstep : DiscoveryNetwork.step c w (.arrive index t behind) = some w') :
    ∃ told', Settling c setup portCount w' told' ∧ work c setup portCount told' w' < work c setup portCount told w := by
  have hcurrent := h.plugged.current_step hstep
  have hmade := h.plugged.step hstep
  rcases network_step_cases hstep with ⟨_, _, _, heq, _⟩ |
    ⟨_, _, _, before, after, s', x, heq, hget, hx, hs, rfl⟩ | ⟨_, _, _, _, heq, _⟩ | ⟨_, _, _, heq, _⟩
  · cases heq
  · cases heq
    obtain ⟨i, a, ha, hcarries⟩ := h.plugged.holds.flight x (List.mem_of_getElem? hget)
    obtain ⟨p, hreceived, hp, hversion, hsame, hports, hspeaks, hlearns⟩ :=
      receive_cases (hcarries.withPort x.1.2) hs
    have hports' : ∀ k, ((afterNode c w (before ++ after) x.1.1 s').nodes k).switchPorts.length ≤ portCount :=
      forall_afterNode (P := fun _ s => s.switchPorts.length ≤ portCount) (hports ▸ h.ports x.1.1) fun k _ => h.ports k
    obtain ⟨hswitchMac, haddr, ⟨hme, hsent, htime, hseq⟩ | ⟨_, _, pkt, _, hnode, hsent, _⟩⟩ := hspeaks
    -- the switch says nothing of itself
    · have htold := h.plugged.holds.keep (h.plugged.holds.handles_receive hx ha hcarries
        (hlearns.imp And.right fun hsame => hsame.2.2)) hsent hswitchMac haddr hme htime hseq
      exact ⟨told, ⟨⟨htold, hcurrent, h.plugged.announced⟩, hports'⟩,
        work_lt_of_silent h hs hx ha hp hversion hsame hsent⟩
    -- it tells of a new neighbour
    · obtain ⟨told', hplugged', hmore⟩ := hmade
      obtain ⟨q, _, _, hold, hlink⟩ := new_link_of_version hs (hnode ▸ next_ne _ _)
      have hcurrent' := hcurrent x.1.1
      rw [nodes_afterNode_self] at hcurrent'
      obtain ⟨hcable, hnone⟩ := h.plugged.no_link hcurrent' hold hlink
      exact ⟨told', ⟨hplugged', hports'⟩, work_lt_of_told h hmore hs hx hsame hports hcable hnone hlink hsent⟩
  · cases heq
  · cases heq

/-- Receptions are no more than what there is to do. -/
theorem Settling.run {ts : List (Transition (DiscoveryNetwork ι) (NetworkInput ι))}
    (h : Settling c setup portCount w told) (hrun : Run (DiscoveryNetwork.step c) w ts w')
    (harrive : ∀ tr ∈ ts, ∃ index t behind, tr.input = .arrive index t behind) :
    ∃ told', Settling c setup portCount w' told' ∧
      ts.length + work c setup portCount told' w' ≤ work c setup portCount told w := by
  induction hrun with
  | nil => exact ⟨told, h, by rw [List.length_nil, Nat.zero_add]⟩
  | @snoc ts u v input _ hstep ih =>
      obtain ⟨told₁, hsettling, hle⟩ := ih fun tr htr => harrive tr (List.mem_append_left _ htr)
      obtain ⟨index, t, behind, rfl⟩ := harrive _ (List.mem_append_right _ (List.mem_singleton.mpr rfl))
      obtain ⟨told₂, hsettling', hlt⟩ := hsettling.arrive hstep
      refine ⟨told₂, hsettling', ?_⟩
      rw [List.length_append, List.length_singleton]
      omega

omit [Fintype ι] in
/-- A packet that is on its way can come in. -/
theorem Plugged.can_arrive (h : Plugged c setup w told) (hflight : w.inFlight ≠ []) (t : ClockReadings)
    (behind : Bytes) : ∃ w', DiscoveryNetwork.step c w (.arrive 0 t behind) = some w' := by
  obtain ⟨x, rest, hx⟩ := List.exists_cons_of_ne_nil hflight
  obtain ⟨i, a, _, hcarries⟩ := h.holds.flight x (hx ▸ List.mem_cons_self)
  obtain ⟨s', hs'⟩ : ∃ s', (w.nodes x.1.1).step (.receive t behind { x.2 with inPort := x.1.2 }) = some s' :=
    exists_receive (hcarries.withPort x.1.2)
  rw [DiscoveryNetwork.step, hx, List.getElem?_cons_zero, Option.bind_some, atNode, hs']
  exact ⟨_, rfl⟩

/--
**A network that is left alone becomes quiet**: from every state that a run leads to,
whatever was lost, doubled or forgotten in it, there are only so many receptions one
after the other, and a next one is possible as long as any packet is on its way.
-/
theorem becomes_quiet {ts : List (Transition (DiscoveryNetwork ι) (NetworkInput ι))}
    (hrun : Run (DiscoveryNetwork.step c) (DiscoveryNetwork.boot setup) ts w) :
    ∃ bound, ∀ ts' w', Run (DiscoveryNetwork.step c) w ts' w' →
      (∀ tr ∈ ts', ∃ index t behind, tr.input = .arrive index t behind) →
        ts'.length ≤ bound ∧ (w'.inFlight ≠ [] → ∀ t behind,
          ∃ w'', DiscoveryNetwork.step c w' (.arrive 0 t behind) = some w'') := by
  obtain ⟨told, hplugged⟩ := exists_plugged hrun
  obtain ⟨portCount, hports⟩ : ∃ portCount, ∀ j, (w.nodes j).switchPorts.length ≤ portCount :=
    ⟨_, fun j => Finset.le_sup (f := fun j => (w.nodes j).switchPorts.length) (Finset.mem_univ j)⟩
  have hsettling : Settling c setup portCount w told := ⟨hplugged, hports⟩
  refine ⟨work c setup portCount told w, fun ts' w' hrun' harrive => ?_⟩
  obtain ⟨told', hsettling, hle⟩ := hsettling.run hrun' harrive
  exact ⟨by omega, fun hflight t behind => hsettling.plugged.can_arrive hflight t behind⟩

end Steps

/-- After the heartbeat of one of a pair of switches. -/
theorem pair_becomes_quiet : ∃ ts w, Run (DiscoveryNetwork.step pairCabling) (DiscoveryNetwork.boot pairSetup) ts w ∧
    w.inFlight.length = 1 ∧ ∃ bound, ∀ ts' w', Run (DiscoveryNetwork.step pairCabling) w ts' w' →
      (∀ tr ∈ ts', ∃ index t behind, tr.input = .arrive index t behind) →
        ts'.length ≤ bound ∧ (w'.inFlight ≠ [] → ∀ t behind,
          ∃ w'', DiscoveryNetwork.step pairCabling w' (.arrive 0 t behind) = some w'') := by
  obtain ⟨ts, w, hrun, htest⟩ := Run.exists_of_test (DiscoveryNetwork.step pairCabling)
    (DiscoveryNetwork.boot pairSetup) [.act false (.heartbeat 5 5 5)]
    (fun _ w => w.inFlight.length == 1) (by decide +kernel)
  exact ⟨ts, w, hrun, eq_of_beq htest, becomes_quiet hrun⟩

end IronStack.Proof
