import IronStack.Lib.Latest
import IronStack.Lib.Machine
import IronStack.Lib.OrdMap
import IronStack.Topology.Discovery

/-!
# Broadcasts that pass once

A broadcast passes if nothing as late is recalled of its source: nothing as late was
received since a cleanup last forgot the source. It is passed on at most once if it is
recalled whenever it comes back.
-/

namespace IronStack.Proof

open IronStack Lib Std DiscoveryService

/-- What identifies a discovery broadcast. -/
structure Broadcast where
  srcMac : MacAddress
  timestamp : UInt32
  seqNum : UInt8
deriving DecidableEq

/-- Timestamps and sequence numbers, in lexicographic order. -/
def versionNumber (timestamp : UInt32) (seqNum : UInt8) : Nat := timestamp.toNat * 256 + seqNum.toNat

def Broadcast.version (b : Broadcast) : Nat := versionNumber b.timestamp b.seqNum

/-- The discovery packet that is received, if one is. -/
def receivedPacket : DiscoveryInput → Option DiscoveryPacket
  | .receive _ _ pkt =>
      if isDiscovery pkt then
        match DiscoveryPacket.deserialize pkt.udpPayload with
        | .ok discPkt => discPkt
        | .error _ => none
      else none
  | _ => none

def broadcastOf (p : DiscoveryPacket) : Broadcast := ⟨p.srcMac, p.timestamp, p.seqNum⟩

/-- A broadcast of another switch is received. -/
def Receives (tr : Transition DiscoveryService DiscoveryInput) (b : Broadcast) : Prop :=
  (receivedPacket tr.input).map broadcastOf = some b ∧ b.srcMac ≠ tr.source.switchMac

/-- A broadcast passes `first_time_seen`. -/
def Passes (tr : Transition DiscoveryService DiscoveryInput) (b : Broadcast) : Prop :=
  ∃ p, receivedPacket tr.input = some p ∧ broadcastOf p = b ∧ (tr.source.firstTimeSeen p).2 = true

/-- What a step has to do with what is recalled of a source. -/
def offered (macAddr : MacAddress) (tr : Transition DiscoveryService DiscoveryInput) : Option (Offer Nat) :=
  match tr.input with
  | .clean now =>
      match tr.source.broadcastsSeen[macAddr]? with
      | some seen => if isForgotten (msSinceEpoch now) seen.1 then some .forget else none
      | none => none
  | input =>
      match receivedPacket input with
      | some p => if p.srcMac = macAddr then some (.offer (broadcastOf p).version) else none
      | none => none

/--
A version of the source of a broadcast that is as late was received, and the source
was not forgotten since.
-/
def Recalled (ts : List (Transition DiscoveryService DiscoveryInput)) (b : Broadcast) : Prop :=
  Lib.Known (ts.filterMap (offered b.srcMac)) b.version

/-- Every broadcast passes at most once. -/
def PassesOnce (ts : List (Transition DiscoveryService DiscoveryInput)) : Prop :=
  ts.Pairwise fun tr tr' => ∀ b, Passes tr b → ¬ Passes tr' b

/-- At one of two receptions of a broadcast, it is recalled. -/
def RecalledOnReturn (ts : List (Transition DiscoveryService DiscoveryInput)) : Prop :=
  ∀ before tr between tr' after b, ts = before ++ tr :: between ++ tr' :: after → Receives tr b →
    Receives tr' b →
    Recalled before b ∨ Recalled (before ++ tr :: between) b

/-! ## What is seen -/

/-- Only `first_time_seen` and the cleanup change what was seen. -/
structure SameSeen (s s' : DiscoveryService) : Prop where
  switchMac : s'.switchMac = s.switchMac
  broadcastsSeen : s'.broadcastsSeen = s.broadcastsSeen

theorem sameSeen_broadcastData (s : DiscoveryService) (now : Nat) (data : Bytes) :
    SameSeen s (s.broadcastData now data) := by
  unfold broadcastData
  dsimp only
  split
  · exact ⟨rfl, rfl⟩
  · exact ⟨rfl, rfl⟩

theorem sameSeen_withTopology (s : DiscoveryService) (topology : LiveTopology) (now : Nat)
    (data : Option Bytes) :
    SameSeen s (s.withTopology topology now data) := by
  cases data with
  | none => exact ⟨rfl, rfl⟩
  | some data =>
      obtain ⟨hmac, hseen⟩ := sameSeen_broadcastData { s with topology := topology } now data
      exact ⟨hmac, hseen⟩

theorem sameSeen_discoveryPortHandler (s : DiscoveryService) (updated stamped : Nat) (phyPort : UInt16) :
    SameSeen s (s.discoveryPortHandler updated stamped phyPort) := by
  unfold discoveryPortHandler
  split
  · exact ⟨rfl, rfl⟩
  · split
    · exact ⟨rfl, rfl⟩
    · exact sameSeen_withTopology ..

section Seen

variable {s s' : DiscoveryService} {p : DiscoveryPacket}

/-- A packet changes what was seen as `first_time_seen` does. -/
theorem seen_udpCallback {t : ClockReadings} {behind : Bytes} {pkt : UdpPacket} {handled : Bool}
    (h : s.udpCallback t behind pkt = .ok (s', handled)) :
    (receivedPacket (.receive t behind pkt) = none ∧ SameSeen s s') ∨
      ∃ p, receivedPacket (.receive t behind pkt) = some p ∧ SameSeen (s.firstTimeSeen p).1 s' := by
  rw [udpCallback] at h
  split at h
  · rename_i hother
    refine .inl ⟨?_, ?_⟩
    · rw [receivedPacket, if_neg (by simpa using hother)]
    · rw [← (Prod.mk.inj (Except.ok.inj h)).1]
      exact ⟨rfl, rfl⟩
  · rename_i hdiscovery
    obtain ⟨discPkt, hread, h⟩ := bind_eq_ok.mp h
    have hreceived : receivedPacket (.receive t behind pkt) = discPkt := by
      rw [receivedPacket, if_pos (by simpa using hdiscovery), hread]
    rw [hreceived]
    cases discPkt with
    | none =>
        rw [← (Prod.mk.inj (Except.ok.inj h)).1]
        exact .inl ⟨rfl, rfl, rfl⟩
    | some p =>
        refine .inr ⟨p, rfl, ?_⟩
        dsimp only at h
        split at h
        · obtain ⟨⟨topology, update⟩, _, h⟩ := bind_eq_ok.mp h
          rw [← (Prod.mk.inj (Except.ok.inj h)).1]
          obtain ⟨hmac, hseen⟩ := sameSeen_withTopology
            (if (s.firstTimeSeen p).2 then (s.firstTimeSeen p).1.fwdBroadcastChangeUdpPort pkt topologyUpdatePort
              else (s.firstTimeSeen p).1) topology t.stamped update
          refine ⟨hmac.trans ?_, hseen.trans ?_⟩
          · split
            · rfl
            · rfl
          · split
            · rfl
            · rfl
        · split at h
          · obtain ⟨topology, _, h⟩ := bind_eq_ok.mp h
            rw [← (Prod.mk.inj (Except.ok.inj h)).1]
            exact ⟨rfl, rfl⟩
          · rw [← (Prod.mk.inj (Except.ok.inj h)).1]
            exact ⟨rfl, rfl⟩

/-- The version of a switch that was seen last. -/
def seenVersion (s : DiscoveryService) (macAddr : MacAddress) : Option Nat :=
  s.broadcastsSeen[macAddr]?.map fun seen => versionNumber seen.1 seen.2

theorem SameSeen.seenVersion (h : SameSeen s s') (macAddr : MacAddress) :
    seenVersion s' macAddr = seenVersion s macAddr := by
  rw [Proof.seenVersion, h.broadcastsSeen, Proof.seenVersion]

/-- Versions are compared in lexicographic order. -/
theorem versionNumber_lt_iff {t t' : UInt32} {n n' : UInt8} :
    versionNumber t n < versionNumber t' n' ↔ t < t' ∨ t' = t ∧ n < n' := by
  have hn := UInt8.toNat_lt n
  have hn' := UInt8.toNat_lt n'
  rw [versionNumber, versionNumber, UInt32.lt_iff_toNat_lt, UInt8.lt_iff_toNat_lt, ← UInt32.toNat_inj]
  omega

theorem seenVersion_remember (s : DiscoveryService) (p : DiscoveryPacket) (macAddr : MacAddress) :
    seenVersion (s.remember p) macAddr =
      if p.srcMac = macAddr then some (broadcastOf p).version else seenVersion s macAddr := by
  show (s.broadcastsSeen.insert p.srcMac (p.timestamp, p.seqNum))[macAddr]?.map _ = _
  rw [getElem?_insert]
  split
  · rfl
  · rfl

/-- A later version, or the first one, is remembered. -/
theorem firstTimeSeen_eq (hmac : p.srcMac ≠ s.switchMac) :
    s.firstTimeSeen p =
      if ∀ v, seenVersion s p.srcMac = some v → v < (broadcastOf p).version then (s.remember p, true)
      else (s, false) := by
  rw [firstTimeSeen, if_neg hmac, seenVersion]
  cases hseen : s.broadcastsSeen[p.srcMac]? with
  | none =>
      rw [if_pos fun v hv => nomatch hv]
  | some seen =>
      have hlt : (∀ v, some (versionNumber seen.1 seen.2) = some v → v < (broadcastOf p).version) ↔
          p.timestamp > seen.1 ∨ p.timestamp = seen.1 ∧ p.seqNum > seen.2 :=
        ⟨fun h => versionNumber_lt_iff.mp (h _ rfl),
          fun h v hv => Option.some.inj hv ▸ versionNumber_lt_iff.mpr h⟩
      show (if p.timestamp > seen.1 then _ else if p.timestamp = seen.1 ∧ p.seqNum > seen.2 then _ else _) = _
      rw [Option.map_some]
      by_cases htime : p.timestamp > seen.1
      · rw [if_pos htime, if_pos (hlt.mpr (.inl htime))]
      · by_cases hnum : p.timestamp = seen.1 ∧ p.seqNum > seen.2
        · rw [if_neg htime, if_pos hnum, if_pos (hlt.mpr (.inr hnum))]
        · rw [if_neg htime, if_neg hnum, if_neg fun h => (hlt.mp h).elim htime hnum]

theorem firstTimeSeen_own (hmac : p.srcMac = s.switchMac) : s.firstTimeSeen p = (s, false) := if_pos hmac

/-- What passes is of another switch, and later than what was seen of it. -/
theorem firstTimeSeen_iff : (s.firstTimeSeen p).2 = true ↔
    p.srcMac ≠ s.switchMac ∧ ∀ v, seenVersion s p.srcMac = some v → v < (broadcastOf p).version := by
  by_cases hmac : p.srcMac = s.switchMac
  · rw [firstTimeSeen_own hmac]
    exact ⟨fun h => (nomatch h), fun h => absurd hmac h.1⟩
  · rw [firstTimeSeen_eq hmac]
    split
    · exact ⟨fun _ => ⟨hmac, ‹_›⟩, fun _ => rfl⟩
    · exact ⟨fun h => (nomatch h), fun h => absurd h.2 ‹_›⟩

/-- The latest version of each other switch is kept. -/
theorem seenVersion_firstTimeSeen {macAddr : MacAddress} (hother : macAddr ≠ s.switchMac) :
    seenVersion (s.firstTimeSeen p).1 macAddr =
      if p.srcMac = macAddr then keepLatest (seenVersion s macAddr) (.offer (broadcastOf p).version)
      else seenVersion s macAddr := by
  by_cases hmac : p.srcMac = macAddr
  · subst hmac
    rw [firstTimeSeen_eq hother, if_pos rfl]
    cases hseen : seenVersion s p.srcMac with
    | none =>
        have hfirst : ∀ v, (none : Option Nat) = some v → v < (broadcastOf p).version :=
          fun v hv => nomatch hv
        rw [if_pos hfirst]
        show seenVersion (s.remember p) p.srcMac = _
        rw [seenVersion_remember, if_pos rfl]
        rfl
    | some v =>
        rw [keepLatest]
        by_cases hlt : v < (broadcastOf p).version
        · rw [if_pos fun w hw => Option.some.inj hw ▸ hlt, if_pos hlt, seenVersion_remember, if_pos rfl]
        · rw [if_neg fun h => hlt (h v rfl), if_neg hlt, hseen]
  · rw [if_neg hmac]
    by_cases hown : p.srcMac = s.switchMac
    · rw [firstTimeSeen_own hown]
    · rw [firstTimeSeen_eq hown]
      split
      · rw [seenVersion_remember, if_neg hmac]
      · rfl

theorem switchMac_firstTimeSeen : (s.firstTimeSeen p).1.switchMac = s.switchMac := by
  by_cases hmac : p.srcMac = s.switchMac
  · rw [firstTimeSeen_own hmac]
  · rw [firstTimeSeen_eq hmac]
    split
    · rfl
    · rfl

/-! ## Steps and runs -/

/-- What is kept of another switch is the latest version offered since it was forgotten last. -/
structure Keeps (own : MacAddress) (ts : List (Transition DiscoveryService DiscoveryInput))
    (s : DiscoveryService) :
    Prop where
  switchMac : s.switchMac = own
  seen : ∀ macAddr ≠ own, seenVersion s macAddr = latest (ts.filterMap (offered macAddr))

section Keeps

variable {own : MacAddress} {ts : List (Transition DiscoveryService DiscoveryInput)}

/-- A step at which nothing is seen. -/
theorem Keeps.of_sameSeen (tr : Transition DiscoveryService DiscoveryInput) (h : Keeps own ts tr.source)
    (hsame : SameSeen tr.source tr.target)
    (hoffered : ∀ m ≠ own, offered m tr = none) : Keeps own (ts ++ [tr]) tr.target := by
  refine ⟨hsame.switchMac.trans h.switchMac, fun m hm => ?_⟩
  rw [List.filterMap_append, List.filterMap_cons, hoffered m hm, hsame.seenVersion, h.seen m hm]
  exact congrArg latest (List.append_nil _).symm

/-- What a step offers is kept. -/
theorem Keeps.seen_append (tr : Transition DiscoveryService DiscoveryInput) (h : Keeps own ts tr.source)
    {m : MacAddress} (hm : m ≠ own)
    (hseen : seenVersion tr.target m =
      (offered m tr).elim (seenVersion tr.source m) (keepLatest (seenVersion tr.source m))) :
    seenVersion tr.target m = latest ((ts ++ [tr]).filterMap (offered m)) := by
  rw [List.filterMap_append, List.filterMap_cons, hseen, h.seen m hm]
  cases offered m tr with
  | none => exact congrArg latest (List.append_nil _).symm
  | some e => exact (latest_append _ e).symm

/-- A cleanup forgets what is old, and keeps the rest. -/
theorem seenVersion_clean (s : DiscoveryService) (now : Nat) (m : MacAddress) :
    seenVersion (s.cleanBroadcastsSeen now) m =
      match s.broadcastsSeen[m]? with
      | some seen => if isForgotten (msSinceEpoch now) seen.1 then none else seenVersion s m
      | none => seenVersion s m := by
  have hfilter : (s.cleanBroadcastsSeen now).broadcastsSeen[m]? =
      s.broadcastsSeen[m]?.filter fun seen => !isForgotten (msSinceEpoch now) seen.1 :=
        ExtTreeMap.getElem?_filter'
  rw [seenVersion, hfilter, seenVersion]
  cases s.broadcastsSeen[m]? with
  | none => rfl
  | some seen =>
      rw [Option.filter_some]
      dsimp only
      cases isForgotten (msSinceEpoch now) seen.1 with
      | true => rfl
      | false => rfl

theorem Keeps.step {input : DiscoveryInput} (h : Keeps own ts s) (hstep : s.step input = some s') :
    Keeps own (ts ++ [(⟨s, input, s'⟩ : Transition DiscoveryService DiscoveryInput)]) s' := by
  cases input with
  | receive t behind pkt =>
      rw [DiscoveryService.step] at hstep
      split at hstep
      · cases hstep
      · rename_i handled hcallback
        obtain rfl := Option.some.inj hstep
        -- only a discovery packet is seen, whatever becomes of it afterwards
        rcases seen_udpCallback hcallback with ⟨hnone, hsame⟩ | ⟨p, hreceived, hsame⟩
        · refine Keeps.of_sameSeen ⟨s, .receive t behind pkt, _⟩ h hsame fun m _ => ?_
          simp only [offered, hnone]
        · refine ⟨?_, fun m hm => Keeps.seen_append ⟨s, .receive t behind pkt, _⟩ h hm ?_⟩
          · exact hsame.switchMac.trans (switchMac_firstTimeSeen.trans h.switchMac)
          · show seenVersion _ m = _
            rw [hsame.seenVersion, seenVersion_firstTimeSeen (h.switchMac ▸ hm)]
            simp only [offered, hreceived]
            split
            · rfl
            · rfl
  | clean now =>
      obtain rfl := Option.some.inj hstep
      refine ⟨h.switchMac, fun m hm =>
        Keeps.seen_append ⟨s, .clean now, s.cleanBroadcastsSeen now⟩ h hm ?_⟩
      show seenVersion (s.cleanBroadcastsSeen now) m = _
      rw [seenVersion_clean]
      simp only [offered]
      split
      · split
        · exact (keepLatest_forget _).symm
        · rfl
      · rfl
  | portModified switchPorts updated stamped phyPort =>
      obtain rfl := Option.some.inj hstep
      obtain ⟨hmac, hseen⟩ :=
        sameSeen_discoveryPortHandler { s with switchPorts := switchPorts } updated stamped phyPort
      exact Keeps.of_sameSeen ⟨s, .portModified switchPorts updated stamped phyPort, _⟩ h ⟨hmac, hseen⟩
        fun _ _ => rfl
  | heartbeat now updated stamped =>
      have hs' : s' = s.withTopology (s.topology.heartbeat now updated).1 stamped
          (some (s.topology.heartbeat now updated).2) := (Option.some.inj hstep).symm
      rw [hs']
      have hsame := sameSeen_withTopology s (s.topology.heartbeat now updated).1 stamped
        (some (s.topology.heartbeat now updated).2)
      exact Keeps.of_sameSeen ⟨s, .heartbeat now updated stamped, _⟩ h hsame fun _ _ => rfl
  | sweep now =>
      obtain rfl := Option.some.inj hstep
      exact Keeps.of_sameSeen ⟨s, .sweep now, _⟩ h ⟨rfl, rfl⟩ fun _ _ => rfl

end Keeps

end Seen

section Run

variable {s₀ s : DiscoveryService} {ts : List (Transition DiscoveryService DiscoveryInput)}

theorem keeps_run (hstart : s₀.broadcastsSeen = ∅) (hrun : Run DiscoveryService.step s₀ ts s) :
    Keeps s₀.switchMac ts s := by
  induction hrun with
  | nil =>
      refine ⟨rfl, fun m _ => ?_⟩
      rw [seenVersion, hstart, ExtTreeMap.getElem?_empty]
      rfl
  | snoc _ hstep ih => exact ih.step hstep

/-- **A broadcast passes exactly if it is of another switch, and not recalled.** -/
theorem passes_iff (hstart : s₀.broadcastsSeen = ∅) (hrun : Run DiscoveryService.step s₀ ts s)
    {before after : List (Transition DiscoveryService DiscoveryInput)}
    {tr : Transition DiscoveryService DiscoveryInput} (hts : ts = before ++ tr :: after) (b : Broadcast) :
    Passes tr b ↔ Receives tr b ∧ ¬ Recalled before b := by
  have hkeeps := keeps_run hstart (hrun.before hts)
  have hrecalled : ∀ p, broadcastOf p = b → p.srcMac ≠ tr.source.switchMac →
      ((∀ v, seenVersion tr.source p.srcMac = some v → v < (broadcastOf p).version) ↔
        ¬ Recalled before b) := by
    rintro p rfl hmac
    rw [hkeeps.seen _ (hkeeps.switchMac ▸ hmac), Recalled, known_iff]
    refine ⟨fun hlt ⟨v, hv, hle⟩ => Nat.lt_irrefl _ (Nat.lt_of_lt_of_le (hlt v hv) hle), fun hno v hv => ?_⟩
    exact Nat.lt_of_not_le fun hle => hno ⟨v, hv, hle⟩
  refine ⟨fun ⟨p, hp, hb, hfirst⟩ => ?_, fun ⟨⟨hreceived, hmac⟩, hno⟩ => ?_⟩
  · obtain ⟨hmac, hlater⟩ := firstTimeSeen_iff.mp hfirst
    refine ⟨⟨?_, ?_⟩, (hrecalled p hb hmac).mp hlater⟩
    · rw [hp, Option.map_some, hb]
    · rw [← hb]
      exact hmac
  · obtain ⟨p, hp, hb⟩ := Option.map_eq_some_iff.mp hreceived
    have hmac : p.srcMac ≠ tr.source.switchMac := by
      rw [← hb] at hmac
      exact hmac
    exact ⟨p, hp, hb, firstTimeSeen_iff.mpr ⟨hmac, (hrecalled p hb hmac).mpr hno⟩⟩

/--
**Every broadcast passes at most once exactly in the runs where, at one of any two
receptions of a broadcast, it is recalled.**
-/
theorem passesOnce_iff (hstart : s₀.broadcastsSeen = ∅) (hrun : Run DiscoveryService.step s₀ ts s) :
    PassesOnce ts ↔ RecalledOnReturn ts := by
  rw [PassesOnce, pairwise_iff_split]
  refine ⟨fun h before tr between tr' after b hts hr hr' => ?_,
    fun h before tr between tr' after hts b hp hp' => ?_⟩
  · by_contra hnone
    rw [not_or] at hnone
    have hts' : ts = before ++ tr :: (between ++ tr' :: after) := by rw [hts, List.append_assoc]; rfl
    -- recalled at neither reception, it would pass at both
    have hfirst := (passes_iff hstart hrun hts' b).mpr ⟨hr, hnone.1⟩
    exact h before tr between tr' after hts b hfirst ((passes_iff hstart hrun hts b).mpr ⟨hr', hnone.2⟩)
  · have hts' : ts = before ++ tr :: (between ++ tr' :: after) := by rw [hts, List.append_assoc]; rfl
    obtain ⟨hr, hno⟩ := (passes_iff hstart hrun hts' b).mp hp
    obtain ⟨hr', hno'⟩ := (passes_iff hstart hrun hts b).mp hp'
    exact (h before tr between tr' after b hts hr hr').elim hno hno'

end Run

/-! ## A broadcast that comes twice -/

def ownMac : MacAddress := .ofOctets 2 0 0 0 0 1

/-- The service of a switch without ports, before it has heard of any other. -/
def silentService : DiscoveryService where
  switchMac := ownMac
  switchIp := IpAddress.nil
  switchPorts := []
  topology := {}

/-- A broadcast of another switch, stamped with 5 ms. -/
def neighborBroadcast : DiscoveryPacket where
  srcMac := .ofOctets 2 0 0 0 0 2
  timestamp := 5

def receiveNeighbor : DiscoveryInput :=
  .receive ⟨5, 5, 5, 5⟩ []
    { destPort := topologyUpdatePort, udpPayload := .ofBytes neighborBroadcast.serialize }

theorem receivedPacket_receiveNeighbor : receivedPacket receiveNeighbor = some neighborBroadcast := by rfl

def afterNeighbor : DiscoveryService := (silentService.step receiveNeighbor).getD silentService

theorem step_receiveNeighbor : silentService.step receiveNeighbor = some afterNeighbor := by rfl

/-- It comes twice in a row, and passes once. -/
theorem passesOnce_twice : ∃ ts s, Run DiscoveryService.step silentService ts s ∧ ts.length = 2 ∧
    PassesOnce ts := by
  obtain ⟨s, hstep⟩ : ∃ s, afterNeighbor.step receiveNeighbor = some s := ⟨_, rfl⟩
  have hrun := Run.snoc (Run.snoc Run.nil step_receiveNeighbor) hstep
  refine ⟨_, s, hrun, rfl, (passesOnce_iff rfl hrun).mpr fun before tr between tr' after b hts hr _ => .inr ?_⟩
  have hlen := congrArg List.length hts
  simp only [List.length_append, List.length_cons, List.length_nil] at hlen
  -- two steps leave no room but for one split
  obtain rfl : before = [] := List.length_eq_zero_iff.mp (by omega)
  obtain rfl : between = [] := List.length_eq_zero_iff.mp (by omega)
  obtain ⟨rfl, _⟩ := List.cons.inj hts
  have hb : broadcastOf neighborBroadcast = b := by
    have hreceived := hr.1
    rw [receivedPacket_receiveNeighbor] at hreceived
    exact Option.some.inj hreceived
  rw [← hb]
  exact ⟨[], _, [], rfl, Nat.le_refl _, List.not_mem_nil⟩

/-- After a cleanup at 20 s nothing is recalled. -/
theorem firstTimeSeen_cleaned : (afterNeighbor.cleanBroadcastsSeen 20000).firstTimeSeen neighborBroadcast =
    ((afterNeighbor.cleanBroadcastsSeen 20000).remember neighborBroadcast, true) := by
  have hseen : afterNeighbor.broadcastsSeen[neighborBroadcast.srcMac]? = some (5, 0) := by rfl
  have hforgotten : (afterNeighbor.cleanBroadcastsSeen 20000).broadcastsSeen[neighborBroadcast.srcMac]? =
    none := by
    refine ExtTreeMap.getElem?_filter'.trans ?_
    rw [hseen]
    rfl
  rw [firstTimeSeen, if_neg (by decide), hforgotten]

/-- What passes can be handled. -/
theorem exists_step {s s' : DiscoveryService} (h : s.firstTimeSeen neighborBroadcast = (s', true)) :
    ∃ s'', s.step receiveNeighbor = some s'' := by
  have hupdate : ∀ g : LiveTopology, ∃ g', g.updateTopology 5 neighborBroadcast.srcMac
      ⟨neighborBroadcast.data ++ [], neighborBroadcast.data.length⟩ = .ok g' := by
    intro g
    unfold LiveTopology.updateTopology
    rw [show TopologyNode.deserialize ⟨neighborBroadcast.data ++ [], neighborBroadcast.data.length⟩ =
      .ok (false, {}) from rfl, ok_bind]
    dsimp only
    split
    · exact ⟨_, rfl⟩
    · exact ⟨_, rfl⟩
  have hread : DiscoveryPacket.deserialize (.ofBytes neighborBroadcast.serialize) =
    .ok (some neighborBroadcast) := rfl
  rw [receiveNeighbor, DiscoveryService.step]
  unfold udpCallback
  rw [if_neg (by decide), hread, ok_bind]
  dsimp only
  rw [h, if_neg (by decide), if_pos rfl]
  obtain ⟨g', hg'⟩ := hupdate (s'.fwdBroadcastSameUdpPort
    { destPort := topologyUpdatePort, udpPayload := .ofBytes neighborBroadcast.serialize }).topology
  dsimp only
  rw [hg']
  exact ⟨_, rfl⟩

/-- A cleanup comes between, and it passes twice. -/
theorem passes_twice : ∃ ts s, Run DiscoveryService.step silentService ts s ∧ ¬ PassesOnce ts := by
  obtain ⟨s, hstep⟩ := exists_step firstTimeSeen_cleaned
  have hclean : afterNeighbor.step (.clean 20000) = some (afterNeighbor.cleanBroadcastsSeen 20000) := rfl
  have hrun := Run.snoc (Run.snoc (Run.snoc Run.nil step_receiveNeighbor) hclean) hstep
  refine ⟨_, s, hrun, fun hpairwise => ?_⟩
  have hfirst := (List.pairwise_cons.mp hpairwise).1 _ (List.mem_cons_of_mem _ List.mem_cons_self)
  refine hfirst (broadcastOf neighborBroadcast) ⟨_, receivedPacket_receiveNeighbor, rfl, rfl⟩
    ⟨_, receivedPacket_receiveNeighbor, rfl, ?_⟩
  exact congrArg Prod.snd firstTimeSeen_cleaned

end IronStack.Proof
