import IronStack.Proof.NodeCodec
import IronStack.Proof.Updates

/-!
# The versions that a node sends

A node stamps its updates with 32 bits of the clock and a number of 8 bits. A receiver
that has one of them takes every later one, as long as among any 256 updates in a row
there is one at which the clock shows more than at all updates before.
-/

namespace IronStack.Proof

open IronStack Lib Std LiveTopology

/-- What the clock showed at the updates that were sent. -/
def clockTimes (s : TopologySystem) : List Nat := s.broadcasts.map fun b => (msSinceEpoch b.1).toNat

/-- A receiver that has an update takes another for later. -/
def TakenAfter (b b' : Nat × Bytes) : Prop :=
  ∃ n n', TopologyNode.deserialize (.ofBytes b.2) = .ok (true, n) ∧
    TopologyNode.deserialize (.ofBytes b'.2) = .ok (true, n') ∧ n.isNewer n'

/-- Among any 256 updates in a row there is one at which the clock shows more than at all before. -/
def ClockMovesOn (times : List Nat) : Prop :=
  ∀ before stretch after, times = before ++ stretch ++ after → stretch.length = 256 →
    ∃ t ∈ stretch, 0 < t ∧ ∀ u ∈ before, u < t

/-! ## Sending -/

/-- The version of an update that is sent is the stamp that follows the last one. -/
theorem versionOf_sendUpdate (s : LiveTopology) (now : Nat) :
    versionOf (s.sendUpdate now).1.me = (versionOf s.me).next 256 (msSinceEpoch now).toNat := by
  have hiff : (versionOf s.me).time < (msSinceEpoch now).toNat ↔ s.me.lastRefresh < msSinceEpoch now :=
    UInt32.lt_iff_toNat_lt.symm
  rw [sendUpdate, Stamp.next]
  dsimp only
  by_cases hlt : s.me.lastRefresh < msSinceEpoch now
  · rw [if_pos hlt, if_pos (hiff.mpr hlt)]
    rfl
  · rw [if_neg hlt, if_neg fun h => hlt (hiff.mp h), versionOf]
    dsimp only
    rw [UInt8.toNat_add]
    rfl

/-- A step sends an update with the next version, or none and leaves the version alone. -/
structure Sends (s s' : TopologySystem) (now : Nat) (n : TopologyNode) : Prop where
  version : versionOf n = (versionOf s.graph.me).next 256 (msSinceEpoch now).toNat
  me : s'.graph.me = n
  broadcasts : s'.broadcasts = s.broadcasts ++ [(now, n.serialize)]

/-- `send_update`, for a node of the version that the system had. -/
theorem sends_of_sendUpdate {s : TopologySystem} {g : LiveTopology} {now : Nat}
    (hversion : versionOf g.me = versionOf s.graph.me) :
    Sends s (s.broadcast (g.sendUpdate now).1 now (some (g.sendUpdate now).2)) now
      (g.sendUpdate now).1.me := by
  refine ⟨?_, rfl, rfl⟩
  rw [versionOf_sendUpdate, hversion]

theorem broadcast_none (s : TopologySystem) (g : LiveTopology) (now : Nat) :
    (s.broadcast g now none).broadcasts = s.broadcasts := List.append_nil _

/-- A port that changes is told to the others. -/
theorem updateLocalPort_cases (s : LiveTopology) (now : Nat) (p : OpenflowPort) :
    (∃ g : LiveTopology, versionOf g.me = versionOf s.me ∧
        s.updateLocalPort now p = ((g.sendUpdate now).1, some (g.sendUpdate now).2)) ∨
      ∃ g : LiveTopology, versionOf g.me = versionOf s.me ∧ s.updateLocalPort now p = (g, none) := by
  unfold updateLocalPort
  dsimp only
  split
  · refine .inl ⟨_, ?_, rfl⟩
    rfl
  · refine .inr ⟨_, ?_, rfl⟩
    rfl

/-- What a step sends. -/
theorem sends_or_keeps {s s' : TopologySystem} {input : TopologyInput}
    (hstep : TopologySystem.step s input = some s') :
    (∃ now n, Sends s s' now n) ∨
      versionOf s'.graph.me = versionOf s.graph.me ∧ s'.broadcasts = s.broadcasts := by
  cases input with
  | updateLocalPort now modifiedPort =>
      have hs' : s' = s.broadcast (s.graph.updateLocalPort now modifiedPort).1 now
          (s.graph.updateLocalPort now modifiedPort).2 := (Option.some.inj hstep).symm
      rw [hs']
      rcases updateLocalPort_cases s.graph now modifiedPort with ⟨g, hversion, heq⟩ | ⟨g, hversion, heq⟩
      · rw [heq]
        exact .inl ⟨now, _, sends_of_sendUpdate hversion⟩
      · rw [heq]
        exact .inr ⟨hversion, broadcast_none ..⟩
  | updateNeighbor now refreshed sent phyPort neighborMac data =>
      rw [TopologySystem.step] at hstep
      split at hstep
      · cases hstep
      · rename_i graph sentData hneighbor
        obtain rfl := Option.some.inj hstep
        obtain ⟨g, hg, hsend⟩ := bind_eq_ok.mp hneighbor
        obtain ⟨_, _, _, hme, _⟩ := updateTopology_cases hg
        have hversion : versionOf g.me = versionOf s.graph.me := (congrArg versionOf hme).trans rfl
        dsimp only at hsend
        split at hsend
        · obtain ⟨rfl, rfl⟩ := Prod.mk.inj (Except.ok.inj hsend)
          exact .inl ⟨sent, _, sends_of_sendUpdate hversion⟩
        · obtain ⟨rfl, rfl⟩ := Prod.mk.inj (Except.ok.inj hsend)
          exact .inr ⟨hversion, broadcast_none ..⟩
  | updateTopology now macAddr data =>
      rw [TopologySystem.step] at hstep
      split at hstep
      · cases hstep
      · rename_i graph hgraph
        obtain rfl := Option.some.inj hstep
        obtain ⟨_, _, _, hme, _⟩ := updateTopology_cases hgraph
        exact .inr ⟨congrArg versionOf hme, rfl⟩
  | heartbeat now sent =>
      rw [← Option.some.inj hstep]
      exact .inl ⟨sent, _, sends_of_sendUpdate rfl⟩
  | sweep now =>
      rw [← Option.some.inj hstep]
      exact .inr ⟨rfl, rfl⟩

/-- The updates that were sent are those of nodes with the stamps of the clock. -/
structure Stamped (s : TopologySystem) (updates : List (Nat × TopologyNode)) : Prop where
  broadcasts : s.broadcasts = updates.map fun u => (u.1, u.2.serialize)
  versions : (updates.map fun u => versionOf u.2) = Stamp.all 256 ⟨0, 0⟩ (clockTimes s)
  me : versionOf s.graph.me = Stamp.last 256 (clockTimes s)

theorem Stamped.step {s s' : TopologySystem} {input : TopologyInput} {updates : List (Nat × TopologyNode)}
    (h : Stamped s updates) (hstep : TopologySystem.step s input = some s') :
      ∃ updates, Stamped s' updates := by
  rcases sends_or_keeps hstep with ⟨now, n, hsends⟩ | ⟨hversion, hbroadcasts⟩
  · have htimes : clockTimes s' = clockTimes s ++ [(msSinceEpoch now).toNat] := by
      rw [clockTimes, hsends.broadcasts, List.map_append]
      rfl
    have hversion : versionOf n = (Stamp.last 256 (clockTimes s)).next 256 (msSinceEpoch now).toNat := by
      rw [hsends.version, h.me]
    refine ⟨updates ++ [(now, n)], ?_, ?_, ?_⟩
    · rw [hsends.broadcasts, List.map_append, h.broadcasts]
      rfl
    · rw [htimes, Stamp.all_append, List.map_append, h.versions]
      exact congrArg (fun v => _ ++ [v]) hversion
    · rw [htimes, Stamp.last_append, hsends.me, hversion]
  · refine ⟨updates, ?_, ?_, ?_⟩
    · rw [hbroadcasts, h.broadcasts]
    · rw [clockTimes, hbroadcasts, h.versions, clockTimes]
    · rw [clockTimes, hbroadcasts, hversion, h.me, clockTimes]

/-- Receivers compare the versions that were sent. -/
theorem takenAfter_iff (t t' : Nat) (n n' : TopologyNode) :
    TakenAfter (t, n.serialize) (t', n'.serialize) ↔ (versionOf n).Before (versionOf n') := by
  rw [TakenAfter, deserialize_serialize_node, deserialize_serialize_node]
  refine ⟨fun ⟨m, m', hm, hm', hnewer⟩ => ?_, fun hbefore => ⟨_, _, rfl, rfl, isNewer_iff.mpr hbefore⟩⟩
  rw [← (Prod.mk.inj (Except.ok.inj hm)).2, ← (Prod.mk.inj (Except.ok.inj hm')).2] at hnewer
  exact isNewer_iff.mp hnewer

/-- Receivers take every later update exactly if the stamps increase. -/
theorem Stamped.allTaken_iff {s : TopologySystem} {updates : List (Nat × TopologyNode)}
    (h : Stamped s updates) :
    s.broadcasts.Pairwise TakenAfter ↔ ClockMovesOn (clockTimes s) := by
  have hbefore : s.broadcasts.Pairwise TakenAfter ↔
      (Stamp.all 256 ⟨0, 0⟩ (clockTimes s)).Pairwise Stamp.Before := by
    rw [h.broadcasts, ← h.versions, List.pairwise_map, List.pairwise_map]
    simp only [takenAfter_iff]
  rw [hbefore, increasing_iff (by omega), busy_iff]
  rfl

/-- A node as it is started. -/
def started (macAddr : MacAddress) (ipAddr : IpAddress) (name : String) (ports : List OpenflowPort) :
    TopologySystem := ⟨.init macAddr ipAddr name ports, []⟩

section Run

variable {macAddr : MacAddress} {ipAddr : IpAddress} {name : String} {ports : List OpenflowPort}
  {ts : List (Transition TopologySystem TopologyInput)} {s : TopologySystem}

theorem exists_stamped (hrun : Run TopologySystem.step (started macAddr ipAddr name ports) ts s) :
    ∃ updates, Stamped s updates :=
  (hrun.invariant (fun s => ∃ updates, Stamped s updates) ⟨[], rfl, rfl, rfl⟩
    fun _ _ _ ⟨_, h⟩ hstep => h.step hstep).1

/--
**Every later update is taken by whoever has an earlier one exactly if the clock
moves on**: the versions that a node sends increase if and only if among any 256
updates in a row there is one at which the clock shows more than ever before.
-/
theorem taken_iff (hrun : Run TopologySystem.step (started macAddr ipAddr name ports) ts s) :
    s.broadcasts.Pairwise TakenAfter ↔ ClockMovesOn (clockTimes s) := by
  obtain ⟨updates, h⟩ := exists_stamped hrun
  exact h.allTaken_iff

end Run

/-- A node can send updates at any times. -/
theorem exists_heartbeats (times : List Nat) : ∃ ts s,
    Run TopologySystem.step (started MacAddress.nil IpAddress.nil "" []) ts s ∧
      s.broadcasts.map Prod.fst = times := by
  induction times using List.reverseRecOn with
  | nil => exact ⟨[], _, .nil, rfl⟩
  | append_singleton times now ih =>
      obtain ⟨ts, s, hrun, htimes⟩ := ih
      refine ⟨_, _, .snoc hrun (show TopologySystem.step s (.heartbeat now now) = some _ from rfl), ?_⟩
      rw [← htimes]
      exact List.map_append ..

theorem clockTimes_eq {s : TopologySystem} {times : List Nat} (h : s.broadcasts.map Prod.fst = times) :
    clockTimes s = times.map fun now => (msSinceEpoch now).toNat := by
  rw [← h, List.map_map]
  rfl

/-- Two updates in one millisecond, and one in the next. -/
theorem taken_three : ∃ ts s, Run TopologySystem.step (started MacAddress.nil IpAddress.nil "" []) ts s ∧
    s.broadcasts.length = 3 ∧ s.broadcasts.Pairwise TakenAfter := by
  obtain ⟨ts, s, hrun, htimes⟩ := exists_heartbeats [1, 1, 2]
  have hlen : s.broadcasts.length = 3 := by
    rw [← List.length_map (f := Prod.fst), htimes]
    rfl
  refine ⟨ts, s, hrun, hlen, (taken_iff hrun).mpr fun before stretch after heq hstretch => ?_⟩
  have htotal := congrArg List.length heq
  rw [clockTimes, List.length_map, hlen, List.length_append, List.length_append, hstretch] at htotal
  omega

/-- A node sends an update every two seconds, the first just before the clock starts again from 0. -/
def wrappingTimes : List Nat := 4294967295 :: (List.range 256).map fun i => 4294967296 + 2000 * i

/-- The last update is not taken by anyone who has the one before. -/
theorem not_taken_after_wrap : ∃ ts s, Run TopologySystem.step
    (started MacAddress.nil IpAddress.nil "" []) ts s ∧
    (s.broadcasts.map Prod.fst).Pairwise (· ≤ ·) ∧ ¬ s.broadcasts.Pairwise TakenAfter := by
  obtain ⟨ts, s, hrun, htimes⟩ := exists_heartbeats wrappingTimes
  obtain ⟨updates, hstamped⟩ := exists_stamped hrun
  refine ⟨ts, s, hrun, ?_, fun htaken => ?_⟩
  · rw [htimes, wrappingTimes, List.pairwise_cons, List.pairwise_map]
    refine ⟨fun t ht => ?_, List.pairwise_lt_range.imp fun hlt => by omega⟩
    obtain ⟨i, _, rfl⟩ := List.mem_map.mp ht
    omega
  · have hmoves := hstamped.allTaken_iff.mp htaken
    have hclock : clockTimes s = [4294967295] ++
        (List.range 256).map (fun i => (msSinceEpoch (4294967296 + 2000 * i)).toNat) ++ [] := by
      rw [clockTimes_eq htimes, wrappingTimes, List.map_cons, List.map_map, List.append_nil]
      rfl
    obtain ⟨t, ht, _, hmore⟩ := hmoves _ _ _ hclock (by rw [List.length_map, List.length_range])
    obtain ⟨i, _, rfl⟩ := List.mem_map.mp ht
    have hlt := UInt32.toNat_lt (msSinceEpoch (4294967296 + 2000 * i))
    have hlast := hmore 4294967295 (List.mem_singleton.mpr rfl)
    omega

end IronStack.Proof
