import IronStack.Stats.OperationalStats
import Mathlib.Data.List.Forall2
import Mathlib.Data.List.Induction

/-!
# What the published port counters count

The first complete reply that is not empty is kept, and from every later counter that
of the same port in it is subtracted, at 64 bits. A switch that starts a counter
again falls below what was kept, and the difference wraps.
-/

namespace IronStack.Proof

open IronStack Lib

/-- A complete reply, in one message or more, of which all but the last announce another. -/
structure PortReply where
  xid : UInt32
  leading : List (List PortStats)
  last : List PortStats

namespace PortReply

def messages (r : PortReply) : List (StatsReply PortStats) :=
  r.leading.map (fun items => ⟨r.xid, items, true⟩) ++ [⟨r.xid, r.last, false⟩]

/-- The ports that it reports. -/
def ports (r : PortReply) : List PortStats := r.leading.flatten ++ r.last

end PortReply

/-- The service takes the messages of a reply. -/
def receive (s : OperationalStats) (r : PortReply) : OperationalStats :=
  r.messages.foldl OperationalStats.updatePortStats s

/-- The counters of a port. -/
def counters : List (PortStats → UInt64) :=
  [PortStats.rxPackets, PortStats.txPackets, PortStats.rxBytes, PortStats.txBytes, PortStats.rxDropped,
    PortStats.txDropped, PortStats.rxErrors, PortStats.txErrors, PortStats.rxFrameErrors,
    PortStats.rxOverrunErrors, PortStats.rxCrcErrors, PortStats.collisionErrors]

/-- What a reply counts for a port: zero if the port is not in it. -/
def counted (reply : List PortStats) (port : UInt16) (counter : PortStats → UInt64) : UInt64 :=
  ((reply.find? fun i => i.port == port).map counter).getD 0

/-- Each counter is the current one minus that of the first reply, as numbers. -/
structure Delta (first : List PortStats) (current published : PortStats) : Prop where
  port : published.port = current.port
  counters : ∀ counter ∈ counters, ((counter published).toNat : Int) =
    (counter current).toNat - (counted first current.port counter).toNat

/-- The first complete reply. -/
def firstReply (rs : List PortReply) : List PortStats := (rs.head?.map PortReply.ports).getD []

/-- The first complete reply that reports any ports. -/
def baseline (rs : List PortReply) : List PortStats :=
  ((rs.map PortReply.ports).find? fun ports => !ports.isEmpty).getD []

/-- No counter is below that of its port in the first reply; if there were no ports in that, the
counters of the first ports reported are zero. -/
def Countable (rs : List PortReply) : Prop :=
  ∀ r ∈ rs, ∀ current ∈ r.ports, ∀ counter ∈ counters,
    if firstReply rs = [] then counted (baseline rs) current.port counter = 0
    else counted (firstReply rs) current.port counter ≤ counter current

/-! ## One reply -/

section Receive

variable {s : OperationalStats} {xid : UInt32} {acc : List PortStats}

/-- A message with the xid is put to what was gathered so far. -/
def Gathering (s : OperationalStats) (xid : UInt32) (acc : List PortStats) : Prop :=
  ∀ items more, s.portStats.collect ⟨xid, items, more⟩ =
    { s.portStats with statsShadow := acc ++ items, statsXid := xid, statsCompleted := !more }

theorem gathering_of_completed (h : s.portStats.statsCompleted = true) (xid : UInt32) :
    Gathering s xid [] := fun _ _ => if_pos (.inl h)

/-- A message that announces more. -/
theorem Gathering.more (h : Gathering s xid acc) (items : List PortStats) :
    Gathering (s.updatePortStats ⟨xid, items, true⟩) xid (acc ++ items) ∧
      (s.updatePortStats ⟨xid, items, true⟩).portStatsInitial = s.portStatsInitial := by
  have heq : s.updatePortStats ⟨xid, items, true⟩ = { s with portStats :=
      { s.portStats with statsShadow := acc ++ items, statsXid := xid, statsCompleted := false } } := by
    rw [OperationalStats.updatePortStats, h items true]
    rfl
  rw [heq]
  refine ⟨fun next more => ?_, rfl⟩
  rw [CollectedStats.collect, if_neg, if_pos ⟨by simp, rfl⟩]
  simp

/-- The last message. -/
theorem Gathering.last (h : Gathering s xid acc) (items : List PortStats) :
    let s' := s.updatePortStats ⟨xid, items, false⟩
    s'.portStats.statsCompleted = true ∧
      s'.portStatsInitial = (if s.portStatsInitial.isEmpty then acc ++ items else s.portStatsInitial) ∧
        s'.portStats.stats = sinceInitial s'.portStatsInitial (acc ++ items) := by
  intro s'
  have heq : s' = s.updatePortStats ⟨xid, items, false⟩ := rfl
  rw [OperationalStats.updatePortStats, h items false] at heq
  rw [heq]
  exact ⟨rfl, rfl, rfl⟩

theorem Gathering.leading (h : Gathering s xid acc) (leading : List (List PortStats)) :
    let s' := (leading.map fun items => (⟨xid, items, true⟩ : StatsReply PortStats)).foldl
      OperationalStats.updatePortStats s
    Gathering s' xid (acc ++ leading.flatten) ∧ s'.portStatsInitial = s.portStatsInitial := by
  induction leading generalizing s acc with
  | nil =>
      rw [List.flatten_nil, List.append_nil]
      exact ⟨h, rfl⟩
  | cons items leading ih =>
      obtain ⟨hmore, hinitial⟩ := h.more items
      obtain ⟨hrest, hsame⟩ := ih hmore
      rw [List.flatten_cons, ← List.append_assoc]
      exact ⟨hrest, hsame.trans hinitial⟩

/-- What a complete reply leaves. -/
theorem receive_eq (h : s.portStats.statsCompleted = true) (r : PortReply) :
    (receive s r).portStats.statsCompleted = true ∧
      (receive s r).portStatsInitial = (if s.portStatsInitial.isEmpty then r.ports else s.portStatsInitial) ∧
        (receive s r).portStats.stats = sinceInitial (receive s r).portStatsInitial r.ports := by
  obtain ⟨hgathering, hinitial⟩ := (gathering_of_completed h r.xid).leading r.leading
  have hlast := hgathering.last r.last
  rw [hinitial] at hlast
  rw [receive, PortReply.messages, List.foldl_append]
  exact hlast

end Receive

/-! ## A sequence of replies -/

section Replies

variable {s : OperationalStats} {rs : List PortReply}

theorem baseline_concat (rs : List PortReply) (r : PortReply) :
    baseline (rs ++ [r]) = if (baseline rs).isEmpty then r.ports else baseline rs := by
  rw [baseline, List.map_append, List.find?_append]
  cases hfound : (rs.map PortReply.ports).find? fun ports => !ports.isEmpty with
  | none =>
      rw [baseline, hfound]
      cases hports : r.ports with
      | nil => simp [hports]
      | cons p ps => simp [hports]
  | some ports =>
      have hne := List.find?_some hfound
      rw [baseline, hfound, Option.getD_some, if_neg (by simpa using hne)]
      rfl

/-- What is kept is the baseline. -/
theorem receive_all (hcompleted : s.portStats.statsCompleted = true) (hinitial : s.portStatsInitial = [])
    (rs : List PortReply) : (rs.foldl receive s).portStats.statsCompleted = true ∧
      (rs.foldl receive s).portStatsInitial = baseline rs := by
  induction rs using List.reverseRecOn with
  | nil => exact ⟨hcompleted, hinitial⟩
  | append_singleton rs r ih =>
      obtain ⟨hdone, hkept, _⟩ := receive_eq ih.1 r
      rw [List.foldl_concat, baseline_concat, ← ih.2]
      exact ⟨hdone, hkept⟩

theorem published_eq (hcompleted : s.portStats.statsCompleted = true) (hinitial : s.portStatsInitial = [])
    (before : List PortReply) (r : PortReply) :
    ((before ++ [r]).foldl receive s).portStats.stats = sinceInitial (baseline (before ++ [r])) r.ports := by
  have hkept := (receive_all hcompleted hinitial (before ++ [r])).2
  have hpublished := (receive_eq (receive_all hcompleted hinitial before).1 r).2.2
  rw [List.foldl_concat] at hkept ⊢
  rw [← hkept, hpublished]

/-- Once ports were reported the baseline stays. -/
theorem baseline_append {rs : List PortReply} (h : baseline rs ≠ []) (after : List PortReply) :
    baseline (rs ++ after) = baseline rs := by
  rw [baseline] at h ⊢
  rw [List.map_append, List.find?_append]
  cases hfound : (rs.map PortReply.ports).find? fun ports => !ports.isEmpty with
  | none =>
      rw [hfound] at h
      exact absurd rfl h
  | some ports => rw [baseline, hfound]; rfl

theorem baseline_of_first (h : firstReply rs ≠ []) : baseline rs = firstReply rs := by
  cases rs with
  | nil => exact absurd rfl h
  | cons r rs =>
      have hports : firstReply (r :: rs) = r.ports := rfl
      rw [hports] at h ⊢
      rw [baseline, List.map_cons, List.find?_cons_of_pos (by simpa using h)]
      rfl

end Replies

/-! ## Differences -/

section Differences

variable {first base : List PortStats} {current : PortStats}

theorem counter_since (current initial : PortStats) : ∀ counter ∈ counters,
    counter (current.since initial) = counter current - counter initial := by
  intro counter hcounter
  simp only [counters, List.mem_cons, List.not_mem_nil, or_false] at hcounter
  rcases hcounter with rfl | rfl | rfl | rfl | rfl | rfl | rfl | rfl | rfl | rfl | rfl | rfl <;> rfl

/-- What is published for a port. -/
def publishedFor (base : List PortStats) (current : PortStats) : PortStats :=
  match base.find? fun i => i.port == current.port with
  | some i => current.since i
  | none => current

theorem publishedFor_counter (base : List PortStats) (current : PortStats) : ∀ counter ∈ counters,
    counter (publishedFor base current) = counter current - counted base current.port counter := by
  intro counter hcounter
  rw [publishedFor, counted]
  cases base.find? fun i => i.port == current.port with
  | none => exact (UInt64.sub_zero _).symm
  | some i => exact counter_since current i counter hcounter

theorem publishedFor_port (base : List PortStats) (current : PortStats) :
    (publishedFor base current).port = current.port := by
  rw [publishedFor]
  split
  · rfl
  · rfl

theorem delta_iff : Delta first current (publishedFor base current) ↔ ∀ counter ∈ counters,
    (((counter current - counted base current.port counter).toNat : Nat) : Int) =
      (counter current).toNat - (counted first current.port counter).toNat := by
  refine ⟨fun h counter hcounter => ?_, fun h => ⟨publishedFor_port base current, fun counter hcounter => ?_⟩⟩
  · rw [← publishedFor_counter base current counter hcounter]
    exact h.counters counter hcounter
  · rw [publishedFor_counter base current counter hcounter]
    exact h counter hcounter

/-- A difference at 64 bits is the difference of the numbers if it does not wrap. -/
theorem sub_exact_iff (x b : UInt64) : (((x - b).toNat : Nat) : Int) = x.toNat - b.toNat ↔ b ≤ x := by
  have hx := x.toNat_lt
  have hb := b.toNat_lt
  rw [UInt64.toNat_sub, UInt64.le_iff_toNat_le]
  omega

/-- A number is its difference with zero only. -/
theorem sub_zero_iff (x b : UInt64) :
    (((x - b).toNat : Nat) : Int) = x.toNat - (0 : UInt64).toNat ↔ b = 0 := by
  have hx := x.toNat_lt
  have hb := b.toNat_lt
  rw [UInt64.toNat_sub, ← UInt64.toNat_inj, UInt64.toNat_zero]
  omega

end Differences

/--
**What is published after every reply of a sequence is the difference to the first one if and only
if no counter falls below its first value.**
-/
theorem published_iff {s : OperationalStats} (hcompleted : s.portStats.statsCompleted = true)
    (hinitial : s.portStatsInitial = []) (rs : List PortReply) :
    (∀ before r after, rs = before ++ r :: after → List.Forall₂ (Delta (firstReply rs)) r.ports
      ((before ++ [r]).foldl receive s).portStats.stats) ↔ Countable rs := by
  -- where ports are reported, the baseline is that of the whole sequence
  have hbaseline : ∀ before r after, rs = before ++ r :: after → r.ports ≠ [] →
      baseline (before ++ [r]) = baseline rs := by
    intro before r after heq hports
    have hne : baseline (before ++ [r]) ≠ [] := by
      rw [baseline_concat]
      split
      · exact hports
      · rename_i hbefore
        intro hnil
        exact hbefore (by rw [hnil]; rfl)
    have hsplit : rs = (before ++ [r]) ++ after := by
      rw [heq, List.append_assoc]
      rfl
    rw [hsplit, baseline_append hne]
  have hdelta : ∀ current, Delta (firstReply rs) current (publishedFor (baseline rs) current) ↔
      ∀ counter ∈ counters, if firstReply rs = [] then counted (baseline rs) current.port counter = 0
        else counted (firstReply rs) current.port counter ≤ counter current := by
    intro current
    rw [delta_iff]
    refine forall₂_congr fun counter _ => ?_
    by_cases hfirst : firstReply rs = []
    · rw [if_pos hfirst, hfirst]
      exact sub_zero_iff _ _
    · rw [if_neg hfirst, baseline_of_first hfirst]
      exact sub_exact_iff _ _
  refine ⟨fun h r hr current hcurrent => ?_, fun h before r after heq => ?_⟩
  · obtain ⟨before, after, heq⟩ := List.append_of_mem hr
    have hpublished := h before r after heq
    rw [published_eq hcompleted hinitial,
      hbaseline before r after heq (List.ne_nil_of_mem hcurrent)] at hpublished
    rw [show sinceInitial (baseline rs) r.ports = r.ports.map (publishedFor (baseline rs)) from rfl,
      List.forall₂_map_right_iff, List.forall₂_same] at hpublished
    exact (hdelta current).mp (hpublished current hcurrent)
  · rw [published_eq hcompleted hinitial,
      show sinceInitial (baseline (before ++ [r])) r.ports =
        r.ports.map (publishedFor (baseline (before ++ [r]))) from rfl,
      List.forall₂_map_right_iff, List.forall₂_same]
    intro current hcurrent
    rw [hbaseline before r after heq (List.ne_nil_of_mem hcurrent)]
    refine (hdelta current).mpr (h r ?_ current hcurrent)
    rw [heq]
    exact List.mem_append_right _ List.mem_cons_self

/-! ## A counter that starts again -/

/-- A service that has no statistics yet. -/
def newStats : OperationalStats where
  initialized := true
  aggregateStats := {}
  aggregateStatsXid := 0
  flowStats := ⟨[], [], true, 0⟩
  tableStats := ⟨[], [], true, 0⟩
  portStats := ⟨[], [], true, 0⟩
  portStatsInitial := []
  queueStats := ⟨[], [], true, 0⟩

/-- Port 1 has received ten packets, then three. -/
def restartedReplies : List PortReply :=
  [⟨1, [], [{ port := 1, rxPackets := 10 }]⟩, ⟨2, [], [{ port := 1, rxPackets := 3 }]⟩]

theorem restarted_iff : (∀ before r after, restartedReplies = before ++ r :: after →
    List.Forall₂ (Delta (firstReply restartedReplies)) r.ports
      ((before ++ [r]).foldl receive newStats).portStats.stats) ↔ Countable restartedReplies :=
  published_iff rfl rfl restartedReplies

/-- The counter that is published is 2^64 - 7. -/
theorem restarted_underflows : ∃ s rs, s.portStats.statsCompleted = true ∧ s.portStatsInitial = [] ∧
    ¬ ∀ before r after, rs = before ++ r :: after → List.Forall₂ (Delta (firstReply rs)) r.ports
      ((before ++ [r]).foldl receive s).portStats.stats := by
  refine ⟨newStats, restartedReplies, rfl, rfl, fun h => ?_⟩
  have hlast := h [⟨1, [], [{ port := 1, rxPackets := 10 }]⟩] ⟨2, [], [{ port := 1, rxPackets := 3 }]⟩ [] rfl
  rw [published_eq rfl rfl] at hlast
  have hcount := (List.forall₂_cons.mp hlast).1.counters PortStats.rxPackets List.mem_cons_self
  exact absurd hcount (by decide)

end IronStack.Proof
