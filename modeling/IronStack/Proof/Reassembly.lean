import IronStack.Stats.System
import IronStack.Proof.Service
import IronStack.Lib.Machine

/-!
# Statistics replies put together again

Each receiver of statistics replies has room for one reply of a kind. The flow
service appends whatever comes and looks at no xid; `operational_stats` drops
fragments of a reply with a smaller xid than the one it is on, and lets a larger
one push that out. So two replies of a kind that overlap are mixed in the flow
tables, and lost or cut short in the published statistics.

When the replies of each kind come one after the other, all is computed from
whole replies.
-/

namespace IronStack.Proof

open IronStack Lib Fragment FlowService StatsWorld

/-- The complete replies an input brings in: the reply of a message that is its last. -/
structure Completes where
  flows : Option (List FlowDescriptionAndStats) := none
  tables : Option (List TableStats) := none
  ports : Option (List PortStats) := none
  queues : Option (List QueueStats) := none

/-- The reply an input completes, all its fragments put together. -/
def completes (w : StatsWorld) : StatsInput → Completes
  | .tick _ | .aggregateStats _ _ => {}
  | .flowStats msg => { flows := whole? w.received.flows msg }
  | .tableStats msg => { tables := whole? w.received.tables msg }
  | .portStats msg => { ports := whole? w.received.ports msg }
  | .queueStats msg => { queues := whole? w.received.queues msg }

/--
The flow tables and the published statistics change only when a reply is complete,
and then by that whole reply.
-/
structure FromWholeReplies (t : Transition StatsWorld StatsInput) : Prop where
  flowTables : t.target.svc.flowTables =
    (completes t.source t.input).flows.elim t.source.svc.flowTables fun flows =>
      (updateTables t.source.now t.source.svc.flowTables flows).2.1
  flowStats : t.target.stats.flowStats.stats =
    (completes t.source t.input).flows.getD t.source.stats.flowStats.stats
  tableStats : t.target.stats.tableStats.stats =
    (completes t.source t.input).tables.getD t.source.stats.tableStats.stats
  portStats : t.target.stats.portStats.stats =
    (completes t.source t.input).ports.elim t.source.stats.portStats.stats
      (sinceInitial t.target.stats.portStatsInitial)
  /-- The first complete reply is what port statistics are counted from. -/
  portStatsInitial : t.target.stats.portStatsInitial =
    if t.source.stats.portStatsInitial.isEmpty then (completes t.source t.input).ports.getD []
    else t.source.stats.portStatsInitial
  queueStats : t.target.stats.queueStats.stats =
    (completes t.source t.input).queues.getD t.source.stats.queueStats.stats

/-- No other reply of the kind is under way when the message arrives. -/
def OneReplyAtATime (w : StatsWorld) : StatsInput → Prop
  | .tick _ | .aggregateStats _ _ => True
  | .flowStats msg => InSequence w.received.flows msg
  | .tableStats msg => InSequence w.received.tables msg
  | .portStats msg => InSequence w.received.ports msg
  | .queueStats msg => InSequence w.received.queues msg

instance (w : StatsWorld) : (i : StatsInput) → Decidable (OneReplyAtATime w i)
  | .tick _ => .isTrue trivial
  | .aggregateStats _ _ => .isTrue trivial
  | .flowStats msg => inferInstanceAs (Decidable (InSequence w.received.flows msg))
  | .tableStats msg => inferInstanceAs (Decidable (InSequence w.received.tables msg))
  | .portStats msg => inferInstanceAs (Decidable (InSequence w.received.ports msg))
  | .queueStats msg => inferInstanceAs (Decidable (InSequence w.received.queues msg))

/-! ## One kind of statistics -/

/-- The shadow copy of a kind against what was received of it. -/
def Collects {α : Type} (received : List (StatsReply α)) (c : CollectedStats α) : Prop :=
  Tagged received c.statsCompleted c.statsXid c.statsShadow

section

variable {α : Type} {received : List (StatsReply α)} {c : CollectedStats α} {msg : StatsReply α}

theorem collects_restart (c : CollectedStats α) : Collects [] c.restart := tagged_nil _ _

/-- What collecting a message comes to, while its reply is the only one under way. -/
theorem collect_eq (hc : Collects received c) (hopen : ¬ Ended received msg.tag)
    (hseq : InSequence received msg) :
    c.collect msg =
      { stats := c.stats
        statsShadow := gathered (received ++ [msg]) msg.tag
        statsCompleted := !msg.moreToFollow
        statsXid := msg.tag } := by
  unfold CollectedStats.collect
  cases hdone : c.statsCompleted with
  | true =>
      rw [if_pos (Or.inl rfl)]
      rw [← Tagged.first_eq hc hopen hdone]
  | false =>
      have htag : msg.tag = c.statsXid := Tagged.tag_eq hc hseq hdone
      have hnot : ¬ (false = true ∨ msg.tag > c.statsXid) := by
        rw [htag]
        simp
      rw [if_neg hnot, if_pos ⟨rfl, htag⟩]
      rw [← Tagged.next_eq hc hseq hdone, htag]

/-- The shadow copy after a message; it does not matter what is left in it once it is complete. -/
theorem collects_snoc (hopen : ¬ Ended received msg.tag) (hseq : InSequence received msg)
    {c' : CollectedStats α} (hdone : c'.statsCompleted = !msg.moreToFollow)
    (hxid : c'.statsXid = msg.tag)
    (hshadow : msg.moreToFollow = true → c'.statsShadow = gathered (received ++ [msg]) msg.tag) :
    Collects (received ++ [msg]) c' := by
  have hsnoc := Tagged.snoc hopen hseq
  rw [Collects, hdone, hxid]
  refine ⟨hsnoc.idle, fun hc => ?_⟩
  obtain ⟨honly, hmem, _⟩ := hsnoc.busy hc
  exact ⟨honly, hmem, hshadow (by simpa using hc)⟩

/-- The handler publishes whole replies only. -/
theorem updateHandler_stats (hc : Collects received c) (hopen : ¬ Ended received msg.tag)
    (hseq : InSequence received msg) :
    (c.updateHandler msg).stats = (whole? received msg).getD c.stats := by
  rw [CollectedStats.updateHandler, collect_eq hc hopen hseq, whole?]
  cases msg.moreToFollow <;> rfl

theorem collects_updateHandler (hc : Collects received c) (hopen : ¬ Ended received msg.tag)
    (hseq : InSequence received msg) : Collects (received ++ [msg]) (c.updateHandler msg) := by
  have heq : c.updateHandler msg =
      { stats := if msg.moreToFollow then c.stats else gathered (received ++ [msg]) msg.tag
        statsShadow := gathered (received ++ [msg]) msg.tag
        statsCompleted := !msg.moreToFollow
        statsXid := msg.tag } := by
    rw [CollectedStats.updateHandler, collect_eq hc hopen hseq]
    cases msg.moreToFollow <;> rfl
  rw [heq]
  exact collects_snoc hopen hseq rfl rfl fun _ => rfl

end

/-! ## Runs -/

/-- What the receivers hold against what was received. -/
structure StatsInv (w : StatsWorld) : Prop where
  pending : Buffered w.received.flows w.svc.pendingFlows
  flows : Collects w.received.flows w.stats.flowStats
  tables : Collects w.received.tables w.stats.tableStats
  ports : Collects w.received.ports w.stats.portStats
  queues : Collects w.received.queues w.stats.queueStats

theorem statsInv_boot (svc : FlowService) (stats : OperationalStats) :
    StatsInv (boot svc stats) where
  pending := buffered_nil
  flows := collects_restart _
  tables := collects_restart _
  ports := collects_restart _
  queues := collects_restart _

/-- Reading `whole?` off the flag. -/
theorem whole?_more {α : Type} {received : List (StatsReply α)} {msg : StatsReply α}
    (h : msg.moreToFollow = true) : whole? received msg = none := by
  rw [whole?, h]
  rfl

theorem whole?_last {α : Type} {received : List (StatsReply α)} {msg : StatsReply α}
    (h : msg.moreToFollow = false) :
    whole? received msg = some (gathered (received ++ [msg]) msg.tag) := by
  rw [whole?, h]
  rfl

/-- A flow-statistics message, for the flow service. -/
theorem flowUpdateHandler_whole {now : Nat} {svc svc' : FlowService}
    {received : List (StatsReply FlowDescriptionAndStats)}
    {msg : StatsReply FlowDescriptionAndStats} (hb : Buffered received svc.pendingFlows)
    (hopen : ¬ Ended received msg.tag) (hseq : InSequence received msg)
    (h : svc.flowUpdateHandler now msg.items msg.moreToFollow = some svc') :
    Buffered (received ++ [msg]) svc'.pendingFlows ∧
      svc'.flowTables = (whole? received msg).elim svc.flowTables fun flows =>
        (updateTables now svc.flowTables flows).2.1 := by
  rcases flowUpdateHandler_cases h with ⟨hmore, rfl⟩ | ⟨hlast, _, _, hpending, htables, _⟩
  · rw [whole?_more hmore]
    exact ⟨hb.more hopen hseq hmore, rfl⟩
  · rw [whole?_last hlast, hpending, htables, hb.append_eq hopen hseq]
    exact ⟨.last hseq hlast, rfl⟩

/-- A port-statistics message. -/
theorem updatePortStats_whole {s : OperationalStats} {received : List (StatsReply PortStats)}
    {msg : StatsReply PortStats} (hc : Collects received s.portStats)
    (hopen : ¬ Ended received msg.tag) (hseq : InSequence received msg) :
    Collects (received ++ [msg]) (s.updatePortStats msg).portStats ∧
      (s.updatePortStats msg).portStats.stats =
        (whole? received msg).elim s.portStats.stats
          (sinceInitial (s.updatePortStats msg).portStatsInitial) ∧
      (s.updatePortStats msg).portStatsInitial =
        if s.portStatsInitial.isEmpty then (whole? received msg).getD []
        else s.portStatsInitial := by
  unfold OperationalStats.updatePortStats
  rw [collect_eq hc hopen hseq]
  cases hflag : msg.moreToFollow with
  | true =>
      rw [whole?_more hflag]
      refine ⟨collects_snoc hopen hseq (by simp [hflag]) rfl fun _ => rfl, rfl, ?_⟩
      cases hinit : s.portStatsInitial with
      | nil => rfl
      | cons _ _ => rfl
  | false =>
      rw [whole?_last hflag]
      refine ⟨collects_snoc hopen hseq (by simp [hflag]) rfl fun hmore => ?_, rfl, rfl⟩
      rw [hflag] at hmore
      exact absurd hmore (by simp)

/-- A kind that an input does not touch is still in order, and nothing is published. -/
theorem statsInv_step {w w' : StatsWorld} {i : StatsInput} (h : StatsInv w)
    (hok : OneReplyAtATime w i) (hs : step w i = some w') :
    StatsInv w' ∧ FromWholeReplies ⟨w, i, w'⟩ := by
  have hkeep : ∀ l : List PortStats, l = if l.isEmpty then (none : Option (List PortStats)).getD []
      else l := by
    intro l
    cases l <;> rfl
  cases i with
  | tick ns =>
      obtain rfl := Option.some.inj hs
      exact ⟨⟨h.pending, h.flows, h.tables, h.ports, h.queues⟩, rfl, rfl, rfl, rfl, hkeep _, rfl⟩
  | aggregateStats xid stats =>
      obtain rfl := Option.some.inj hs
      exact ⟨⟨h.pending, h.flows, h.tables, h.ports, h.queues⟩, rfl, rfl, rfl, rfl, hkeep _, rfl⟩
  | flowStats msg =>
      simp only [step] at hs
      split at hs
      · exact absurd hs (by simp)
      · rename_i hopen
        obtain ⟨svc, hsvc, rfl⟩ := Option.map_eq_some_iff.mp hs
        obtain ⟨hpending, htables⟩ := flowUpdateHandler_whole h.pending hopen hok hsvc
        refine ⟨⟨hpending, collects_updateHandler h.flows hopen hok, h.tables, h.ports, h.queues⟩,
          htables, ?_, rfl, rfl, hkeep _, rfl⟩
        exact updateHandler_stats h.flows hopen hok
  | tableStats msg =>
      simp only [step] at hs
      split at hs
      · exact absurd hs (by simp)
      · rename_i hopen
        obtain rfl := Option.some.inj hs
        refine ⟨⟨h.pending, h.flows, collects_updateHandler h.tables hopen hok, h.ports, h.queues⟩,
          rfl, rfl, ?_, rfl, hkeep _, rfl⟩
        exact updateHandler_stats h.tables hopen hok
  | portStats msg =>
      -- the one handler that keeps a second copy, the statistics of the first reply
      simp only [step] at hs
      split at hs
      · exact absurd hs (by simp)
      · rename_i hopen
        obtain rfl := Option.some.inj hs
        obtain ⟨hports, hstats, hinitial⟩ := updatePortStats_whole h.ports hopen hok
        have hrest : (w.stats.updatePortStats msg).flowStats = w.stats.flowStats ∧
            (w.stats.updatePortStats msg).tableStats = w.stats.tableStats ∧
            (w.stats.updatePortStats msg).queueStats = w.stats.queueStats := by
          unfold OperationalStats.updatePortStats
          dsimp only
          split <;> exact ⟨rfl, rfl, rfl⟩
        obtain ⟨hflows, htables, hqueues⟩ := hrest
        refine ⟨⟨h.pending, ?_, ?_, hports, ?_⟩, rfl, ?_, ?_, hstats, hinitial, ?_⟩
        · exact show Collects _ _ from hflows ▸ h.flows
        · exact show Collects _ _ from htables ▸ h.tables
        · exact show Collects _ _ from hqueues ▸ h.queues
        · exact congrArg CollectedStats.stats hflows
        · exact congrArg CollectedStats.stats htables
        · exact congrArg CollectedStats.stats hqueues
  | queueStats msg =>
      simp only [step] at hs
      split at hs
      · exact absurd hs (by simp)
      · rename_i hopen
        obtain rfl := Option.some.inj hs
        refine ⟨⟨h.pending, h.flows, h.tables, h.ports, collects_updateHandler h.queues hopen hok⟩,
          rfl, rfl, rfl, rfl, hkeep _, ?_⟩
        exact updateHandler_stats h.queues hopen hok

/--
**Reassembly.** In a run in which the replies of each kind come one after the other,
in any order of the kinds, every flow-table update and all published statistics are
computed from whole replies.
-/
theorem reassembled_in_sequence {svc : FlowService} {stats : OperationalStats}
    {ts : List (Transition StatsWorld StatsInput)} {w : StatsWorld}
    (hr : Run step (boot svc stats) ts w) (hok : ∀ t ∈ ts, OneReplyAtATime t.source t.input) :
    ∀ t ∈ ts, FromWholeReplies t := by
  have hinv := (hr.invariant_guarded StatsInv OneReplyAtATime (statsInv_boot svc stats)
    (fun _ _ _ h hg hs => (statsInv_step h hg hs).1) hok).2
  intro t ht
  exact (statsInv_step (hinv t ht).1 (hok t ht) (hr.step_of_mem ht)).2

/-- A service with the ACL table, which takes any flow. -/
def aclService : FlowService where
  initialized := true
  initializing := false
  flowTables := [dellS48xxAclTable]
  pendingFlows := []
  nextAvailableCookieId := 1
  enqueued := []

/-- No statistics yet. -/
def noStats : OperationalStats where
  initialized := false
  aggregateStats := {}
  aggregateStatsXid := 0
  flowStats := ⟨[], [], true, 0⟩
  tableStats := ⟨[], [], true, 0⟩
  portStats := ⟨[], [], true, 0⟩
  portStatsInitial := []
  queueStats := ⟨[], [], true, 0⟩

/-- A reported flow that matches everything and drops it. -/
def reportedDrop (cookie : UInt64) : FlowDescriptionAndStats where
  flowDescription := ⟨OfMatch.clear.wildcardAll, OpenflowActionList.clear, cookie, 100⟩

/-- A flow and a port reply, in two fragments each, overlap; then another flow reply comes. -/
theorem reassembled_across_kinds : ∃ ts w, Run step (boot aclService noStats) ts w ∧
    w.stats.flowStats.stats = [reportedDrop 3] ∧ ∀ t ∈ ts, FromWholeReplies t := by
  obtain ⟨ts, w, hr, hcheck⟩ := Run.exists_of_test step (boot aclService noStats)
    [.flowStats ⟨9, [reportedDrop 1], true⟩, .portStats ⟨4, [{ port := 1 }], true⟩,
      .flowStats ⟨9, [reportedDrop 2], false⟩, .portStats ⟨4, [{ port := 2 }], false⟩,
      .flowStats ⟨5, [reportedDrop 3], false⟩]
    (fun ts w => decide (w.stats.flowStats.stats = [reportedDrop 3] ∧
      ∀ t ∈ ts, OneReplyAtATime t.source t.input)) (by decide +kernel)
  obtain ⟨hstats, hok⟩ := of_decide_eq_true hcheck
  exact ⟨ts, w, hr, hstats, reassembled_in_sequence hr hok⟩

/--
Two flow replies overlap: the second pushes the first out of the shadow copy, and
what is published for the first is its last fragment alone.
-/
theorem overlapping_replies_cut : ∃ ts w, Run step (boot aclService noStats) ts w ∧
    ¬ ∀ t ∈ ts, FromWholeReplies t := by
  obtain ⟨ts, w, hr, hcheck⟩ := Run.exists_of_test step (boot aclService noStats)
    [.flowStats ⟨1, [reportedDrop 1], true⟩, .flowStats ⟨2, [reportedDrop 2], false⟩,
      .flowStats ⟨1, [reportedDrop 3], false⟩]
    (fun ts _ => ts.any fun t => decide (t.target.stats.flowStats.stats ≠
      (completes t.source t.input).flows.getD t.source.stats.flowStats.stats)) (by decide +kernel)
  refine ⟨ts, w, hr, fun hall => ?_⟩
  obtain ⟨t, ht, hcut⟩ := List.any_eq_true.mp hcheck
  exact of_decide_eq_true hcut (hall t ht).flowStats

end IronStack.Proof
