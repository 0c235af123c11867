import IronStack.Proof.Service

/-!
# Clearing the dynamic flows

`clear_all_flows(timeout, keep_static_flows)` is meant to take the dynamic flows
off the switch and leave the static ones alone. Up to its wait it does: every
dynamic flow that stands is marked, no static one is touched, whatever the tables
hold. What spoils it is the end of the waiting path, which clears all tables with
`clear_table()`, and `clear_table` reads its flag the other way round: without
static entries *included* it drops everything, with them it keeps just them.

So the call does what it says exactly when it never gets to that line with a
static flow at hand, and `clear_table` itself when there is no static entry.
-/

namespace IronStack.Proof

open IronStack FlowTable FlowService

/-- Every static entry is still in its table, in the state it was in. -/
def StaticKept (svc svc' : FlowService) : Prop :=
  ∀ i c e, entryAt svc i c = some e → e.isStatic = true →
    ∃ e', entryAt svc' i c = some e' ∧ e'.isStatic = true ∧ e'.state = e.state

/-- No entry that may age out is being installed or installed. -/
def DynamicStopped (svc : FlowService) : Prop :=
  ∀ i c e, entryAt svc i c = some e → e.isStatic = false → e.state.isStanding = false

/-- There is no static entry. -/
def NoStatic (svc : FlowService) : Prop :=
  ∀ i c e, entryAt svc i c = some e → e.isStatic = false

/-- `clear_table` does what its flag says, in both positions. -/
def ClearsByFlag (t : FlowTable) : Prop :=
  (∀ c : UInt64, (t.clearTable false).flows[c]? = t.flows[c]?.filter (·.isStatic)) ∧
    ∀ c : UInt64, (t.clearTable true).flows[c]? = none

/-- Nothing is slated for deletion exactly when no dynamic entry stands. -/
theorem markAllTables_eq_nil (now : Nat) (svc : FlowService) :
    (svc.markAllTables now false).1 = [] ↔ DynamicStopped svc := by
  rw [List.eq_nil_iff_forall_not_mem]
  refine ⟨?_, ?_⟩
  · intro h i c e he hs
    by_contra hst
    exact h _ (mem_markAllTables.mpr
      ⟨i, c, e, he, by simpa [slatedForDeletion, hs] using hst, rfl⟩)
  · intro h e' hmem
    obtain ⟨i, c, e, he, hs, _⟩ := mem_markAllTables.mp hmem
    simp only [slatedForDeletion, Bool.not_false, Bool.true_and, Bool.and_eq_true,
      Bool.not_eq_true'] at hs
    have := h i c e he hs.1
    rw [hs.2] at this
    exact absurd this (by simp)

/-- The entries after the call, up to the clearing at the end of the waiting path. -/
theorem clearAllFlowsCall_entryAt (now : Nat) {svc : FlowService} (hinit : svc.initialized = true)
    (timeoutMs : Int32) (status : Bool) (i : Nat) (c : UInt64) :
    entryAt (svc.clearAllFlowsCall now timeoutMs true status).2 i c =
      if (svc.markAllTables now false).1 ≠ [] ∧ timeoutMs ≠ 0 ∧ status = true then none
      else (entryAt svc i c).map (slated now false) := by
  unfold clearAllFlowsCall clearAllFlows
  rw [hinit]
  simp only [Bool.not_true, Bool.false_eq_true, if_false, if_true]
  cases hlast : (svc.markAllTables now false).1.getLast? with
  | none =>
      rw [if_neg fun h => h.1 (List.getLast?_eq_none_iff.mp hlast)]
      exact markAllTables_entryAt now svc false i c
  | some last =>
      have hrun : (svc.markAllTables now false).1 ≠ [] := by
        intro h
        rw [h] at hlast
        exact absurd hlast (by simp)
      dsimp only
      -- the requests sent on the way leave the tables as they were marked
      generalize hsvc : ((svc.markAllTables now false).1.dropLast.foldl (fun svc e =>
        svc.enqueueTransaction (.unacknowledged (.flowMod (clearRequest e.description))))
        (svc.markAllTables now false).2) = sent
      have hsent : ∀ request : ModifyFlow,
          entryAt (sent.sendLastClear timeoutMs request).2 i c =
            (entryAt svc i c).map (slated now false) := by
        intro request
        rw [← markAllTables_entryAt]
        refine entryAt_congr ?_ i c
        rw [sendLastClear_flowTables, ← hsvc, foldl_enqueue_flowTables]
      cases hr : sent.sendLastClear timeoutMs (clearRequest last.description) with
      | mk result svc' =>
          have hmarked := hsent (clearRequest last.description)
          rw [hr] at hmarked
          by_cases ht : timeoutMs = 0
          · have hres := sendLastClear_returned sent
              (clearRequest last.description) ht
            rw [hr] at hres
            obtain rfl : result = .returned true := hres
            rw [if_neg fun h => h.2.1 ht]
            exact hmarked
          · have hres := sendLastClear_waiting sent
              (clearRequest last.description) ht
            rw [hr] at hres
            obtain rfl : result = .waiting sent.enqueued.length := hres
            dsimp only
            rw [clearAllFlowsFinish_entryAt, hmarked]
            cases status <;> simp [hrun, ht]

/-- Marking alone keeps the static entries and stops the dynamic ones. -/
theorem kept_of_slated {now : Nat} {svc svc' : FlowService}
    (h : ∀ i c, entryAt svc' i c = (entryAt svc i c).map (slated now false)) :
    StaticKept svc svc' ∧ DynamicStopped svc' := by
  refine ⟨?_, ?_⟩
  · intro i c e he hs
    have hslated : slated now false e = e := if_neg (by simp [slatedForDeletion, hs])
    exact ⟨e, by rw [h, he, Option.map_some, hslated], hs, rfl⟩
  · intro i c e' he' hs
    rw [h] at he'
    obtain ⟨e, _, rfl⟩ := Option.map_eq_some_iff.mp he'
    rw [slated_isStatic] at hs
    by_contra hst
    have := (slated_standing (by simpa using hst)).2.2
    rw [hs] at this
    exact absurd this (by simp)

/-- Clearing everything keeps the static entries only if there are none. -/
theorem kept_of_cleared {svc svc' : FlowService} (h : ∀ i c, entryAt svc' i c = none) :
    (StaticKept svc svc' ∧ DynamicStopped svc') ↔ NoStatic svc := by
  refine ⟨?_, ?_⟩
  · intro ⟨hkept, _⟩ i c e he
    by_contra hs
    obtain ⟨e', he', _⟩ := hkept i c e he (by simpa using hs)
    rw [h] at he'
    exact absurd he' (by simp)
  · intro hns
    refine ⟨fun i c e he hs => ?_, fun i c e he => ?_⟩
    · rw [hns i c e he] at hs
      exact absurd hs (by simp)
    · rw [h] at he
      exact absurd he (by simp)

/-- `clear_table` is right about its flag only where it makes no difference. -/
theorem clearsByFlag_iff (t : FlowTable) :
    ClearsByFlag t ↔ ∀ (c : UInt64) (e : FlowEntry), t.flows[c]? = some e → e.isStatic = false := by
  unfold ClearsByFlag
  simp only [clearTable_lookup, Bool.false_eq_true, if_false, if_true]
  refine ⟨?_, ?_⟩
  · intro ⟨_, hall⟩ c e he
    have := hall c
    rw [he] at this
    simpa using this
  · intro h
    have hnone : ∀ c : UInt64, t.flows[c]?.filter (·.isStatic) = none := by
      intro c
      cases he : t.flows[c]? with
      | none => rfl
      | some e => simp [h c e he]
    exact ⟨fun c => (hnone c).symm, hnone⟩

/--
**When clearing the dynamic flows does what it says.** The call must not reach
the clearing of all tables with a static flow in one of them, and an offline
service does nothing; `clear_table` is right on tables without static entries.
-/
theorem clearAllFlows_keepsStatic_iff (now : Nat) (svc : FlowService) (timeoutMs : Int32)
    (status : Bool) :
    ((StaticKept svc (svc.clearAllFlowsCall now timeoutMs true status).2 ∧
        DynamicStopped (svc.clearAllFlowsCall now timeoutMs true status).2) ↔
      (DynamicStopped svc ∨
        (svc.initialized = true ∧ (timeoutMs = 0 ∨ status = false ∨ NoStatic svc)))) ∧
    ∀ t : FlowTable, ClearsByFlag t ↔
      ∀ (c : UInt64) (e : FlowEntry), t.flows[c]? = some e → e.isStatic = false := by
  refine ⟨?_, clearsByFlag_iff⟩
  cases hinit : svc.initialized with
  | false =>
      have hcall : (svc.clearAllFlowsCall now timeoutMs true status).2 = svc := by
        simp [clearAllFlowsCall, clearAllFlows, hinit]
      rw [hcall]
      refine ⟨?_, ?_⟩
      · exact fun h => Or.inl h.2
      · intro h
        rcases h with h | ⟨h, _⟩
        · exact ⟨fun i c e he hs => ⟨e, he, hs, rfl⟩, h⟩
        · exact absurd h (by simp)
  | true =>
      have hentry := clearAllFlowsCall_entryAt now hinit timeoutMs status
      rw [← markAllTables_eq_nil now svc]
      by_cases hclear : (svc.markAllTables now false).1 ≠ [] ∧ timeoutMs ≠ 0 ∧ status = true
      · simp only [if_pos hclear] at hentry
        rw [kept_of_cleared hentry]
        obtain ⟨hrun, ht, hst⟩ := hclear
        simp [hrun, ht, hst]
      · simp only [if_neg hclear] at hentry
        refine ⟨fun _ => ?_, fun _ => kept_of_slated hentry⟩
        by_cases hstop : (svc.markAllTables now false).1 = []
        · exact Or.inl hstop
        · by_cases ht : timeoutMs = 0
          · exact Or.inr ⟨rfl, Or.inl ht⟩
          · exact Or.inr ⟨rfl, Or.inr (Or.inl (by simpa [hstop, ht] using hclear))⟩

/-- A flow entry with nothing matched and nothing done, under this cookie. -/
def bareEntry (state : FlowState) (idleTimeout : UInt32) (cookie : UInt64) : FlowEntry where
  state := state
  idleTimeout := idleTimeout
  hardTimeout := 0
  lastUpdated := Timer.reset 0
  installReason := ""
  description := ⟨OfMatch.clear, OpenflowActionList.clear, cookie, 100⟩
  isUpdated := false

/-- An ACL table with a static flow under cookie 1 and a dynamic one under cookie 2. -/
def mixedTable : FlowTable :=
  { dellS48xxAclTable with
    flows := ((∅ : FlowMap).insert 1 (bareEntry .active 0 1)).insert 2 (bareEntry .active 60 2) }

/-- A running service with that table. -/
def mixedService : FlowService where
  initialized := true
  initializing := false
  flowTables := [mixedTable]
  pendingFlows := []
  nextAvailableCookieId := 3
  enqueued := []

/--
With a static and a dynamic flow at hand and a switch that confirms, the static
flow is gone after the call; and `clear_table(false)` drops a static entry.
-/
theorem clearAllFlows_drops_static :
    ¬ StaticKept mixedService (mixedService.clearAllFlowsCall 0 (-1) true true).2 ∧
      ¬ ClearsByFlag mixedTable := by
  have hstatic : mixedTable.flows[(1 : UInt64)]? = some (bareEntry .active 0 1) := by decide
  have hdynamic : entryAt mixedService 0 2 = some (bareEntry .active 60 2) := by decide
  refine ⟨?_, ?_⟩
  · intro hkept
    obtain ⟨e', he', _⟩ := hkept 0 1 (bareEntry .active 0 1) hstatic rfl
    rw [clearAllFlowsCall_entryAt 0 rfl, if_pos] at he'
    · exact absurd he' (by simp)
    · refine ⟨fun h => ?_, by decide, rfl⟩
      exact absurd ((markAllTables_eq_nil _ _).mp h 0 2 _ hdynamic (by decide)) (by decide)
  · intro h
    exact absurd ((clearsByFlag_iff mixedTable).mp h 1 _ hstatic) (by decide)

end IronStack.Proof
