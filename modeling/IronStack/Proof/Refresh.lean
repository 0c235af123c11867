import IronStack.Proof.World
import Mathlib.Data.List.Nodup

/-!
# Where a refresh puts the reported flows

A statistics reply hands every attached table, in order, what the tables before
it left of the reported list. A table absorbs flows off the front of the list and
stops at the first that does not fit. A flow that fits the first table but comes
behind one that does not is therefore absorbed by a later table, or by none.

Hence the reported flows end up where they belong exactly when the switch happens
to report them in the order of their tables.
-/

namespace IronStack.Proof

open IronStack Lib FlowTable FlowService FlowWorld

/-- The first attached table that accepts a reported flow. -/
def firstTable (svc : FlowService) (f : FlowDescriptionAndStats) : Nat :=
  firstFit (acceptors svc.flowTables) f

/--
A statistics reply conserves the reported flows: the handler does not abort,
nothing is left over, and each flow has an entry in the first table that accepts
it and in no other.
-/
def Conserves (now : Nat) (svc : FlowService) (flowStats : List FlowDescriptionAndStats) : Prop :=
  (updateTables now svc.flowTables (svc.pendingFlows ++ flowStats)).1 = [] ∧
    ∃ svc', svc.flowUpdateHandler now flowStats false = some svc' ∧
      ∀ f ∈ svc.pendingFlows ++ flowStats, ∀ i,
        (entryAt svc' i f.cookie).isSome = true ↔ i = firstTable svc f

/-- No table but the first that accepts it still has a reported flow's cookie marked for deletion. -/
def NoStale (svc : FlowService) (reported : List FlowDescriptionAndStats) : Prop :=
  ∀ f ∈ reported, ∀ i, i ≠ firstTable svc f → ∀ e, entryAt svc i f.cookie = some e →
    e.state ≠ .pendingDeletion

/-- With nothing left over the handler does not abort. -/
theorem flowUpdateHandler_of_drained (now : Nat) (svc : FlowService)
    (flowStats : List FlowDescriptionAndStats)
    (h : (drain (acceptors svc.flowTables) (svc.pendingFlows ++ flowStats)).2 = []) :
    ∃ svc', svc.flowUpdateHandler now flowStats false = some svc' := by
  have hflat := drain_flatten (acceptors svc.flowTables) (svc.pendingFlows ++ flowStats)
  rw [h, List.append_nil] at hflat
  have hcount := updateTables_count now svc.flowTables (svc.pendingFlows ++ flowStats)
  rw [hflat] at hcount
  rw [flowUpdateHandler_last, if_neg (not_not.mpr hcount)]
  exact ⟨_, rfl⟩

/-- Every attached table absorbs some part of the reported list. -/
theorem exists_absorbed {tables : List FlowTable} (l : List FlowDescriptionAndStats) {i : Nat}
    (hi : i < tables.length) : ∃ absorbed, (drain (acceptors tables) l).1[i]? = some absorbed :=
  ⟨_, List.getElem?_eq_getElem (by rwa [drain_length, acceptors, List.length_map])⟩

/-- The entry a refresh leaves under a cookie of table `i`, by what the table absorbed. -/
theorem refreshed_entryAt {now : Nat} {svc svc' : FlowService}
    {flowStats : List FlowDescriptionAndStats} (hinv : ServiceInv svc)
    (h : svc.flowUpdateHandler now flowStats false = some svc') {i : Nat}
    {absorbed : List FlowDescriptionAndStats}
    (hi : (drain (acceptors svc.flowTables) (svc.pendingFlows ++ flowStats)).1[i]? =
      some absorbed) (c : UInt64) :
    entryAt svc' i c = refreshed now (absorbed.find? fun f => f.cookie = c) (entryAt svc i c) := by
  rcases flowUpdateHandler_cases h with ⟨hmore, _⟩ | ⟨_, _, _, _, htables, _⟩
  · exact absurd hmore (by simp)
  · have hlt : i < svc.flowTables.length := by
      have := (List.getElem?_eq_some_iff.mp hi).1
      rwa [drain_length, acceptors, List.length_map] at this
    have ht := List.getElem?_eq_getElem hlt
    obtain ⟨offered, hdrain, hu⟩ := updateTables_table now
      (l := svc.pendingFlows ++ flowStats) ht
    rw [hi] at hdrain
    obtain rfl := Option.some.inj hdrain
    rw [entryAt_of_table (t := (svc.flowTables[i].updateEntries now offered).2.2)
      (by rw [htables, hu]), updateEntries_lookup (hinv _ (List.getElem_mem hlt)),
      entryAt_of_table ht]

/-- Refreshing adds no table. -/
theorem flowUpdateHandler_index {now : Nat} {svc svc' : FlowService}
    {flowStats : List FlowDescriptionAndStats}
    (h : svc.flowUpdateHandler now flowStats false = some svc') {i : Nat} {c : UInt64}
    (hsome : (entryAt svc' i c).isSome = true) : i < svc.flowTables.length := by
  rcases flowUpdateHandler_cases h with ⟨hmore, _⟩ | ⟨_, _, _, _, htables, _⟩
  · exact absurd hmore (by simp)
  · obtain ⟨e, he⟩ := Option.isSome_iff_exists.mp hsome
    obtain ⟨t, ht, _⟩ := entryAt_eq_some.mp he
    rw [htables] at ht
    rw [← updateTables_length now svc.flowTables (svc.pendingFlows ++ flowStats)]
    exact (List.getElem?_eq_some_iff.mp ht).1

/-- A table that absorbed a flow has an entry for it. -/
theorem refreshed_of_absorbed {now : Nat} {absorbed : List FlowDescriptionAndStats}
    {f : FlowDescriptionAndStats} (hf : f ∈ absorbed) (e : Option FlowEntry) :
    (refreshed now (absorbed.find? fun g => g.cookie = f.cookie) e).isSome = true := by
  have hfound : (absorbed.find? fun g => g.cookie = f.cookie).isSome = true :=
    List.find?_isSome.mpr ⟨f, hf, by simp⟩
  obtain ⟨g, hg⟩ := Option.isSome_iff_exists.mp hfound
  rw [hg]
  rfl

/-- A table that did not absorb a flow only has a dead entry for it. -/
theorem refreshed_of_not_absorbed {now : Nat} {absorbed : List FlowDescriptionAndStats}
    {c : UInt64} (hf : ∀ g ∈ absorbed, g.cookie ≠ c) (e : Option FlowEntry) :
    (refreshed now (absorbed.find? fun g => g.cookie = c) e).isSome = true ↔
      ∃ e₀, e = some e₀ ∧ e₀.state = .pendingDeletion := by
  have hnone : (absorbed.find? fun g => g.cookie = c) = none :=
    List.find?_eq_none.mpr (by simpa using hf)
  rw [hnone]
  cases e with
  | none => simp [refreshed]
  | some e₀ =>
      simp only [refreshed, Option.bind_some, missed, Option.some.injEq, exists_eq_left']
      split <;> simp_all

/-- The tables absorb each flow where it fits first. -/
def AbsorbedFirst (svc : FlowService) (reported : List FlowDescriptionAndStats) : Prop :=
  ∀ (i : Nat) absorbed, (drain (acceptors svc.flowTables) reported).1[i]? = some absorbed →
    ∀ f ∈ absorbed, firstTable svc f = i

/-- When that is so, a later table only has a dead entry for a reported flow. -/
theorem refreshed_elsewhere {now : Nat} {svc svc' : FlowService}
    {flowStats : List FlowDescriptionAndStats} (hinv : ServiceInv svc)
    (h : svc.flowUpdateHandler now flowStats false = some svc')
    (hnd : ((svc.pendingFlows ++ flowStats).map (·.cookie)).Nodup)
    (hplaced : AbsorbedFirst svc (svc.pendingFlows ++ flowStats)) {f : FlowDescriptionAndStats}
    (hf : f ∈ svc.pendingFlows ++ flowStats) {i : Nat} (hi : i < svc.flowTables.length)
    (hne : i ≠ firstTable svc f) :
    (entryAt svc' i f.cookie).isSome = true ↔
      ∃ e, entryAt svc i f.cookie = some e ∧ e.state = .pendingDeletion := by
  obtain ⟨absorbed, habs⟩ := exists_absorbed (svc.pendingFlows ++ flowStats) hi
  rw [refreshed_entryAt hinv h habs]
  refine refreshed_of_not_absorbed ?_ _
  intro g hg hc
  -- the cookies are distinct, so the table would have absorbed the flow itself
  have hgf : g = f := List.inj_on_of_nodup_map hnd (mem_of_taken habs hg) hf hc
  subst hgf
  exact hne (hplaced i absorbed habs g hg).symm

/-- A refresh that conserves the flows absorbs each where it fits first, and found none stale. -/
theorem absorbed_of_conserves {now : Nat} {svc : FlowService}
    {flowStats : List FlowDescriptionAndStats} (hinv : ServiceInv svc)
    (hnd : ((svc.pendingFlows ++ flowStats).map (·.cookie)).Nodup)
    (h : Conserves now svc flowStats) :
    AbsorbedFirst svc (svc.pendingFlows ++ flowStats) ∧
      NoStale svc (svc.pendingFlows ++ flowStats) := by
  obtain ⟨_, svc', hsvc, hplace⟩ := h
  have hplaced : AbsorbedFirst svc (svc.pendingFlows ++ flowStats) := by
    intro i absorbed hi f hf
    refine ((hplace f (mem_of_taken hi hf) i).mp ?_).symm
    rw [refreshed_entryAt hinv hsvc hi]
    exact refreshed_of_absorbed hf _
  refine ⟨hplaced, ?_⟩
  intro f hf i hne e he hstate
  obtain ⟨t, ht, _⟩ := entryAt_eq_some.mp he
  have hi : i < svc.flowTables.length := (List.getElem?_eq_some_iff.mp ht).1
  have hsome := (refreshed_elsewhere hinv hsvc hnd hplaced hf hi hne).mpr ⟨e, he, hstate⟩
  exact hne ((hplace f hf i).mp hsome)

/-- Conversely, that is enough when nothing is left over. -/
theorem conserves_of_absorbed {now : Nat} {svc : FlowService}
    {flowStats : List FlowDescriptionAndStats} (hinv : ServiceInv svc)
    (hnd : ((svc.pendingFlows ++ flowStats).map (·.cookie)).Nodup)
    (hrest : (drain (acceptors svc.flowTables) (svc.pendingFlows ++ flowStats)).2 = [])
    (hplaced : AbsorbedFirst svc (svc.pendingFlows ++ flowStats))
    (hstale : NoStale svc (svc.pendingFlows ++ flowStats)) : Conserves now svc flowStats := by
  obtain ⟨svc', hsvc⟩ := flowUpdateHandler_of_drained now svc flowStats hrest
  refine ⟨(updateTables_rest ..).trans hrest, svc', hsvc, ?_⟩
  intro f hf i
  refine ⟨?_, ?_⟩
  · intro hsome
    by_contra hne
    have hi := flowUpdateHandler_index hsvc hsome
    obtain ⟨e, he, hstate⟩ := (refreshed_elsewhere hinv hsvc hnd hplaced hf hi hne).mp hsome
    exact hstale f hf i hne e he hstate
  · intro heq
    subst heq
    -- some table absorbed the flow, and that is its first
    have hflat := drain_flatten (acceptors svc.flowTables) (svc.pendingFlows ++ flowStats)
    rw [hrest, List.append_nil] at hflat
    rw [← hflat] at hf
    obtain ⟨absorbed, hmem, hfa⟩ := List.mem_flatten.mp hf
    obtain ⟨i, hi⟩ := List.mem_iff_getElem?.mp hmem
    rw [show firstTable svc f = i from hplaced i absorbed hi f hfa, refreshed_entryAt hinv hsvc hi]
    exact refreshed_of_absorbed hfa _

/--
**When a refresh conserves the reported flows.** In a reachable state, with
distinct cookies and every flow fitting some table, it does so exactly when the
flows are reported in the order of the tables they belong to, and no other table
still has one of their cookies marked for deletion.
-/
theorem refresh_conserves_iff {tables : List FlowTable}
    {ts : List (Transition FlowWorld FlowInput)} {w : FlowWorld}
    (hr : Run step (boot tables) ts w) {flowStats : List FlowDescriptionAndStats}
    (hnd : ((w.svc.pendingFlows ++ flowStats).map (·.cookie)).Nodup)
    (hfit : ∀ f ∈ w.svc.pendingFlows ++ flowStats, ∃ t ∈ w.svc.flowTables,
      t.checkTableFit f.flowDescription = true) :
    Conserves w.now w.svc flowStats ↔
      FitOrdered (acceptors w.svc.flowTables) (w.svc.pendingFlows ++ flowStats) ∧
        NoStale w.svc (w.svc.pendingFlows ++ flowStats) := by
  have hinv := serviceInv_reachable hr
  have hfit' : ∀ f ∈ w.svc.pendingFlows ++ flowStats, ∃ p ∈ acceptors w.svc.flowTables,
      p f = true := by
    intro f hf
    obtain ⟨t, ht, htf⟩ := hfit f hf
    exact ⟨_, List.mem_map_of_mem ht, htf⟩
  rw [← drain_firstFit_iff hfit']
  refine ⟨?_, ?_⟩
  · intro hcons
    have hrest : (drain (acceptors w.svc.flowTables) (w.svc.pendingFlows ++ flowStats)).2 = [] := by
      rw [← updateTables_rest w.now]
      exact hcons.1
    obtain ⟨hplaced, hstale⟩ := absorbed_of_conserves hinv hnd hcons
    exact ⟨⟨hrest, hplaced⟩, hstale⟩
  · intro ⟨⟨hrest, hplaced⟩, hstale⟩
    exact conserves_of_absorbed hinv hnd hrest hplaced hstale

/-- The controller of a Dell switch, with the L2 table in front of the ACL table, coming up. -/
def dellStarting : FlowWorld :=
  { boot [dellS48xxL2Table, dellS48xxAclTable] with
    svc := { (boot [dellS48xxL2Table, dellS48xxAclTable]).svc with initializing := true } }

theorem dellStarting_run : Run step (boot [dellS48xxL2Table, dellS48xxAclTable])
    [⟨boot [dellS48xxL2Table, dellS48xxAclTable], .init, dellStarting⟩] dellStarting :=
  .cons rfl .nil

/-- A flow for the L2 table: one destination address, one VLAN, one output port. -/
def l2Flow (cookie : UInt64) : FlowDescriptionAndStats where
  flowDescription :=
    { criteria :=
        { OfMatch.clear.wildcardAll with wildcardEthernetDest := false, wildcardVlanId := false }
      actionList := ⟨[.outputToPort false 1]⟩
      cookie := cookie
      priority := 100 }

/-- A flow only the ACL table accepts. -/
def aclFlow (cookie : UInt64) : FlowDescriptionAndStats where
  flowDescription := ⟨OfMatch.clear.wildcardAll, OpenflowActionList.clear, cookie, 100⟩

theorem noStale_dellStarting (reported : List FlowDescriptionAndStats) :
    NoStale dellStarting.svc reported := by
  intro f _ i _ e he
  obtain ⟨t, ht, he⟩ := entryAt_eq_some.mp he
  have hempty : t.flows = ∅ := by
    obtain ⟨t₀, _, rfl⟩ := List.mem_map.mp (List.mem_of_getElem? ht)
    rfl
  rw [hempty] at he
  exact absurd he (by simp)

/-- Reported with the L2 flow in front, both flows end up where they belong. -/
theorem refresh_conserves_in_order :
    Conserves dellStarting.now dellStarting.svc [l2Flow 1, aclFlow 2] :=
  (refresh_conserves_iff dellStarting_run (by decide) (by decide)).mpr
    ⟨by unfold FitOrdered; decide, noStale_dellStarting _⟩

/--
Reported behind the ACL flow, the L2 flow is absorbed by the ACL table, although
the cookies are distinct and both flows fit a table.
-/
theorem refresh_misplaces :
    (([aclFlow 2, l2Flow 1].map (·.cookie)).Nodup ∧
      ∀ f ∈ [aclFlow 2, l2Flow 1], ∃ t ∈ dellStarting.svc.flowTables,
        t.checkTableFit f.flowDescription = true) ∧
    ¬ Conserves dellStarting.now dellStarting.svc [aclFlow 2, l2Flow 1] := by
  refine ⟨⟨by decide, by decide⟩, ?_⟩
  intro ⟨_, svc', hsvc, hplace⟩
  have hinv := serviceInv_reachable dellStarting_run
  -- the L2 table, which is the first that accepts the flow, has no entry for it
  have hfirst := (hplace (l2Flow 1) (by decide) 0).mpr (by decide)
  have hmissed : (drain (acceptors dellStarting.svc.flowTables)
      (dellStarting.svc.pendingFlows ++ [aclFlow 2, l2Flow 1])).1[0]? = some [] := by decide
  rw [refreshed_entryAt hinv hsvc hmissed, refreshed_of_not_absorbed] at hfirst
  · obtain ⟨e, he, _⟩ := hfirst
    have hnone : entryAt dellStarting.svc 0 (l2Flow 1).cookie = none := by decide
    rw [hnone] at he
    exact absurd he (by simp)
  · simp

end IronStack.Proof
