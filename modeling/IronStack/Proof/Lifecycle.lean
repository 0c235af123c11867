import IronStack.Flow.Lifecycle
import IronStack.Proof.Table
import IronStack.Lib.Machine

/-!
# The life cycle of an entry

No step takes an entry from `PENDING_DELETION` or `DELETED` back to a standing
state. What a refresh does to the entries it does not report is another matter:
the branch for flows that disappeared also catches those still being installed
and those deleted a moment ago, and erases them all. So the rest of the life cycle
is kept by exactly the runs whose refreshes report every entry under installation,
and leave no fresh tombstone out.
-/

namespace IronStack.Proof

open IronStack Lib FlowTable TableWorld

/-- The controller is done with the entry: it waits for the switch, or for the purge. -/
def Doomed (e : FlowEntry) : Prop := e.state = .pendingDeletion ∨ e.state = .deleted

/-- A transition keeps to the life cycle of the entries. -/
structure LifecycleKept (t : Transition TableWorld TableInput) : Prop where
  /-- What a refresh missed while it was being installed is still there. -/
  waits : ∀ c, t.target.owed c = true → (t.target.table.flows[c]?).isSome = true
  /-- Nothing comes back from `PENDING_DELETION` or `DELETED`. -/
  noReturn : ∀ (c : UInt64) (e e' : FlowEntry), t.source.table.flows[c]? = some e → Doomed e →
    t.target.table.flows[c]? = some e' → e'.state ≠ .active ∧ e'.state ≠ .pendingInstallation
  /-- A deleted entry only leaves once its timeout has passed. -/
  lingers : ∀ (c : UInt64) (e : FlowEntry), t.source.table.flows[c]? = some e →
    e.state = .deleted → t.target.table.flows[c]? = none → t.source.Lapsed c

/--
A refresh the code handles well: it reports every entry that is being installed,
and a table does not miss a deleted one before its timeout. Other inputs are free.
-/
def ReportsFresh (w : TableWorld) : TableInput → Prop
  | .updateEntries l => ∀ p ∈ w.table.flows.toList,
      (p.2.state = .pendingInstallation → ∃ f ∈ l, f.cookie = p.1) ∧
        (p.2.state = .deleted → (∃ f ∈ taken w.table l, f.cookie = p.1) ∨ w.Lapsed p.1)
  | _ => True

instance (w : TableWorld) : (i : TableInput) → Decidable (ReportsFresh w i)
  | .updateEntries l => inferInstanceAs (Decidable (∀ p ∈ w.table.flows.toList,
      (p.2.state = .pendingInstallation → ∃ f ∈ l, f.cookie = p.1) ∧
        (p.2.state = .deleted → (∃ f ∈ taken w.table l, f.cookie = p.1) ∨ w.Lapsed p.1)))
  | .tick _ => .isTrue trivial
  | .addEntry _ => .isTrue trivial
  | .complete .. => .isTrue trivial
  | .markEntryAsPendingDeletion _ => .isTrue trivial
  | .markAllFlowsAsPendingDelete _ => .isTrue trivial
  | .flowRemoved _ => .isTrue trivial

theorem reportsFresh_updateEntries {w : TableWorld} {l : List FlowDescriptionAndStats} :
    ReportsFresh w (.updateEntries l) ↔ ∀ (c : UInt64) (e : FlowEntry),
      w.table.flows[c]? = some e →
      (e.state = .pendingInstallation → ∃ f ∈ l, f.cookie = c) ∧
        (e.state = .deleted → (∃ f ∈ taken w.table l, f.cookie = c) ∨ w.Lapsed c) := by
  simp only [ReportsFresh, Prod.forall, Std.ExtTreeMap.mem_toList_iff_getElem?_eq_some]

theorem stateIs_eq_true {t : FlowTable} {c : UInt64} {st : FlowState} :
    stateIs t c st = true ↔ ∃ e, t.flows[c]? = some e ∧ e.state = st := by
  unfold stateIs
  cases t.flows[c]? <;> simp

/-! ## One step -/

theorem step_eq {w w' : TableWorld} {i : TableInput} (h : step w i = some w') :
    apply w.now w.table i = some w'.table ∧
      ∀ c, w'.owed c = ((w.owed c ||
        (refreshesWithout c i && stateIs w.table c .pendingInstallation)) &&
          !completesInstall c i) := by
  obtain ⟨t, ht, rfl⟩ := Option.map_eq_some_iff.mp h
  exact ⟨ht, fun _ => rfl⟩

/-- `add_entry` on a fresh cookie leaves the other entries alone. -/
theorem apply_addEntry {now : Nat} {t t' : FlowTable} {entry : FlowEntry}
    (h : apply now t (.addEntry entry) = some t') :
    entry.isUpdated = false ∧ t.flows[entry.description.cookie]? = none ∧
      (t' = t ∨ t' = { t with flows := t.flows.insert entry.description.cookie entry }) := by
  simp only [apply] at h
  split at h
  · exact absurd h (by simp)
  · rename_i hfree
    rw [Bool.not_eq_true, Bool.or_eq_false_iff] at hfree
    refine ⟨hfree.1, Std.ExtTreeMap.getElem?_eq_none_of_contains_eq_false hfree.2, ?_⟩
    obtain ⟨⟨added, t₁⟩, hadd, rfl⟩ := Option.map_eq_some_iff.mp h
    obtain ⟨_, _, ⟨_, rfl, _⟩ | ⟨_, _, rfl⟩⟩ := addEntry_cases hadd
    · exact Or.inl rfl
    · exact Or.inr rfl

/-- What the operations other than a refresh do to an entry: none is removed, none comes back. -/
theorem apply_lookup {now : Nat} {t t' : FlowTable} {i : TableInput}
    (h : apply now t i = some t') (hi : ∀ l, i ≠ .updateEntries l) {c : UInt64} {e : FlowEntry}
    (he : t.flows[c]? = some e) :
    ∃ e', t'.flows[c]? = some e' ∧ (Doomed e → Doomed e') := by
  -- every operation but an insertion changes one entry by a function that keeps it doomed
  have hmapped : ∀ {k : UInt64} {f : FlowEntry → FlowEntry}, EntryMapped k f t t' →
      (∀ e, Doomed e → Doomed (f e)) → ∃ e', t'.flows[c]? = some e' ∧ (Doomed e → Doomed e') := by
    intro k f hm hf
    rw [hm.lookup, he]
    by_cases hk : c = k
    · exact ⟨f e, by rw [if_pos hk]; rfl, hf e⟩
    · exact ⟨e, by rw [if_neg hk], id⟩
  have hburied : ∀ e, Doomed e → Doomed (buried now e) := fun e _ => Or.inr rfl
  have hcondemned : ∀ e, Doomed e → Doomed (condemned now e) := by
    intro e hd
    unfold condemned
    split
    · exact hd
    · exact Or.inl rfl
  have hinstalled : ∀ e, Doomed e → Doomed (installed now e) := by
    intro e hd
    have hne : e.state ≠ .pendingInstallation := by
      rcases hd with h | h <;> simp [h]
    rw [installed_of_not_pending hne]
    exact hd
  cases i with
  | tick _ =>
      obtain rfl := Option.some.inj h
      exact ⟨e, he, id⟩
  | addEntry entry =>
      obtain ⟨_, hnone, rfl | rfl⟩ := apply_addEntry h
      · exact ⟨e, he, id⟩
      · have hne : entry.description.cookie ≠ c := by
          intro hc
          rw [hc, he] at hnone
          exact absurd hnone (by simp)
        exact ⟨e, by rw [getElem?_insert, if_neg hne, he], id⟩
  | complete request reply status =>
      have hback : t.halCallback now request reply status = some t' := h
      obtain ⟨msg, _, hm⟩ := halCallback_mapped hback
      rcases completionEffect_cases now msg.command reply with hc | hc | hc
      · exact hmapped hm (by rw [hc]; exact hinstalled)
      · exact hmapped hm (by rw [hc]; exact hburied)
      · exact hmapped hm (by rw [hc]; exact fun e => id)
  | markEntryAsPendingDeletion cookieId =>
      obtain rfl := Option.some.inj h
      exact hmapped (markEntryAsPendingDeletion_mapped now t cookieId) hcondemned
  | markAllFlowsAsPendingDelete includeStatic =>
      obtain rfl := Option.some.inj h
      refine ⟨slated now includeStatic e, by rw [markAll_lookup, he]; rfl, fun hd => ?_⟩
      unfold slated
      split
      · exact Or.inl rfl
      · exact hd
  | flowRemoved cookie =>
      simp only [apply] at h
      split at h
      · obtain rfl := Option.some.inj h
        exact hmapped (markEntryAsDeleted_mapped now t cookie) hburied
      · obtain rfl := Option.some.inj h
        exact ⟨e, he, id⟩
  | updateEntries l => exact absurd rfl (hi l)

theorem tableInv_apply {now : Nat} {t t' : FlowTable} {i : TableInput} (ht : TableInv t)
    (h : apply now t i = some t') : TableInv t' := by
  cases i with
  | tick _ =>
      obtain rfl := Option.some.inj h
      exact ht
  | addEntry entry =>
      obtain ⟨hu, _, rfl | rfl⟩ := apply_addEntry h
      · exact ht
      · exact tableInv_insert ht hu
  | complete request reply status =>
      have hback : t.halCallback now request reply status = some t' := h
      obtain ⟨msg, _, hm⟩ := halCallback_mapped hback
      rcases completionEffect_cases now msg.command reply with hc | hc | hc
      · exact hm.inv ht (by simp [hc]) (by simp [hc])
      · exact hm.inv ht (by simp [hc]) (by simp [hc])
      · exact hm.inv ht (by simp [hc]) (by simp [hc])
  | markEntryAsPendingDeletion cookieId =>
      obtain rfl := Option.some.inj h
      exact (markEntryAsPendingDeletion_mapped now t cookieId).inv ht (by simp) (by simp)
  | markAllFlowsAsPendingDelete includeStatic =>
      obtain rfl := Option.some.inj h
      exact tableInv_markAll ht now includeStatic
  | flowRemoved cookie =>
      simp only [apply] at h
      split at h
      · obtain rfl := Option.some.inj h
        exact (markEntryAsDeleted_mapped now t cookie).inv ht (by simp) (by simp)
      · obtain rfl := Option.some.inj h
        exact ht
  | updateEntries l =>
      obtain rfl := Option.some.inj h
      exact tableInv_updateEntries ht now l

/-- What a refresh does to an entry that was there. -/
theorem updateEntries_of_some {t : FlowTable} (ht : TableInv t) (now : Nat)
    (l : List FlowDescriptionAndStats) {c : UInt64} {e : FlowEntry} (he : t.flows[c]? = some e) :
    (t.updateEntries now l).2.2.flows[c]? =
      if ∃ f ∈ taken t l, f.cookie = c then some (confirmed now e) else missed now e := by
  rw [updateEntries_lookup ht, he]
  split
  · rename_i htaken
    have hfound : ((taken t l).find? fun f => f.cookie = c).isSome = true :=
      List.find?_isSome.mpr (by simpa using htaken)
    obtain ⟨f, hf⟩ := Option.isSome_iff_exists.mp hfound
    rw [hf]
    rfl
  · rename_i hleft
    have hnone : ((taken t l).find? fun f => f.cookie = c) = none :=
      List.find?_eq_none.mpr (by simpa using hleft)
    rw [hnone]
    rfl

theorem confirmed_of_doomed {now : Nat} {e : FlowEntry} (h : Doomed e) : confirmed now e = e := by
  unfold confirmed
  rcases h with h | h <;> rw [h]

theorem missed_eq_none {now : Nat} {e : FlowEntry} :
    missed now e = none ↔ e.state ≠ .pendingDeletion := by
  unfold missed
  split <;> simp_all

/-- No step takes a doomed entry back. -/
theorem apply_noReturn {now : Nat} {t t' : FlowTable} {i : TableInput} (ht : TableInv t)
    (h : apply now t i = some t') {c : UInt64} {e e' : FlowEntry} (he : t.flows[c]? = some e)
    (hd : Doomed e) (he' : t'.flows[c]? = some e') : Doomed e' := by
  by_cases hi : ∃ l, i = .updateEntries l
  · obtain ⟨l, rfl⟩ := hi
    obtain rfl := Option.some.inj h
    rw [updateEntries_of_some ht now l he] at he'
    split at he'
    · rw [← Option.some.inj he', confirmed_of_doomed hd]
      exact hd
    · unfold missed at he'
      split at he'
      · rw [← Option.some.inj he']
        exact Or.inr rfl
      · exact absurd he' (by simp)
  · obtain ⟨e₁, he₁, hkeep⟩ := apply_lookup h (fun l hl => hi ⟨l, hl⟩) he
    rw [he'] at he₁
    rw [Option.some.inj he₁]
    exact hkeep hd

/-! ## Runs -/

/-- Nothing was missed by a refresh while its installation was under way. -/
def NothingOwed (w : TableWorld) : Prop := ∀ c, w.owed c = false

/-- Steps other than a refresh keep to the life cycle, and owe nothing new. -/
theorem lifecycleKept_of_not_refresh {w w' : TableWorld} {i : TableInput} (ht : TableInv w.table)
    (hw : NothingOwed w) (h : step w i = some w') (hi : ∀ l, i ≠ .updateEntries l) :
    LifecycleKept ⟨w, i, w'⟩ where
  waits c hc := by
    have hnew : refreshesWithout c i = false := by
      cases i with
      | updateEntries l => exact absurd rfl (hi l)
      | _ => rfl
    rw [(step_eq h).2, hw c, hnew] at hc
    exact absurd hc (by simp)
  noReturn c e e' he hd he' := by
    rcases apply_noReturn ht (step_eq h).1 he hd he' with hs | hs <;> simp [hs]
  lingers c e he _ hgone := by
    obtain ⟨e', he', _⟩ := apply_lookup (step_eq h).1 hi he
    rw [hgone] at he'
    exact absurd he' (by simp)

/-- A refresh keeps to the life cycle exactly when it leaves out nothing it should not. -/
theorem lifecycleKept_refresh_iff {w w' : TableWorld} {l : List FlowDescriptionAndStats}
    (ht : TableInv w.table) (hw : NothingOwed w) (h : step w (.updateEntries l) = some w') :
    LifecycleKept ⟨w, .updateEntries l, w'⟩ ↔ ReportsFresh w (.updateEntries l) := by
  obtain ⟨happly, howed⟩ := step_eq h
  have hlook : ∀ (c : UInt64) (e : FlowEntry), w.table.flows[c]? = some e →
      w'.table.flows[c]? =
        if ∃ f ∈ taken w.table l, f.cookie = c then some (confirmed w.now e)
        else missed w.now e := by
    intro c e he
    rw [← Option.some.inj happly]
    exact updateEntries_of_some ht w.now l he
  have howes : ∀ c, w'.owed c = true ↔
      (∀ f ∈ l, f.cookie ≠ c) ∧ stateIs w.table c .pendingInstallation = true := by
    intro c
    rw [howed, hw c]
    simp [refreshesWithout, completesInstall]
  -- what is taken was reported, so an entry that was not reported is missed
  have hgone : ∀ (c : UInt64) (e : FlowEntry), w.table.flows[c]? = some e →
      e.state = .pendingInstallation → (∀ f ∈ l, f.cookie ≠ c) → w'.table.flows[c]? = none := by
    intro c e he hs hl
    have hleft : ¬ ∃ f ∈ taken w.table l, f.cookie = c := by
      intro ⟨f, hf, hc⟩
      exact hl f ((List.takeWhile_sublist _).mem hf) hc
    rw [hlook c e he, if_neg hleft, missed_eq_none, hs]
    simp
  rw [reportsFresh_updateEntries]
  refine ⟨?_, ?_⟩
  · intro hkept c e he
    refine ⟨fun hs => ?_, fun hs => ?_⟩
    · by_contra hl
      have hl' : ∀ f ∈ l, f.cookie ≠ c := fun f hf hc => hl ⟨f, hf, hc⟩
      have hthere := hkept.waits c ((howes c).mpr ⟨hl', stateIs_eq_true.mpr ⟨e, he, hs⟩⟩)
      have hnone : w'.table.flows[c]? = none := hgone c e he hs hl'
      rw [hnone] at hthere
      exact absurd hthere (by simp)
    · -- a deleted entry that was not taken is erased, whatever its age
      by_cases htaken : ∃ f ∈ taken w.table l, f.cookie = c
      · exact Or.inl htaken
      · refine Or.inr (hkept.lingers c e he hs ?_)
        show w'.table.flows[c]? = none
        rw [hlook c e he, if_neg htaken, missed_eq_none, hs]
        simp
  · intro hok
    refine ⟨fun c hc => ?_, fun c e e' he hd he' => ?_, fun c e he hs hnone => ?_⟩
    · obtain ⟨hl, hpending⟩ := (howes c).mp hc
      obtain ⟨e, he, hs⟩ := stateIs_eq_true.mp hpending
      obtain ⟨f, hf, hfc⟩ := (hok c e he).1 hs
      exact absurd hfc (hl f hf)
    · rcases apply_noReturn ht happly he hd he' with hs | hs <;> simp [hs]
    · rcases (hok c e he).2 hs with htaken | hlapsed
      · have hstill : w'.table.flows[c]? = some (confirmed w.now e) := by
          rw [hlook c e he, if_pos htaken]
        rw [show w'.table.flows[c]? = none from hnone] at hstill
        exact absurd hstill (by simp)
      · exact hlapsed

theorem lifecycleKept_step_iff {w w' : TableWorld} {i : TableInput} (ht : TableInv w.table)
    (hw : NothingOwed w) (h : step w i = some w') :
    LifecycleKept ⟨w, i, w'⟩ ↔ ReportsFresh w i := by
  by_cases hi : ∃ l, i = .updateEntries l
  · obtain ⟨l, rfl⟩ := hi
    exact lifecycleKept_refresh_iff ht hw h
  · have hfree : ReportsFresh w i := by
      cases i with
      | updateEntries l => exact absurd ⟨l, rfl⟩ hi
      | _ => trivial
    exact iff_of_true (lifecycleKept_of_not_refresh ht hw h fun l hl => hi ⟨l, hl⟩) hfree

/-- A step that keeps to the life cycle leaves nothing owed. -/
theorem nothingOwed_of_kept {w w' : TableWorld} {i : TableInput} (ht : TableInv w.table)
    (hw : NothingOwed w) (h : step w i = some w') (hkept : LifecycleKept ⟨w, i, w'⟩) :
    NothingOwed w' := by
  intro c
  rw [(step_eq h).2, hw c]
  by_cases hnew : refreshesWithout c i = true ∧ stateIs w.table c .pendingInstallation = true
  · -- then the refresh left out an entry it had to report
    cases i with
    | updateEntries l =>
        obtain ⟨e, he, hs⟩ := stateIs_eq_true.mp hnew.2
        have hok := reportsFresh_updateEntries.mp ((lifecycleKept_step_iff ht hw h).mp hkept)
        obtain ⟨f, hf, hc⟩ := (hok c e he).1 hs
        have hleft := hnew.1
        simp only [refreshesWithout, Bool.not_eq_true', List.any_eq_false] at hleft
        exact absurd hc (by simpa using hleft f hf)
    | _ => exact absurd hnew.1 (by simp [refreshesWithout])
  · have : (refreshesWithout c i && stateIs w.table c .pendingInstallation) = false := by
      simpa using hnew
    rw [this]
    rfl

/--
**When the life cycle is kept.** In every run of a table, from empty, all steps
keep to the life cycle of the entries exactly when every refresh reports what is
being installed and misses no deleted entry before its timeout.
-/
theorem lifecycle_kept_iff {t : FlowTable} {ts : List (Transition TableWorld TableInput)}
    {w : TableWorld} (hr : Run step (boot t) ts w) :
    (∀ tr ∈ ts, LifecycleKept tr) ↔ ∀ tr ∈ ts, ReportsFresh tr.source tr.input :=
  hr.forall_good_iff (fun w => TableInv w.table) NothingOwed
    (tableInv_empty t.checkFit t.maxCapacity) (fun _ => rfl)
    (fun _ _ _ ht h => tableInv_apply ht (step_eq h).1)
    (fun _ _ _ ht hw h hkept => nothingOwed_of_kept ht hw h hkept)
    fun _ _ _ ht hw h => lifecycleKept_step_iff ht hw h

/-- A flow that matches everything and drops it, with this cookie. -/
def dropFlow (cookie : UInt64) : FlowDescription :=
  ⟨OfMatch.clear.wildcardAll, OpenflowActionList.clear, cookie, 100⟩

/-- The entry `add_flow` makes for it. -/
def dropEntry (cookie : UInt64) : FlowEntry where
  state := .pendingInstallation
  idleTimeout := 0
  hardTimeout := 0
  lastUpdated := Timer.reset 0
  installReason := ""
  description := dropFlow cookie
  isUpdated := false

/--
A flow is added, reported, acknowledged and removed, and the refresh that misses
its tombstone only comes six seconds later.
-/
theorem lifecycle_kept_unhurried : ∃ ts w, Run step (boot dellS48xxAclTable) ts w ∧
    w.table.flows[(5 : UInt64)]? = none ∧ ∀ tr ∈ ts, LifecycleKept tr := by
  obtain ⟨ts, w, hr, hcheck⟩ := Run.exists_of_test step (boot dellS48xxAclTable)
    [.addEntry (dropEntry 5), .updateEntries [{ flowDescription := dropFlow 5 }],
      .complete (.flowMod { flowDescription := dropFlow 5 }) none true,
      .markEntryAsPendingDeletion 5, .updateEntries [], .tick 6000000000, .updateEntries []]
    (fun ts w => w.table.flows[(5 : UInt64)]?.isNone &&
      decide (∀ tr ∈ ts, ReportsFresh tr.source tr.input)) (by decide +kernel)
  rw [Bool.and_eq_true, decide_eq_true_eq, Option.isNone_iff_eq_none] at hcheck
  exact ⟨ts, w, hr, hcheck.1, (lifecycle_kept_iff hr).mpr hcheck.2⟩

/--
A refresh that was answered before the flow reached the switch erases the entry
while its transaction is still under way.
-/
theorem refresh_erases_pending : ∃ ts w, Run step (boot dellS48xxAclTable) ts w ∧
    ¬ ∀ tr ∈ ts, LifecycleKept tr := by
  obtain ⟨ts, w, hr, hcheck⟩ := Run.exists_of_test step (boot dellS48xxAclTable)
    [.addEntry (dropEntry 5), .updateEntries []]
    (fun ts _ => ts.any fun tr =>
      tr.target.owed 5 && tr.target.table.flows[(5 : UInt64)]?.isNone) (by decide +kernel)
  refine ⟨ts, w, hr, fun hkept => ?_⟩
  obtain ⟨tr, htr, hlost⟩ := List.any_eq_true.mp hcheck
  rw [Bool.and_eq_true, Option.isNone_iff_eq_none] at hlost
  have hthere := (hkept tr htr).waits 5 hlost.1
  rw [hlost.2] at hthere
  exact absurd hthere (by simp)

end IronStack.Proof
