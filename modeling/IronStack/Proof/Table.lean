import IronStack.Flow.Table
import IronStack.Lib.OrdMap

/-!
# What the operations of a flow table do to an entry

Every operation of `flow_table` acts on the entries one cookie at a time: what is
under a cookie afterwards depends only on what was under it before. This file
says so once for each operation; nothing above it unfolds one again.

Two facts hold of every table the service can be seen with. Entries sit under
their own cookies, because `add_entry` and `update_entries` are the only places
that create them. And no entry carries the mark of a refresh, because
`update_entries` takes back every mark it makes.
-/

namespace IronStack.Proof

open IronStack Lib FlowTable

instance linearOrderUInt64 : LinearOrder UInt64 where
  le_refl := UInt64.le_refl
  le_trans _ _ _ := UInt64.le_trans
  le_antisymm _ _ := UInt64.le_antisymm
  le_total := UInt64.le_total
  toDecidableLE := inferInstance
  toDecidableEq := inferInstance
  toDecidableLT := inferInstance
  toOrd := inferInstance
  lt_iff_le_not_ge a b := by
    rw [UInt64.not_le]
    exact ⟨fun h => ⟨UInt64.le_of_lt h, h⟩, fun h => h.2⟩
  compare_eq_compareOfLessAndEq _ _ := rfl

/-- Entries sit under their own cookies, and no refresh has left a mark on one. -/
structure TableInv (t : FlowTable) : Prop where
  /-- An entry is stored under the cookie of its description. -/
  keyed : ∀ {c : UInt64} {e : FlowEntry}, t.flows[c]? = some e → e.description.cookie = c
  /-- Outside `update_entries` the `is_updated` flags are down. -/
  quiet : ∀ {c : UInt64} {e : FlowEntry}, t.flows[c]? = some e → e.isUpdated = false

theorem tableInv_empty (fits : OfMatch → OpenflowActionList → Bool) (cap : UInt32) :
    TableInv ⟨fits, cap, ∅⟩ where
  keyed h := by simp at h
  quiet h := by simp at h

/-! ## Changing one entry -/

/-- `t'` is `t` with the entry under `c`, if there is one, passed through `f`. -/
structure EntryMapped (c : UInt64) (f : FlowEntry → FlowEntry) (t t' : FlowTable) : Prop where
  checkFit : t'.checkFit = t.checkFit
  maxCapacity : t'.maxCapacity = t.maxCapacity
  lookup : ∀ k, t'.flows[k]? = if k = c then t.flows[k]?.map f else t.flows[k]?

namespace EntryMapped

variable {c k : UInt64} {f : FlowEntry → FlowEntry} {t t' : FlowTable} {e : FlowEntry}

theorem of_none (h : t.flows[c]? = none) : EntryMapped c f t t where
  checkFit := rfl
  maxCapacity := rfl
  lookup k := by
    by_cases hk : k = c
    · rw [if_pos hk, hk, h]
      rfl
    · rw [if_neg hk]

theorem of_fixed (h : t.flows[c]? = some e) (hf : f e = e) : EntryMapped c f t t where
  checkFit := rfl
  maxCapacity := rfl
  lookup k := by
    by_cases hk : k = c
    · rw [if_pos hk, hk, h, Option.map_some, hf]
    · rw [if_neg hk]

theorem of_insert (h : t.flows[c]? = some e) :
    EntryMapped c f t { t with flows := t.flows.insert c (f e) } where
  checkFit := rfl
  maxCapacity := rfl
  lookup k := getElem?_insert_map t.flows f k h

theorem refl (c : UInt64) (t : FlowTable) : EntryMapped c id t t where
  checkFit := rfl
  maxCapacity := rfl
  lookup k := by
    split
    · exact (Option.map_id_apply ..).symm
    · rfl

/-- Where an entry of the new table came from. -/
theorem of_some (h : EntryMapped c f t t') (he : t'.flows[k]? = some e) :
    (k ≠ c ∧ t.flows[k]? = some e) ∨ (k = c ∧ ∃ e₀, t.flows[k]? = some e₀ ∧ e = f e₀) := by
  rw [h.lookup] at he
  by_cases hk : k = c
  · rw [if_pos hk] at he
    obtain ⟨e₀, h₀, rfl⟩ := Option.map_eq_some_iff.mp he
    exact Or.inr ⟨hk, e₀, h₀, rfl⟩
  · rw [if_neg hk] at he
    exact Or.inl ⟨hk, he⟩

theorem inv (h : EntryMapped c f t t') (ht : TableInv t)
    (hd : ∀ e, (f e).description = e.description) (hu : ∀ e, (f e).isUpdated = e.isUpdated) :
    TableInv t' where
  keyed {k e} he := by
    rcases h.of_some he with ⟨_, h₀⟩ | ⟨_, e₀, h₀, rfl⟩
    · exact ht.keyed h₀
    · rw [hd]
      exact ht.keyed h₀
  quiet {k e} he := by
    rcases h.of_some he with ⟨_, h₀⟩ | ⟨_, e₀, h₀, rfl⟩
    · exact ht.quiet h₀
    · rw [hu]
      exact ht.quiet h₀

end EntryMapped

/-! ## The three marks and the completion callback -/

/-- What `mark_entry_as_installed` does to the entry. -/
def installed (now : Nat) (e : FlowEntry) : FlowEntry :=
  if e.state = .pendingInstallation then e.setState now .active else e

/-- What `mark_entry_as_pending_deletion` does to the entry. -/
def condemned (now : Nat) (e : FlowEntry) : FlowEntry :=
  if e.state = .deleted then e else e.setState now .pendingDeletion

/-- What `mark_entry_as_deleted` does to the entry. -/
def buried (now : Nat) (e : FlowEntry) : FlowEntry := e.setState now .deleted

@[simp] theorem installed_description (now : Nat) (e : FlowEntry) :
    (installed now e).description = e.description := by
  unfold installed
  split <;> rfl

@[simp] theorem installed_isUpdated (now : Nat) (e : FlowEntry) :
    (installed now e).isUpdated = e.isUpdated := by
  unfold installed
  split <;> rfl

@[simp] theorem condemned_description (now : Nat) (e : FlowEntry) :
    (condemned now e).description = e.description := by
  unfold condemned
  split <;> rfl

@[simp] theorem condemned_isUpdated (now : Nat) (e : FlowEntry) :
    (condemned now e).isUpdated = e.isUpdated := by
  unfold condemned
  split <;> rfl

@[simp] theorem buried_state (now : Nat) (e : FlowEntry) : (buried now e).state = .deleted := rfl

@[simp] theorem buried_description (now : Nat) (e : FlowEntry) :
    (buried now e).description = e.description := rfl

@[simp] theorem buried_isUpdated (now : Nat) (e : FlowEntry) :
    (buried now e).isUpdated = e.isUpdated := rfl

theorem installed_of_pending {now : Nat} {e : FlowEntry} (h : e.state = .pendingInstallation) :
    installed now e = e.setState now .active := if_pos h

theorem installed_of_not_pending {now : Nat} {e : FlowEntry} (h : e.state ≠ .pendingInstallation) :
    installed now e = e := if_neg h

theorem condemned_not_standing (now : Nat) (e : FlowEntry) :
    (condemned now e).state.isStanding = false := by
  unfold condemned
  split
  · rename_i h
    rw [h]
    rfl
  · rfl

theorem markEntryAsInstalled_mapped (now : Nat) (t : FlowTable) (c : UInt64) :
    EntryMapped c (installed now) t (t.markEntryAsInstalled now c).2 := by
  unfold markEntryAsInstalled
  cases he : t.flows[c]? with
  | none => exact .of_none he
  | some e =>
      dsimp only
      cases hs : e.state with
      | pendingInstallation =>
          rw [← installed_of_pending hs]
          exact .of_insert he
      | unknown => exact .of_fixed he (installed_of_not_pending (by simp [hs]))
      | active => exact .of_fixed he (installed_of_not_pending (by simp [hs]))
      | pendingDeletion => exact .of_fixed he (installed_of_not_pending (by simp [hs]))
      | deleted => exact .of_fixed he (installed_of_not_pending (by simp [hs]))

theorem markEntryAsPendingDeletion_mapped (now : Nat) (t : FlowTable) (c : UInt64) :
    EntryMapped c (condemned now) t (t.markEntryAsPendingDeletion now c).2 := by
  unfold markEntryAsPendingDeletion
  cases he : t.flows[c]? with
  | none => exact .of_none he
  | some e =>
      dsimp only
      by_cases hs : e.state = .deleted
      · rw [if_pos hs]
        exact .of_fixed he (if_pos hs)
      · rw [if_neg hs, show e.setState now .pendingDeletion = condemned now e from (if_neg hs).symm]
        exact .of_insert he

theorem markEntryAsDeleted_mapped (now : Nat) (t : FlowTable) (c : UInt64) :
    EntryMapped c (buried now) t (t.markEntryAsDeleted now c).2 := by
  unfold markEntryAsDeleted
  cases he : t.flows[c]? with
  | none => exact .of_none he
  | some e => exact .of_insert he

/-- `mark_entry_as_pending_deletion` succeeds on every entry that is not already deleted. -/
theorem markEntryAsPendingDeletion_eq_true (now : Nat) (t : FlowTable) (c : UInt64) :
    (t.markEntryAsPendingDeletion now c).1 = true ↔
      ∃ e, t.flows[c]? = some e ∧ e.state ≠ .deleted := by
  unfold markEntryAsPendingDeletion
  cases he : t.flows[c]? with
  | none => simp
  | some e =>
      by_cases hs : e.state = .deleted <;> simp [hs]

/-- What the completion of an add or modify does to its entry, by the reply's type. -/
def installEffect (now : Nat) (reply : Option OfpType) : FlowEntry → FlowEntry :=
  if reply = none then installed now
  else if reply = some .error then buried now
  else id

/-- What the completion of a delete does to its entry. -/
def removeEffect (now : Nat) (reply : Option OfpType) : FlowEntry → FlowEntry :=
  if reply = none ∨ reply = some .flowRemoved then buried now else id

/-- What `hal_callback` does to the entry of the transaction. -/
def completionEffect (now : Nat) (command : FlowModCommand) (reply : Option OfpType) :
    FlowEntry → FlowEntry :=
  match command with
  | .add | .modify | .modifyStrict => installEffect now reply
  | .delete | .deleteStrict => removeEffect now reply

theorem completionEffect_cases (now : Nat) (cmd : FlowModCommand) (reply : Option OfpType) :
    completionEffect now cmd reply = installed now ∨ completionEffect now cmd reply = buried now ∨
      completionEffect now cmd reply = id := by
  unfold completionEffect installEffect removeEffect
  cases cmd <;> dsimp only <;> split_ifs <;> simp

@[simp] theorem completionEffect_description (now : Nat) (cmd : FlowModCommand)
    (reply : Option OfpType) (e : FlowEntry) :
    (completionEffect now cmd reply e).description = e.description := by
  rcases completionEffect_cases now cmd reply with h | h | h <;> simp [h]

/-- The part of `hal_callback` for a flow that was to be installed. -/
theorem installReply_mapped {now : Nat} {t t' : FlowTable} {reply : Option OfpType} {c : UInt64}
    (h : (match reply with
      | none => some (t.markEntryAsInstalled now c).2
      | some .error => some (t.markEntryAsDeleted now c).2
      | some _ => some t) = some t') :
    EntryMapped c (installEffect now reply) t t' := by
  split at h
  · obtain rfl := Option.some.inj h
    exact markEntryAsInstalled_mapped now t c
  · obtain rfl := Option.some.inj h
    exact markEntryAsDeleted_mapped now t c
  · rename_i r hne
    obtain rfl := Option.some.inj h
    have hid : installEffect now (some r) = id := by
      rw [installEffect, if_neg (by simp), if_neg fun hr => hne (Option.some.inj hr)]
    rw [hid]
    exact .refl c t

/-- The part of `hal_callback` for a flow that was to be removed. -/
theorem removeReply_mapped {now : Nat} {t t' : FlowTable} {reply : Option OfpType} {c : UInt64}
    (h : (match reply with
      | none | some .flowRemoved => some (t.markEntryAsDeleted now c).2
      | some _ => some t) = some t') :
    EntryMapped c (removeEffect now reply) t t' := by
  split at h
  · obtain rfl := Option.some.inj h
    exact markEntryAsDeleted_mapped now t c
  · obtain rfl := Option.some.inj h
    exact markEntryAsDeleted_mapped now t c
  · rename_i r hne
    obtain rfl := Option.some.inj h
    have hid : removeEffect now (some r) = id := by
      rw [removeEffect, if_neg]
      intro h
      rcases h with hr | hr
      · exact absurd hr (by simp)
      · exact hne (Option.some.inj hr)
    rw [hid]
    exact .refl c t

theorem halCallback_mapped {now : Nat} {t t' : FlowTable} {request : FlowRequest}
    {reply : Option OfpType} {status : Bool}
    (h : t.halCallback now request reply status = some t') :
    ∃ msg, request = .flowMod msg ∧
      EntryMapped msg.flowDescription.cookie (completionEffect now msg.command reply) t t' := by
  cases request with
  | statsRequestFlowStats => exact absurd h (by simp [halCallback])
  | flowMod msg =>
      refine ⟨msg, rfl, ?_⟩
      dsimp only [halCallback] at h
      unfold completionEffect
      cases hc : msg.command <;> rw [hc] at h
      · exact installReply_mapped h
      · exact installReply_mapped h
      · exact installReply_mapped h
      · exact removeReply_mapped h
      · exact removeReply_mapped h

/-! ## Adding an entry -/

/--
How `add_entry` can end: with the table full, or with the entry stored over
whatever was under its cookie.
-/
theorem addEntry_cases {t t' : FlowTable} {entry : FlowEntry} {added : Bool}
    (h : t.addEntry entry = some (added, t')) :
    entry.description.cookie ≠ 0 ∧ entry.description.cookie ≠ noCookie ∧
      ((added = false ∧ t' = t ∧ t.maxCapacity.toNat ≤ t.flows.size) ∨
        (added = true ∧ t.flows.size < t.maxCapacity.toNat ∧
          t' = { t with flows := t.flows.insert entry.description.cookie entry })) := by
  unfold addEntry at h
  split at h
  · exact absurd h (by simp)
  · rename_i hc
    rw [not_or] at hc
    refine ⟨hc.1, hc.2, ?_⟩
    split at h
    · rename_i hfull
      simp only [Option.some.injEq, Prod.mk.injEq] at h
      exact Or.inl ⟨h.1.symm, h.2.symm, hfull⟩
    · rename_i hroom
      simp only [Option.some.injEq, Prod.mk.injEq] at h
      exact Or.inr ⟨h.1.symm, Nat.lt_of_not_le hroom, h.2.symm⟩

theorem tableInv_insert {t : FlowTable} {e : FlowEntry} (ht : TableInv t)
    (hu : e.isUpdated = false) :
    TableInv { t with flows := t.flows.insert e.description.cookie e } where
  keyed {c e'} h := by
    dsimp only at h
    rw [getElem?_insert] at h
    split at h
    · rename_i hc
      obtain rfl := Option.some.inj h
      exact hc
    · exact ht.keyed h
  quiet {c e'} h := by
    dsimp only at h
    rw [getElem?_insert] at h
    split at h
    · obtain rfl := Option.some.inj h
      exact hu
    · exact ht.quiet h

/-! ## Clearing -/

theorem clearTable_lookup (t : FlowTable) (includeStatic : Bool) (c : UInt64) :
    (t.clearTable includeStatic).flows[c]? =
      if includeStatic then t.flows[c]?.filter (·.isStatic) else none := by
  cases includeStatic <;> simp [clearTable]

/-- What `mark_all_flows_as_pending_delete` does to an entry. -/
def slated (now : Nat) (includeStatic : Bool) (e : FlowEntry) : FlowEntry :=
  if slatedForDeletion includeStatic e then e.setState now .pendingDeletion else e

@[simp] theorem slated_description (now : Nat) (includeStatic : Bool) (e : FlowEntry) :
    (slated now includeStatic e).description = e.description := by
  unfold slated
  split <;> rfl

@[simp] theorem slated_isUpdated (now : Nat) (includeStatic : Bool) (e : FlowEntry) :
    (slated now includeStatic e).isUpdated = e.isUpdated := by
  unfold slated
  split <;> rfl

@[simp] theorem slated_isStatic (now : Nat) (includeStatic : Bool) (e : FlowEntry) :
    (slated now includeStatic e).isStatic = e.isStatic := by
  unfold slated
  split <;> rfl

theorem slated_standing {now : Nat} {includeStatic : Bool} {e : FlowEntry}
    (h : (slated now includeStatic e).state.isStanding = true) :
    slated now includeStatic e = e ∧ includeStatic = false ∧ e.isStatic = true := by
  unfold slated at h ⊢
  by_cases hs : slatedForDeletion includeStatic e = true
  · rw [if_pos hs] at h
    exact absurd h (by simp [FlowState.isStanding])
  · rw [if_neg hs] at h
    rw [if_neg hs]
    refine ⟨rfl, ?_⟩
    cases includeStatic <;> simp_all [slatedForDeletion]

theorem markAll_lookup (now : Nat) (t : FlowTable) (includeStatic : Bool) (c : UInt64) :
    (t.markAllFlowsAsPendingDelete now includeStatic).2.flows[c]? =
      t.flows[c]?.map (slated now includeStatic) := by
  rw [markAllFlowsAsPendingDelete]
  exact Std.ExtTreeMap.getElem?_map

theorem tableInv_markAll {t : FlowTable} (ht : TableInv t) (now : Nat) (includeStatic : Bool) :
    TableInv (t.markAllFlowsAsPendingDelete now includeStatic).2 where
  keyed {c e} he := by
    rw [markAll_lookup] at he
    obtain ⟨e₀, h₀, rfl⟩ := Option.map_eq_some_iff.mp he
    rw [slated_description]
    exact ht.keyed h₀
  quiet {c e} he := by
    rw [markAll_lookup] at he
    obtain ⟨e₀, h₀, rfl⟩ := Option.map_eq_some_iff.mp he
    rw [slated_isUpdated]
    exact ht.quiet h₀

/-- The entries `mark_all_flows_as_pending_delete` returns are those it marked, marked. -/
theorem mem_markAll {now : Nat} {t : FlowTable} {includeStatic : Bool} {e : FlowEntry} :
    e ∈ (t.markAllFlowsAsPendingDelete now includeStatic).1 ↔
      ∃ (c : UInt64) (e₀ : FlowEntry), t.flows[c]? = some e₀ ∧
        slatedForDeletion includeStatic e₀ = true ∧
        e = e₀.setState now .pendingDeletion := by
  simp only [markAllFlowsAsPendingDelete, List.mem_filterMap, Prod.exists,
    Std.ExtTreeMap.mem_toList_iff_getElem?_eq_some]
  refine ⟨?_, ?_⟩
  · intro ⟨c, e₀, he₀, h⟩
    split at h
    · rename_i hs
      exact ⟨c, e₀, he₀, hs, (Option.some.inj h).symm⟩
    · exact absurd h (by simp)
  · intro h
    obtain ⟨c, e₀, he₀, hs, rfl⟩ := h
    exact ⟨c, e₀, he₀, by rw [if_pos hs]⟩

/-! ## Refreshing -/

/-- A reported entry after the refresh. -/
def confirmed (now : Nat) (e : FlowEntry) : FlowEntry :=
  match e.state with
  | .unknown | .pendingInstallation => e.setState now .active
  | .active | .pendingDeletion | .deleted => e

/-- The entry of a reported flow that was never in the table, after the refresh. -/
def adopted (now : Nat) (f : FlowDescriptionAndStats) : FlowEntry :=
  { inheritedEntry now f with isUpdated := false }

/-- An entry that was not reported, after the refresh. -/
def missed (now : Nat) (e : FlowEntry) : Option FlowEntry :=
  if e.state = .pendingDeletion then some (buried now e) else none

@[simp] theorem confirmed_description (now : Nat) (e : FlowEntry) :
    (confirmed now e).description = e.description := by
  unfold confirmed
  split <;> rfl

@[simp] theorem confirmed_isUpdated (now : Nat) (e : FlowEntry) :
    (confirmed now e).isUpdated = e.isUpdated := by
  unfold confirmed
  split <;> rfl

/-- What a refresh of the entries under one cookie comes to. -/
def refreshed (now : Nat) (report : Option FlowDescriptionAndStats) (e : Option FlowEntry) :
    Option FlowEntry :=
  match report with
  | none => e.bind (missed now)
  | some f => some ((e.map (confirmed now)).getD (adopted now f))

theorem refreshEntry_idem (now : Nat) (e : FlowEntry) :
    refreshEntry now (refreshEntry now e) = refreshEntry now e := by
  cases h : e.state <;> simp [refreshEntry, FlowEntry.setState, h]

theorem refreshEntry_inherited (now : Nat) (f : FlowDescriptionAndStats) :
    refreshEntry now (inheritedEntry now f) = inheritedEntry now f := rfl

theorem absorb_eq_upsert (now : Nat) (flows : FlowMap) (f : FlowDescriptionAndStats) :
    absorb now flows f = upsert flows f.cookie (refreshEntry now) (inheritedEntry now f) := by
  unfold absorb upsert
  cases flows[f.cookie]? <;> rfl

theorem absorbWhile_eq (now : Nat) (fits : FlowDescription → Bool)
    (l : List FlowDescriptionAndStats) (flows : FlowMap) (n : UInt32) :
    absorbWhile now fits l flows n =
      (l.dropWhile (fun f => fits f.flowDescription),
        (l.takeWhile (fun f => fits f.flowDescription)).foldl (absorb now) flows,
        n + UInt32.ofNat (l.takeWhile (fun f => fits f.flowDescription)).length) := by
  induction l generalizing flows n with
  | nil => simp [absorbWhile]
  | cons f l ih =>
      by_cases hf : fits f.flowDescription = true
      · rw [absorbWhile, if_pos hf, ih, List.dropWhile_cons, if_pos hf, List.takeWhile_cons, if_pos hf]
        have hn : n + 1 + UInt32.ofNat (l.takeWhile fun f => fits f.flowDescription).length
            = n + UInt32.ofNat ((l.takeWhile fun f => fits f.flowDescription).length + 1) := by
          rw [UInt32.ofNat_add, UInt32.add_assoc, UInt32.add_comm 1]
          rfl
        rw [hn]
        rfl
      · rw [absorbWhile, if_neg hf, List.dropWhile_cons, if_neg hf, List.takeWhile_cons, if_neg hf]
        simp

/-- The flows of a reported list that a table absorbs: those before the first misfit. -/
def taken (t : FlowTable) (l : List FlowDescriptionAndStats) : List FlowDescriptionAndStats :=
  l.takeWhile fun f => t.checkTableFit f.flowDescription

theorem updateEntries_rest (now : Nat) (t : FlowTable) (l : List FlowDescriptionAndStats) :
    (t.updateEntries now l).1 = l.dropWhile fun f => t.checkTableFit f.flowDescription := by
  simp only [updateEntries, absorbWhile_eq]

theorem updateEntries_count (now : Nat) (t : FlowTable) (l : List FlowDescriptionAndStats) :
    (t.updateEntries now l).2.1 = UInt32.ofNat (taken t l).length := by
  simp only [updateEntries, absorbWhile_eq, UInt32.zero_add]
  rfl

theorem sweep_quiet {now : Nat} {e : FlowEntry} (h : e.isUpdated = false) :
    sweepEntry now e = missed now e := by
  unfold sweepEntry missed
  rw [h]
  by_cases hp : e.state = .pendingDeletion
  · simp [hp, buried]
  · simp [hp]

theorem sweep_refreshEntry {now : Nat} {e : FlowEntry} (h : e.isUpdated = false) :
    sweepEntry now (refreshEntry now e) = some (confirmed now e) := by
  obtain ⟨state, _, _, _, _, _, _⟩ := e
  dsimp only at h
  subst h
  cases state <;> rfl

/--
**What a refresh does under a cookie.** The reported flow counts if it stands
before the first misfit of the list, and of several the first.
-/
theorem updateEntries_lookup {t : FlowTable} (ht : TableInv t) (now : Nat)
    (l : List FlowDescriptionAndStats) (c : UInt64) :
    (t.updateEntries now l).2.2.flows[c]? =
      refreshed now ((taken t l).find? (fun f => f.cookie = c)) t.flows[c]? := by
  have hfold : ∀ k, ((taken t l).foldl (absorb now) t.flows)[k]? =
      ((taken t l).find? (fun f => f.cookie = k)).elim t.flows[k]? fun f =>
        some ((t.flows[k]?.map (refreshEntry now)).getD (inheritedEntry now f)) := by
    intro k
    rw [funext fun m => funext fun f => absorb_eq_upsert now m f]
    exact getElem?_foldl_upsert (fun f : FlowDescriptionAndStats => f.cookie) _ _
      (refreshEntry_idem now) (refreshEntry_inherited now) (taken t l) t.flows k
  have hflows : (t.updateEntries now l).2.2.flows =
      ((taken t l).foldl (absorb now) t.flows).filterMap fun _ e => sweepEntry now e := by
    simp only [updateEntries, absorbWhile_eq]
    rfl
  rw [hflows, Std.ExtTreeMap.getElem?_filterMap', hfold]
  unfold refreshed
  cases (taken t l).find? (fun f => f.cookie = c) with
  | none =>
      cases he : t.flows[c]? with
      | none => rfl
      | some e => exact sweep_quiet (ht.quiet he)
  | some f =>
      cases he : t.flows[c]? with
      | none => rfl
      | some e => exact sweep_refreshEntry (ht.quiet he)

/-- Where an entry found after a refresh came from. -/
theorem updateEntries_some {t : FlowTable} (ht : TableInv t) {now : Nat}
    {l : List FlowDescriptionAndStats} {c : UInt64} {e : FlowEntry}
    (he : (t.updateEntries now l).2.2.flows[c]? = some e) :
    (∃ f ∈ taken t l, f.cookie = c ∧
        ((t.flows[c]? = none ∧ e = adopted now f) ∨
          ∃ e₀, t.flows[c]? = some e₀ ∧ e = confirmed now e₀)) ∨
      ((∀ f ∈ taken t l, f.cookie ≠ c) ∧
        ∃ e₀, t.flows[c]? = some e₀ ∧ e₀.state = .pendingDeletion ∧ e = buried now e₀) := by
  rw [updateEntries_lookup ht] at he
  cases hf : (taken t l).find? (fun f => f.cookie = c) with
  | none =>
      rw [hf] at he
      refine Or.inr ⟨by simpa using List.find?_eq_none.mp hf, ?_⟩
      obtain ⟨e₀, h₀, hm⟩ := Option.bind_eq_some_iff.mp he
      unfold missed at hm
      split at hm
      · rename_i hs
        exact ⟨e₀, h₀, hs, (Option.some.inj hm).symm⟩
      · exact absurd hm (by simp)
  | some f =>
      rw [hf] at he
      refine Or.inl ⟨f, List.mem_of_find?_eq_some hf, by simpa using List.find?_some hf, ?_⟩
      cases h₀ : t.flows[c]? with
      | none =>
          rw [h₀] at he
          exact Or.inl ⟨rfl, (Option.some.inj he).symm⟩
      | some e₀ =>
          rw [h₀] at he
          exact Or.inr ⟨e₀, rfl, (Option.some.inj he).symm⟩

theorem tableInv_updateEntries {t : FlowTable} (ht : TableInv t) (now : Nat)
    (l : List FlowDescriptionAndStats) : TableInv (t.updateEntries now l).2.2 where
  keyed {c e} he := by
    rcases updateEntries_some ht he with
      ⟨f, _, hc, ⟨_, rfl⟩ | ⟨e₀, h₀, rfl⟩⟩ | ⟨_, e₀, h₀, _, rfl⟩
    · exact hc
    · rw [confirmed_description]
      exact ht.keyed h₀
    · rw [buried_description]
      exact ht.keyed h₀
  quiet {c e} he := by
    rcases updateEntries_some ht he with
      ⟨f, _, hc, ⟨_, rfl⟩ | ⟨e₀, h₀, rfl⟩⟩ | ⟨_, e₀, h₀, _, rfl⟩
    · rfl
    · rw [confirmed_isUpdated]
      exact ht.quiet h₀
    · exact (buried_isUpdated now e₀).trans (ht.quiet h₀)

/-! ## Looking a description up -/

/-- **`get_cookie_for_flow` finds the largest cookie of an entry with the description.** -/
theorem getCookieForFlow_isGreatest {t : FlowTable} (ht : TableInv t) {flow : FlowDescription}
    (h : ∃ (c : UInt64) (e : FlowEntry),
      t.flows[c]? = some e ∧ (e.description == flow) = true) :
    IsGreatest {c : UInt64 | ∃ e, t.flows[c]? = some e ∧ (e.description == flow) = true}
      (t.getCookieForFlow flow) := by
  have hmem : ∀ c e, (c, e) ∈ t.flows.toList ↔ t.flows[c]? = some e := fun c e =>
    Std.ExtTreeMap.mem_toList_iff_getElem?_eq_some
  have hset : {c : UInt64 | ∃ e, t.flows[c]? = some e ∧ (e.description == flow) = true} =
      {c | ∃ p ∈ t.flows.toList, (p.2.description == flow) = true ∧ p.2.description.cookie = c} := by
    ext c
    refine ⟨?_, ?_⟩
    · intro ⟨e, he, hd⟩
      exact ⟨(c, e), (hmem c e).mpr he, hd, ht.keyed he⟩
    · intro ⟨⟨k, e⟩, hp, hd, hc⟩
      have he := (hmem k e).mp hp
      rw [show k = c from (ht.keyed he).symm.trans hc] at he
      exact ⟨e, he, hd⟩
  rw [hset]
  obtain ⟨c, e, he, hd⟩ := h
  exact foldl_keepLargest (fun p : UInt64 × FlowEntry => p.2.description == flow)
    (fun p => p.2.description.cookie) t.flows.toList noCookie ⟨(c, e), (hmem c e).mpr he, hd⟩

/-- Without such an entry it finds none. -/
theorem getCookieForFlow_of_none {t : FlowTable} {flow : FlowDescription}
    (h : ∀ (c : UInt64) (e : FlowEntry), t.flows[c]? = some e → (e.description == flow) = false) :
    t.getCookieForFlow flow = noCookie := by
  have hnone : ∀ p ∈ t.flows.toList, (p.2.description == flow) = false := fun p hp =>
    h p.1 p.2 (Std.ExtTreeMap.mem_toList_iff_getElem?_eq_some.mp hp)
  exact congrArg Prod.snd (foldl_keepLargest_of_none hnone
    (fun p : UInt64 × FlowEntry => p.2.description.cookie) (false, noCookie))

end IronStack.Proof
