import IronStack.Flow.Service
import IronStack.Lib.FirstFit
import IronStack.Proof.Table

/-!
# What the service's operations do to its tables

The view every proof about `flow_service` takes: the entry under a cookie of the
table with a given index. Handing transactions to the controller never changes
it, so each operation is described by what it does to the entries and, where a
proof needs it, by what it enqueued.
-/

namespace IronStack.Proof

open IronStack Lib FlowTable FlowService

/-- The entry under cookie `c` of the attached table with index `i`. -/
def entryAt (svc : FlowService) (i : Nat) (c : UInt64) : Option FlowEntry :=
  svc.flowTables[i]?.bind fun t => t.flows[c]?

theorem entryAt_eq_some {svc : FlowService} {i : Nat} {c : UInt64} {e : FlowEntry} :
    entryAt svc i c = some e ↔ ∃ t, svc.flowTables[i]? = some t ∧ t.flows[c]? = some e :=
  Option.bind_eq_some_iff

theorem entryAt_of_table {svc : FlowService} {i : Nat} {t : FlowTable}
    (h : svc.flowTables[i]? = some t) (c : UInt64) : entryAt svc i c = t.flows[c]? := by
  rw [entryAt, h]
  rfl

theorem entryAt_congr {svc svc' : FlowService} (h : svc'.flowTables = svc.flowTables) (i : Nat)
    (c : UInt64) : entryAt svc' i c = entryAt svc i c := by
  rw [entryAt, entryAt, h]

/-- The entries of all attached tables, each with its place. -/
def allEntries (svc : FlowService) : List (Nat × UInt64 × FlowEntry) :=
  svc.flowTables.zipIdx.flatMap fun p => p.1.flows.toList.map fun q => (p.2, q.1, q.2)

theorem mem_allEntries {svc : FlowService} {i : Nat} {c : UInt64} {e : FlowEntry} :
    (i, c, e) ∈ allEntries svc ↔ entryAt svc i c = some e := by
  simp only [allEntries, List.mem_flatMap, List.mem_map, Prod.mk.injEq, Prod.exists,
    List.mk_mem_zipIdx_iff_getElem?, Std.ExtTreeMap.mem_toList_iff_getElem?_eq_some,
    entryAt_eq_some]
  refine ⟨?_, ?_⟩
  · intro h
    obtain ⟨t, _, ht, _, _, he, rfl, rfl, rfl⟩ := h
    exact ⟨t, ht, he⟩
  · intro ⟨t, ht, he⟩
    exact ⟨t, i, ht, c, e, he, rfl, rfl, rfl⟩

@[simp] theorem enqueueTransaction_flowTables (svc : FlowService) (tr : FlowTransaction) :
    (svc.enqueueTransaction tr).flowTables = svc.flowTables := rfl

@[simp] theorem setTable_flowTables (svc : FlowService) (i : Nat) (t : FlowTable) :
    (svc.setTable i t).flowTables = svc.flowTables.set i t := rfl

/-- Replacing one table by a table with one entry changed changes that entry. -/
theorem entryAt_setTable {svc : FlowService} {i : Nat} {t t' : FlowTable}
    (h : svc.flowTables[i]? = some t) (j : Nat) (c : UInt64) :
    entryAt (svc.setTable i t') j c = if j = i then t'.flows[c]? else entryAt svc j c := by
  unfold entryAt
  rw [setTable_flowTables, List.getElem?_set]
  by_cases hj : i = j
  · subst hj
    have hlt : i < svc.flowTables.length := (List.getElem?_eq_some_iff.mp h).1
    rw [if_pos rfl, if_pos hlt, if_pos rfl]
    rfl
  · rw [if_neg hj, if_neg (Ne.symm hj)]

/-! ## Changing one entry -/

/-- `svc'` has the entry under `k` of table `i`, if there is one, passed through `f`. -/
def MappedAt (i : Nat) (k : UInt64) (f : FlowEntry → FlowEntry) (svc svc' : FlowService) : Prop :=
  ∀ j c, entryAt svc' j c =
    if j = i ∧ c = k then (entryAt svc j c).map f else entryAt svc j c

theorem MappedAt.of_setTable {svc : FlowService} {i : Nat} {k : UInt64}
    {f : FlowEntry → FlowEntry} {t t' : FlowTable} (ht : svc.flowTables[i]? = some t)
    (h : EntryMapped k f t t') : MappedAt i k f svc (svc.setTable i t') := by
  intro j c
  rw [entryAt_setTable ht]
  by_cases hj : j = i
  · subst hj
    rw [if_pos rfl, h.lookup, entryAt_of_table ht]
    by_cases hc : c = k
    · rw [if_pos hc, if_pos ⟨rfl, hc⟩]
    · rw [if_neg hc, if_neg fun hh => hc hh.2]
  · rw [if_neg hj, if_neg fun hh => hj hh.1]

/-- Where an entry came from when one entry was changed. -/
theorem MappedAt.of_some {svc svc' : FlowService} {i j : Nat} {k c : UInt64}
    {f : FlowEntry → FlowEntry} {e : FlowEntry} (h : MappedAt i k f svc svc')
    (he : entryAt svc' j c = some e) :
    (¬ (j = i ∧ c = k) ∧ entryAt svc j c = some e) ∨
      ((j = i ∧ c = k) ∧ ∃ e₀, entryAt svc j c = some e₀ ∧ e = f e₀) := by
  rw [h] at he
  by_cases hjc : j = i ∧ c = k
  · rw [if_pos hjc] at he
    obtain ⟨e₀, h₀, rfl⟩ := Option.map_eq_some_iff.mp he
    exact Or.inr ⟨hjc, e₀, h₀, rfl⟩
  · rw [if_neg hjc] at he
    exact Or.inl ⟨hjc, he⟩

/-! ## Adding a flow -/

/-- The table `add_flow` stores a new entry in, if it gets that far. -/
def admits (svc : FlowService) (a : AddFlowArgs) : Option Nat :=
  if !svc.initialized then none
  else
    match svc.flowTables.findIdx? (·.checkTableFit a.description) with
    | none => none
    | some index =>
        match svc.flowTables[index]? with
        | none => none
        | some table =>
            if (liveCookie table a.description).isSome then none
            else if table.flows.size ≥ table.maxCapacity.toNat then none
            else some index

/-- What holds when `add_flow` stores an entry in table `index` and sends a flow-mod for it. -/
structure Installs (now : Nat) (svc : FlowService) (a : AddFlowArgs) (index : Nat)
    (result : AddFlowResult) (svc' : FlowService) : Prop where
  online : svc.initialized = true
  /-- The table is the first that accepts the flow. -/
  fits : svc.flowTables.findIdx? (·.checkTableFit a.description) = some index
  /-- The cookie is one a table can hold. -/
  cookie : a.description.cookie ≠ 0 ∧ a.description.cookie ≠ noCookie
  /-- The flow-mod went through its serialization. -/
  serialized : ∃ bytes, assignAndSerialize (addRequest a) 0 = .ok bytes
  /-- The new entry is stored, over whatever was under the cookie. -/
  lookup : ∀ j c, entryAt svc' j c =
    if j = index ∧ c = a.description.cookie then some (newEntry now a) else entryAt svc j c
  /-- One flow-mod is sent, and no table hears of its completion. -/
  sent : ∃ tr, svc'.enqueued = svc.enqueued ++ [tr] ∧ tr.request = .flowMod (addRequest a) ∧
    ∀ i, tr.callback ≠ some (.table i)
  /-- The call waits on that flow-mod, or returns the cookie. -/
  result : result = .waiting svc.enqueued.length index a.description.cookie ∨
    result = .returned a.description.cookie
  /-- The cookie counter is not touched. -/
  counter : svc'.nextAvailableCookieId = svc.nextAvailableCookieId
  pending : svc'.pendingFlows = svc.pendingFlows

/-- A flow-mod that is sent was serialized, leaves the tables alone, and may be waited for. -/
theorem sendAddRequest_spec {svc svc' : FlowService} {index : Nat} {a : AddFlowArgs}
    {result : AddFlowResult} (h : svc.sendAddRequest index a = some (result, svc')) :
    (∃ bytes, assignAndSerialize (addRequest a) 0 = .ok bytes) ∧
      svc'.flowTables = svc.flowTables ∧
      (∃ tr, svc'.enqueued = svc.enqueued ++ [tr] ∧
        tr.request = .flowMod (addRequest a) ∧ ∀ i, tr.callback ≠ some (.table i)) ∧
      (result = .waiting svc.enqueued.length index a.description.cookie ∨
        result = .returned a.description.cookie) ∧
      svc'.nextAvailableCookieId = svc.nextAvailableCookieId ∧
      svc'.pendingFlows = svc.pendingFlows := by
  unfold sendAddRequest at h
  split at h
  · exact absurd h (by simp)
  · rename_i bytes hbytes
    refine ⟨⟨bytes, hbytes⟩, ?_⟩
    split at h <;> rw [Option.some.injEq, Prod.mk.injEq] at h <;> obtain ⟨rfl, rfl⟩ := h
    · exact ⟨rfl, ⟨_, rfl, rfl, by simp [HalTransaction.acknowledged]⟩, Or.inl rfl, rfl, rfl⟩
    · exact ⟨rfl, ⟨_, rfl, rfl, by simp [HalTransaction.unacknowledged]⟩, Or.inr rfl, rfl, rfl⟩

/-- Only a flow-mod that cannot be serialized is not sent. -/
theorem sendAddRequest_eq_none {svc : FlowService} {index : Nat} {a : AddFlowArgs}
    (h : svc.sendAddRequest index a = none) :
    ∀ bytes, assignAndSerialize (addRequest a) 0 ≠ .ok bytes := by
  unfold sendAddRequest at h
  intro bytes hbytes
  rw [hbytes] at h
  dsimp only at h
  split at h <;> exact absurd h (by simp)

/-- Storing the new entry and sending the flow-mod for it. -/
theorem installs_of_insert {now : Nat} {svc svc' : FlowService} {a : AddFlowArgs}
    {result : AddFlowResult} {index : Nat} {table : FlowTable} (hon : svc.initialized = true)
    (hfit : svc.flowTables.findIdx? (·.checkTableFit a.description) = some index)
    (ht : svc.flowTables[index]? = some table) (hc0 : a.description.cookie ≠ 0)
    (hc1 : a.description.cookie ≠ noCookie)
    (h : (svc.setTable index { table with
      flows := table.flows.insert a.description.cookie (newEntry now a) }).sendAddRequest index a
        = some (result, svc')) : Installs now svc a index result svc' := by
  obtain ⟨hserialized, htab, hsent, hresult, hcounter, hpending⟩ := sendAddRequest_spec h
  refine ⟨hon, hfit, ⟨hc0, hc1⟩, hserialized, ?_, hsent, hresult, hcounter, hpending⟩
  intro j c
  rw [entryAt_congr htab, entryAt_setTable ht]
  dsimp only
  rw [getElem?_insert]
  by_cases hj : j = index
  · subst hj
    rw [if_pos rfl, entryAt_of_table ht]
    by_cases hc : c = a.description.cookie
    · rw [if_pos hc.symm, if_pos ⟨rfl, hc⟩]
    · rw [if_neg fun h => hc h.symm, if_neg fun hh => hc hh.2]
  · rw [if_neg hj, if_neg fun hh => hj hh.1]

/-- How the first half of `add_flow` can go: nothing happens, or an entry is installed. -/
theorem addFlow_cases {now : Nat} {svc svc' : FlowService} {a : AddFlowArgs}
    {result : AddFlowResult} (h : svc.addFlow now a = some (result, svc')) :
    (admits svc a = none ∧ svc' = svc ∧ ∃ c, result = .returned c) ∨
      ∃ index, admits svc a = some index ∧ Installs now svc a index result svc' := by
  unfold addFlow at h
  unfold admits
  cases hon : svc.initialized with
  | false =>
      -- an offline service returns 0
      simp only [hon, Bool.not_false, if_true, Option.some.injEq, Prod.mk.injEq] at h ⊢
      exact Or.inl ⟨trivial, h.2.symm, _, h.1.symm⟩
  | true =>
      simp only [hon, Bool.not_true, Bool.false_eq_true, if_false] at h ⊢
      cases hfit : svc.flowTables.findIdx? (·.checkTableFit a.description) with
      | none =>
          -- no table accepts the flow
          simp only [hfit, Option.some.injEq, Prod.mk.injEq] at h
          exact Or.inl ⟨rfl, h.2.symm, _, h.1.symm⟩
      | some index =>
          dsimp only
          simp only [hfit] at h
          cases ht : svc.flowTables[index]? with
          | none => simp [ht] at h
          | some table =>
              simp only [ht] at h ⊢
              cases hlive : liveCookie table a.description with
              | some cookie =>
                  -- the flow is already alive and well
                  simp only [hlive, Option.some.injEq, Prod.mk.injEq] at h
                  exact Or.inl ⟨rfl, h.2.symm, _, h.1.symm⟩
              | none =>
                  simp only [hlive] at h
                  cases hadd : table.addEntry (newEntry now a) with
                  | none => simp [hadd] at h
                  | some r =>
                      obtain ⟨added, table'⟩ := r
                      obtain ⟨hc0, hc1, ⟨rfl, _, hfull⟩ | ⟨rfl, hroom, rfl⟩⟩ := addEntry_cases hadd
                      · simp only [hadd, Option.some.injEq, Prod.mk.injEq] at h
                        exact Or.inl ⟨by simp [hfull], h.2.symm, _, h.1.symm⟩
                      · simp only [hadd] at h
                        exact Or.inr ⟨index, by simp [Nat.not_le.mpr hroom],
                          installs_of_insert hon hfit ht hc0 hc1 h⟩

theorem addFlow_counter {now : Nat} {svc svc' : FlowService} {a : AddFlowArgs}
    {result : AddFlowResult} (h : svc.addFlow now a = some (result, svc')) :
    svc'.nextAvailableCookieId = svc.nextAvailableCookieId := by
  rcases addFlow_cases h with ⟨_, rfl, _⟩ | ⟨_, _, hinst⟩
  · rfl
  · exact hinst.counter

/-- A reserved cookie makes `add_flow` abort, and so does a flow-mod that cannot be serialized. -/
theorem addFlow_aborts {now : Nat} {svc : FlowService} {a : AddFlowArgs}
    (h : svc.addFlow now a = none) :
    (a.description.cookie = 0 ∨ a.description.cookie = noCookie) ∨
      (∃ index, admits svc a = some index) ∧
        ∀ bytes, assignAndSerialize (addRequest a) 0 ≠ .ok bytes := by
  unfold addFlow at h
  unfold admits
  cases hon : svc.initialized with
  | false => simp [hon] at h
  | true =>
      simp only [hon, Bool.not_true, Bool.false_eq_true, if_false] at h ⊢
      cases hfit : svc.flowTables.findIdx? (·.checkTableFit a.description) with
      | none => simp [hfit] at h
      | some index =>
          have hlt : index < svc.flowTables.length :=
            (List.findIdx?_eq_some_iff_getElem.mp hfit).1
          have ht := List.getElem?_eq_getElem hlt
          dsimp only
          simp only [hfit, ht] at h ⊢
          cases hlive : liveCookie svc.flowTables[index] a.description with
          | some cookie => simp [hlive] at h
          | none =>
              simp only [hlive] at h
              cases hadd : svc.flowTables[index].addEntry (newEntry now a) with
              | none =>
                  unfold addEntry at hadd
                  split at hadd
                  · rename_i hc
                    exact Or.inl hc
                  · split at hadd <;> exact absurd hadd (by simp)
              | some r =>
                  obtain ⟨added, table'⟩ := r
                  obtain ⟨_, _, ⟨rfl, _, _⟩ | ⟨rfl, hroom, rfl⟩⟩ := addEntry_cases hadd
                  · simp [hadd] at h
                  · simp only [hadd] at h
                    exact Or.inr ⟨⟨index, by simp [Nat.not_le.mpr hroom]⟩, sendAddRequest_eq_none h⟩

/-- The end of a waiting `add_flow` does to its entry what a completion without reply does. -/
theorem addFlowFinish_mapped {now : Nat} {svc svc' : FlowService} {request : FlowRequest}
    {index : Nat} {status : Bool} (h : svc.addFlowFinish now request index status = some svc') :
    ∃ msg, request = .flowMod msg ∧ svc'.enqueued = svc.enqueued ∧
      MappedAt index msg.flowDescription.cookie (completionEffect now msg.command none)
        svc svc' := by
  unfold addFlowFinish at h
  cases ht : svc.flowTables[index]? with
  | none => simp [ht] at h
  | some table =>
      simp only [ht] at h
      obtain ⟨t', ht', rfl⟩ := Option.map_eq_some_iff.mp h
      obtain ⟨msg, hmsg, hmap⟩ := halCallback_mapped ht'
      exact ⟨msg, hmsg, rfl, .of_setTable ht hmap⟩

/-! ## Removing a flow -/

/-- The search of `remove_flow` ends at the first table with an entry that is not deleted. -/
theorem markForRemoval_cases {now : Nat} {cookieId : UInt64} {tables : List FlowTable} {index : Nat}
    {e : FlowEntry} {t' : FlowTable} (h : markForRemoval now cookieId tables = some (index, e, t')) :
    ∃ t, tables[index]? = some t ∧ t.flows[cookieId]? = some e ∧ e.state ≠ .deleted ∧
      EntryMapped cookieId (condemned now) t t' ∧
      ∀ j, j < index → ∀ t₀, tables[j]? = some t₀ → ∀ e₀, t₀.flows[cookieId]? = some e₀ →
        e₀.state = .deleted := by
  induction tables generalizing index with
  | nil => exact absurd h (by simp [markForRemoval])
  | cons t ts ih =>
      have hmark := markEntryAsPendingDeletion_eq_true now t cookieId
      have hmapped := markEntryAsPendingDeletion_mapped now t cookieId
      unfold markForRemoval at h
      split at h
      · rename_i e' t'' he' hm
        simp only [Option.some.injEq, Prod.mk.injEq] at h
        obtain ⟨rfl, rfl, rfl⟩ := h
        rw [hm] at hmark hmapped
        obtain ⟨e₁, he₁, hne⟩ := hmark.mp rfl
        rw [show t.flows[cookieId]? = some e' from he'] at he₁
        obtain rfl := Option.some.inj he₁
        exact ⟨t, rfl, he', hne, hmapped, fun j hj => absurd hj (Nat.not_lt_zero j)⟩
      · rename_i hno
        obtain ⟨⟨index', e', t''⟩, hr, heq⟩ := Option.map_eq_some_iff.mp h
        simp only [Prod.mk.injEq] at heq
        obtain ⟨rfl, rfl, rfl⟩ := heq
        obtain ⟨t₁, ht₁, he₁, hne, hmap, hbefore⟩ := ih hr
        refine ⟨t₁, ht₁, he₁, hne, hmap, ?_⟩
        intro j hj t₀ ht₀ e₀ he₀
        cases j with
        | zero =>
            -- the table was passed over, so the mark failed
            obtain rfl := Option.some.inj ht₀
            by_contra hlive
            have hm := hmark.mpr ⟨e₀, he₀, hlive⟩
            exact hno e₀ _ he₀ (Prod.ext hm rfl)
        | succ j => exact hbefore j (Nat.lt_of_succ_lt_succ hj) t₀ ht₀ e₀ he₀

theorem markForRemoval_none {now : Nat} {cookieId : UInt64} {tables : List FlowTable}
    (h : markForRemoval now cookieId tables = none) :
    ∀ t ∈ tables, ∀ e, t.flows[cookieId]? = some e → e.state = .deleted := by
  induction tables with
  | nil => simp
  | cons t ts ih =>
      have hmark := markEntryAsPendingDeletion_eq_true now t cookieId
      unfold markForRemoval at h
      split at h
      · exact absurd h (by simp)
      · rename_i hno
        intro t₀ ht₀ e he
        rcases List.mem_cons.mp ht₀ with rfl | ht₀
        · by_contra hlive
          exact hno e _ he (Prod.ext (hmark.mpr ⟨e, he, hlive⟩) rfl)
        · exact ih (Option.map_eq_none_iff.mp h) t₀ ht₀ e he

/-- What holds when `remove_flow` marks the entry `e` of table `index` and deletes its flow. -/
structure Removes (now : Nat) (svc : FlowService) (cookieId : UInt64) (index : Nat) (e : FlowEntry)
    (svc' : FlowService) : Prop where
  online : svc.initialized = true
  found : entryAt svc index cookieId = some e
  notDeleted : e.state ≠ .deleted
  /-- Whatever earlier tables have under the cookie is deleted already. -/
  first : ∀ j, j < index → ∀ e₀, entryAt svc j cookieId = some e₀ → e₀.state = .deleted
  mapped : MappedAt index cookieId (condemned now) svc svc'
  sent : svc'.enqueued = svc.enqueued ++
    [.acknowledged (.flowMod (deleteStrictRequest e.description)) (.table index)]

/-- How `remove_flow` can go: nothing happens, or a strict delete is sent. -/
theorem removeFlow_cases (now : Nat) (svc : FlowService) (cookieId : UInt64) :
    ((svc.removeFlow now cookieId).2 = svc ∧ (svc.initialized = true →
        ∀ i e, entryAt svc i cookieId = some e → e.state = .deleted)) ∨
      ∃ index e, Removes now svc cookieId index e (svc.removeFlow now cookieId).2 := by
  unfold removeFlow
  by_cases hon : svc.initialized = true
  · simp only [hon, Bool.not_true, Bool.false_eq_true, if_false]
    cases hr : markForRemoval now cookieId svc.flowTables with
    | none =>
        refine Or.inl ⟨rfl, fun _ i e he => ?_⟩
        obtain ⟨t, ht, he⟩ := entryAt_eq_some.mp he
        exact markForRemoval_none hr t (List.mem_of_getElem? ht) e he
    | some r =>
        obtain ⟨index, e, t'⟩ := r
        obtain ⟨t, ht, he, hne, hmap, hbefore⟩ := markForRemoval_cases hr
        refine Or.inr ⟨index, e, hon, entryAt_eq_some.mpr ⟨t, ht, he⟩, hne, ?_, ?_, rfl⟩
        · intro j hj e₀ he₀
          obtain ⟨t₀, ht₀, he₀⟩ := entryAt_eq_some.mp he₀
          exact hbefore j hj t₀ ht₀ e₀ he₀
        · exact MappedAt.of_setTable ht hmap
  · have hoff : svc.initialized = false := by simpa using hon
    simp [hoff]

/-! ## Clearing -/

@[simp] theorem sendLastClear_flowTables (svc : FlowService) (timeoutMs : Int32)
    (request : ModifyFlow) :
    (svc.sendLastClear timeoutMs request).2.flowTables = svc.flowTables := by
  unfold sendLastClear
  split <;> rfl

theorem sendLastClear_waiting (svc : FlowService) {timeoutMs : Int32} (request : ModifyFlow)
    (h : timeoutMs ≠ 0) :
    (svc.sendLastClear timeoutMs request).1 = .waiting svc.enqueued.length := by
  rw [sendLastClear, if_pos h]

theorem sendLastClear_returned (svc : FlowService) {timeoutMs : Int32} (request : ModifyFlow)
    (h : timeoutMs = 0) : (svc.sendLastClear timeoutMs request).1 = .returned true := by
  rw [sendLastClear, if_neg (not_not.mpr h)]

theorem foldl_enqueue_flowTables (l : List FlowEntry) (f : FlowEntry → FlowTransaction)
    (svc : FlowService) :
    (l.foldl (fun svc e => svc.enqueueTransaction (f e)) svc).flowTables = svc.flowTables := by
  induction l generalizing svc with
  | nil => rfl
  | cons e l ih => rw [List.foldl_cons, ih, enqueueTransaction_flowTables]

theorem markAllTables_entryAt (now : Nat) (svc : FlowService) (includeStatic : Bool) (i : Nat)
    (c : UInt64) :
    entryAt (svc.markAllTables now includeStatic).2 i c =
      (entryAt svc i c).map (slated now includeStatic) := by
  rw [markAllTables]
  unfold entryAt
  dsimp only
  rw [List.getElem?_map]
  cases svc.flowTables[i]? with
  | none => rfl
  | some t => exact markAll_lookup now t includeStatic c

/-- The flows `clear_all_flows` collects are those `mark_all_flows_as_pending_delete` slates. -/
theorem mem_markAllTables {now : Nat} {svc : FlowService} {includeStatic : Bool} {e : FlowEntry} :
    e ∈ (svc.markAllTables now includeStatic).1 ↔
      ∃ i c e₀, entryAt svc i c = some e₀ ∧ slatedForDeletion includeStatic e₀ = true ∧
        e = e₀.setState now .pendingDeletion := by
  simp only [markAllTables, List.mem_flatMap, mem_markAll, entryAt_eq_some]
  refine ⟨?_, ?_⟩
  · intro h
    obtain ⟨t, ht, c, e₀, he₀, hs, rfl⟩ := h
    obtain ⟨i, hi⟩ := List.mem_iff_getElem?.mp ht
    exact ⟨i, c, e₀, ⟨t, hi, he₀⟩, hs, rfl⟩
  · intro h
    obtain ⟨i, c, e₀, ⟨t, hi, he₀⟩, hs, rfl⟩ := h
    exact ⟨t, List.mem_of_getElem? hi, c, e₀, he₀, hs, rfl⟩

theorem clearAllFlowsFinish_entryAt (svc : FlowService) (status : Bool) (i : Nat) (c : UInt64) :
    entryAt (svc.clearAllFlowsFinish status) i c = if status then none else entryAt svc i c := by
  cases status with
  | false => rfl
  | true =>
      unfold entryAt clearAllFlowsFinish
      simp only [if_true, List.getElem?_map]
      cases svc.flowTables[i]? with
      | none => rfl
      | some t =>
          rw [Option.map_some, Option.bind_some, clearTable_lookup]
          rfl

/-! ## Refreshing -/

/-- What each attached table accepts, as a test on reported flows. -/
def acceptors (tables : List FlowTable) : List (FlowDescriptionAndStats → Bool) :=
  tables.map fun t f => t.checkTableFit f.flowDescription

/--
Offering the reported list to one table after the other drains it: table `i`
refreshes with a list of which it takes what `drain` gives it.
-/
theorem updateTables_table (now : Nat) {tables : List FlowTable} {l : List FlowDescriptionAndStats}
    {i : Nat} {t : FlowTable} (ht : tables[i]? = some t) :
    ∃ offered, (drain (acceptors tables) l).1[i]? = some (taken t offered) ∧
      (updateTables now tables l).2.1[i]? = some (t.updateEntries now offered).2.2 := by
  induction tables generalizing l i with
  | nil => exact absurd ht (by simp)
  | cons t₀ ts ih =>
      cases i with
      | zero =>
          obtain rfl := Option.some.inj ht
          exact ⟨l, rfl, rfl⟩
      | succ i =>
          obtain ⟨offered, hd, hu⟩ := ih (l := (t₀.updateEntries now l).1) ht
          refine ⟨offered, ?_, hu⟩
          rw [updateEntries_rest] at hd
          exact hd

theorem updateTables_length (now : Nat) (tables : List FlowTable)
    (l : List FlowDescriptionAndStats) :
    (updateTables now tables l).2.1.length = tables.length := by
  induction tables generalizing l with
  | nil => rfl
  | cons t ts ih => exact congrArg (· + 1) (ih _)

theorem updateTables_rest (now : Nat) (tables : List FlowTable)
    (l : List FlowDescriptionAndStats) :
    (updateTables now tables l).1 = (drain (acceptors tables) l).2 := by
  induction tables generalizing l with
  | nil => rfl
  | cons t ts ih =>
      have h := ih (t.updateEntries now l).1
      rw [updateEntries_rest] at h
      rw [updateTables]
      dsimp only
      rw [updateEntries_rest, h]
      rfl

/-- The count is that of the flows taken, in 32 bits. -/
theorem updateTables_count (now : Nat) (tables : List FlowTable)
    (l : List FlowDescriptionAndStats) :
    (updateTables now tables l).2.2 =
      UInt32.ofNat (drain (acceptors tables) l).1.flatten.length := by
  induction tables generalizing l with
  | nil => rfl
  | cons t ts ih =>
      have h := ih (t.updateEntries now l).1
      rw [updateEntries_rest] at h
      rw [updateTables]
      dsimp only
      rw [updateEntries_count, updateEntries_rest, h, ← UInt32.ofNat_add]
      exact congrArg UInt32.ofNat (List.length_append ..).symm

/-- The counter after the last part of a reply: set by the first download, untouched afterwards. -/
def counterAfter (svc : FlowService) (reported : List FlowDescriptionAndStats) : UInt64 :=
  if !svc.initialized && svc.initializing then nextFreeId reported else svc.nextAvailableCookieId

/-- The last part of a reply: the tables are offered all that is pending, or the handler aborts. -/
theorem flowUpdateHandler_last (now : Nat) (svc : FlowService)
    (flowStats : List FlowDescriptionAndStats) :
    svc.flowUpdateHandler now flowStats false =
      if (updateTables now svc.flowTables (svc.pendingFlows ++ flowStats)).2.2 ≠
          UInt32.ofNat (svc.pendingFlows ++ flowStats).length then none
      else some { svc with
        nextAvailableCookieId := counterAfter svc (svc.pendingFlows ++ flowStats)
        flowTables := (updateTables now svc.flowTables (svc.pendingFlows ++ flowStats)).2.1
        pendingFlows := [] } := by
  unfold flowUpdateHandler counterAfter
  dsimp only
  rw [if_neg (by simp)]
  cases hstarting : !svc.initialized && svc.initializing with
  | true => rfl
  | false => rfl

/-- How `flow_update_handler` can go for a statistics reply. -/
theorem flowUpdateHandler_cases {now : Nat} {svc svc' : FlowService}
    {flowStats : List FlowDescriptionAndStats} {moreToFollow : Bool}
    (h : svc.flowUpdateHandler now flowStats moreToFollow = some svc') :
    (moreToFollow = true ∧ svc' = { svc with pendingFlows := svc.pendingFlows ++ flowStats }) ∨
      (moreToFollow = false ∧ svc'.enqueued = svc.enqueued ∧
        svc'.initialized = svc.initialized ∧ svc'.pendingFlows = [] ∧
        svc'.flowTables = (updateTables now svc.flowTables (svc.pendingFlows ++ flowStats)).2.1 ∧
        (updateTables now svc.flowTables (svc.pendingFlows ++ flowStats)).2.2 =
          UInt32.ofNat (svc.pendingFlows ++ flowStats).length) := by
  cases moreToFollow with
  | true => exact Or.inl ⟨rfl, (Option.some.inj h).symm⟩
  | false =>
      rw [flowUpdateHandler_last] at h
      split at h
      · exact absurd h (by simp)
      · rename_i hcount
        obtain rfl := Option.some.inj h
        exact Or.inr ⟨rfl, rfl, rfl, rfl, rfl, not_not.mp hcount⟩

/-- Where an entry came from when all tables were refreshed. -/
theorem flowUpdateHandler_some {now : Nat} {svc svc' : FlowService}
    {flowStats : List FlowDescriptionAndStats}
    (hinv : ∀ t ∈ svc.flowTables, TableInv t)
    (h : svc.flowUpdateHandler now flowStats false = some svc') {i : Nat} {c : UInt64}
    {e : FlowEntry} (he : entryAt svc' i c = some e) :
    (∃ f ∈ svc.pendingFlows ++ flowStats, f.cookie = c ∧
        (e = adopted now f ∨ ∃ e₀, entryAt svc i c = some e₀ ∧ e = confirmed now e₀)) ∨
      ∃ e₀, entryAt svc i c = some e₀ ∧ e₀.state = .pendingDeletion ∧ e = buried now e₀ := by
  rcases flowUpdateHandler_cases h with ⟨hmore, _⟩ | ⟨_, _, _, _, htables, _⟩
  · exact absurd hmore (by simp)
  · obtain ⟨t', ht', he⟩ := entryAt_eq_some.mp he
    rw [htables] at ht'
    have hi : i < svc.flowTables.length := by
      rw [← updateTables_length now svc.flowTables (svc.pendingFlows ++ flowStats)]
      exact (List.getElem?_eq_some_iff.mp ht').1
    have ht := List.getElem?_eq_getElem hi
    obtain ⟨offered, hdrain, hu⟩ := updateTables_table now
      (l := svc.pendingFlows ++ flowStats) ht
    rw [hu] at ht'
    obtain rfl := Option.some.inj ht'
    rcases updateEntries_some (hinv _ (List.getElem_mem hi)) he with
      ⟨f, hf, hc, ⟨_, rfl⟩ | ⟨e₀, h₀, rfl⟩⟩ | ⟨_, e₀, h₀, hs, rfl⟩
    · exact Or.inl ⟨f, mem_of_taken hdrain hf, hc, Or.inl rfl⟩
    · exact Or.inl ⟨f, mem_of_taken hdrain hf, hc, Or.inr ⟨e₀, entryAt_eq_some.mpr ⟨_, ht, h₀⟩, rfl⟩⟩
    · exact Or.inr ⟨e₀, entryAt_eq_some.mpr ⟨_, ht, h₀⟩, hs, rfl⟩

theorem flowRemovedHandler_entryAt (now : Nat) (svc : FlowService) (cookie : UInt64) (i : Nat)
    (c : UInt64) :
    entryAt (svc.flowRemovedHandler now cookie) i c =
      if c = cookie then (entryAt svc i c).map (buried now) else entryAt svc i c := by
  unfold entryAt flowRemovedHandler
  dsimp only
  rw [List.getElem?_map]
  cases svc.flowTables[i]? with
  | none => simp
  | some t =>
      rw [Option.map_some, Option.bind_some, Option.bind_some]
      have hmap := (markEntryAsDeleted_mapped now t cookie).lookup c
      by_cases hused : t.isCookieUsed cookie = true
      · rw [if_pos hused, hmap]
      · rw [if_neg hused]
        by_cases hc : c = cookie
        · have hnone : t.flows[c]? = none := by
            rw [hc]
            exact Std.ExtTreeMap.getElem?_eq_none_of_contains_eq_false
              (by rwa [isCookieUsed, Bool.not_eq_true] at hused)
          rw [if_pos hc, hnone]
          rfl
        · rw [if_neg hc]

/-! ## The service invariant -/

/-- All attached tables are as `TableInv` says. -/
def ServiceInv (svc : FlowService) : Prop := ∀ t ∈ svc.flowTables, TableInv t

theorem ServiceInv.keyed {svc : FlowService} (h : ServiceInv svc) {i : Nat} {c : UInt64}
    {e : FlowEntry} (he : entryAt svc i c = some e) : e.description.cookie = c := by
  obtain ⟨t, ht, he⟩ := entryAt_eq_some.mp he
  exact (h t (List.mem_of_getElem? ht)).keyed he

/--
The invariant holds if every entry either was there before, with the same
description and mark, or is new, under its own cookie and unmarked.
-/
theorem serviceInv_of_origin {svc svc' : FlowService} (h : ServiceInv svc)
    (horigin : ∀ i c e, entryAt svc' i c = some e →
      (∃ e₀, entryAt svc i c = some e₀ ∧ e.description = e₀.description ∧
        e.isUpdated = e₀.isUpdated) ∨
      (e.description.cookie = c ∧ e.isUpdated = false)) : ServiceInv svc' := by
  intro t ht
  obtain ⟨i, hi⟩ := List.mem_iff_getElem?.mp ht
  refine ⟨?_, ?_⟩
  · intro c e he
    rcases horigin i c e (entryAt_eq_some.mpr ⟨t, hi, he⟩) with ⟨e₀, h₀, hd, _⟩ | ⟨hc, _⟩
    · rw [hd]
      exact h.keyed h₀
    · exact hc
  · intro c e he
    rcases horigin i c e (entryAt_eq_some.mpr ⟨t, hi, he⟩) with ⟨e₀, h₀, _, hu⟩ | ⟨_, hu⟩
    · rw [hu]
      obtain ⟨t₀, ht₀, h₀⟩ := entryAt_eq_some.mp h₀
      exact (h t₀ (List.mem_of_getElem? ht₀)).quiet h₀
    · exact hu

theorem ServiceInv.congr {svc svc' : FlowService} (h : ServiceInv svc)
    (heq : svc'.flowTables = svc.flowTables) : ServiceInv svc' := by
  unfold ServiceInv
  rw [heq]
  exact h

end IronStack.Proof
