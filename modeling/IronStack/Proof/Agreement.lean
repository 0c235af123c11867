import IronStack.Proof.FlowMod
import IronStack.Proof.Idempotent

/-!
# Table and switch after an add

`add_flow` fills in the table entry and the flow-mod separately, from the same
arguments, and has several early exits before either. A caller that gets through
should find the two in agreement, and one that is turned away should find
nothing changed and be told so.

Two exits say something else. An offline service returns `false`, which as a
cookie is 0 and not the failure value; and the flow-mod carries the timeouts the
caller passed, where the entry of a static flow has zeros. An entry may also
take the place of another one under the same cookie. And the flow-mod is
serialized only after the entry is stored, which for a vendor action aborts.
-/

namespace IronStack.Proof

open IronStack Lib FlowTable FlowService FlowWorld

/-- The cookie `add_flow` returns, at once or when its wait is over. -/
def returnedCookie : AddFlowResult → UInt64
  | .returned cookie => cookie
  | .waiting _ _ cookie => cookie

/-- The failure value is returned, and nothing happened. -/
structure Refused (svc : FlowService) (result : AddFlowResult) (svc' : FlowService) : Prop where
  failure : returnedCookie result = noCookie
  tables : svc'.flowTables = svc.flowTables
  silent : svc'.enqueued = svc.enqueued

/-- The cookie of an equal entry that is alive is returned, and nothing was sent. -/
structure Known (svc : FlowService) (description : FlowDescription) (result : AddFlowResult)
    (svc' : FlowService) : Prop where
  live : ∃ t ∈ svc.flowTables, ∃ e, Lives t description (returnedCookie result) e
  silent : svc'.enqueued = svc.enqueued

/-- The flow-mod says of the flow what its entry says. -/
structure Mirrors (msg : ModifyFlow) (e : FlowEntry) : Prop where
  /-- Criteria, actions, cookie and priority. -/
  description : msg.flowDescription = e.description
  idleTimeout : msg.idleTimeout.toUInt32 = e.idleTimeout
  hardTimeout : msg.hardTimeout.toUInt32 = e.hardTimeout

/-- One entry is added, and one flow-mod is sent that mirrors it. -/
structure Added (svc : FlowService) (a : AddFlowArgs) (svc' : FlowService) (index : Nat)
    (e : FlowEntry) : Prop where
  description : e.description = a.description
  static : a.isStatic = true → e.idleTimeout = 0 ∧ e.hardTimeout = 0
  /-- Nothing was under the cookie before. -/
  vacant : entryAt svc index a.description.cookie = none
  lookup : ∀ j c, entryAt svc' j c =
    if j = index ∧ c = a.description.cookie then some e else entryAt svc j c
  sent : ∃ tr msg, svc'.enqueued = svc.enqueued ++ [tr] ∧ tr.request = .flowMod msg ∧ Mirrors msg e

/-- The three ways an add is supposed to end. -/
def AddAgrees (svc : FlowService) (a : AddFlowArgs) (result : AddFlowResult)
    (svc' : FlowService) : Prop :=
  Refused svc result svc' ∨ Known svc a.description result svc' ∨ ∃ index e, Added svc a svc' index e

/--
What it takes: a flow that is stored in a table finds its cookie unused there, if it is
static comes without timeouts, and has actions a flow-mod can be written with; and an
offline service has a living entry for the flow under cookie 0, which it always returns.
-/
def AddGuard (svc : FlowService) (a : AddFlowArgs) : Prop :=
  if svc.initialized then
    ∀ index, admits svc a = some index →
      entryAt svc index a.description.cookie = none ∧
        (a.isStatic = true → a.idleTimeout = 0 ∧ a.hardTimeout = 0) ∧
        Serializable a.description.actionList
  else ∃ t ∈ svc.flowTables, ∃ e, Lives t a.description 0 e

section AddFlow

variable {now : Nat} {svc svc' : FlowService} {a : AddFlowArgs} {result : AddFlowResult}
  {index : Nat} {t : FlowTable}

/-! ## An add that changes nothing -/

theorem addFlow_of_unfit (hon : svc.initialized = true)
    (hfit : svc.flowTables.findIdx? (·.checkTableFit a.description) = none) :
    svc.addFlow now a = some (.returned noCookie, svc) := by
  unfold addFlow
  simp only [hon, hfit, Bool.not_true, Bool.false_eq_true, if_false]

/-- What the lookup of `add_flow` returns is the cookie of a living entry. -/
theorem lives_of_liveCookie {d : FlowDescription} {k : UInt64} (ht : TableInv t)
    (h : liveCookie t d = some k) : ∃ e, Lives t d k e := by
  by_cases hex : ∃ (c : UInt64) (e : FlowEntry), t.flows[c]? = some e ∧ (e.description == d) = true
  · obtain ⟨⟨e, he, hd⟩, _⟩ := getCookieForFlow_isGreatest ht hex
    by_cases hne : t.getCookieForFlow d = noCookie
    · rw [liveCookie_of_noCookie hne] at h
      exact absurd h (by simp)
    · rw [liveCookie_of_newest rfl he hne] at h
      by_cases hs : e.state.isStanding = true
      · rw [if_pos hs, Option.some.injEq] at h
        subst h
        exact ⟨e, ⟨he, hd⟩, hs⟩
      · rw [if_neg hs] at h
        exact absurd h (by simp)
  · have hnone : t.getCookieForFlow d = noCookie := by
      refine getCookieForFlow_of_none ?_
      intro c e he
      by_contra hd
      exact hex ⟨c, e, he, by simpa using hd⟩
    rw [liveCookie_of_noCookie hnone] at h
    exact absurd h (by simp)

/-- Online, an add that stores nothing is refused or finds the flow known. -/
theorem agrees_of_not_admitted (hinv : ServiceInv svc) (hon : svc.initialized = true)
    (hc : a.description.cookie ≠ 0 ∧ a.description.cookie ≠ noCookie)
    (hnone : admits svc a = none) (h : svc.addFlow now a = some (result, svc')) :
    AddAgrees svc a result svc' := by
  cases hfit : svc.flowTables.findIdx? (·.checkTableFit a.description) with
  | none =>
      rw [addFlow_of_unfit hon hfit, Option.some.injEq, Prod.mk.injEq] at h
      obtain ⟨rfl, rfl⟩ := h
      exact Or.inl ⟨rfl, rfl, rfl⟩
  | some index =>
      have hlt : index < svc.flowTables.length := (List.findIdx?_eq_some_iff_getElem.mp hfit).1
      have ht := List.getElem?_eq_getElem hlt
      have htinv : TableInv svc.flowTables[index] := hinv _ (List.getElem_mem hlt)
      cases hlive : liveCookie svc.flowTables[index] a.description with
      | some k =>
          rw [addFlow_of_live hon hfit ht hlive, Option.some.injEq, Prod.mk.injEq] at h
          obtain ⟨rfl, rfl⟩ := h
          obtain ⟨e, he⟩ := lives_of_liveCookie htinv hlive
          exact Or.inr (Or.inl ⟨⟨_, List.getElem_mem hlt, e, he⟩, rfl⟩)
      | none =>
          by_cases hfull : svc.flowTables[index].maxCapacity.toNat ≤ svc.flowTables[index].flows.size
          · rw [addFlow_of_full hon hfit ht hlive hc hfull, Option.some.injEq, Prod.mk.injEq] at h
            obtain ⟨rfl, rfl⟩ := h
            exact Or.inl ⟨rfl, rfl, rfl⟩
          · rw [admits_of_dead hon hfit ht hlive hfull] at hnone
            exact absurd hnone (by simp)

/-- Offline, `add_flow` returns 0, which is right if that is the cookie of a living entry. -/
theorem agrees_offline_iff (hoff : svc.initialized = false)
    (h : svc.addFlow now a = some (result, svc')) :
    AddAgrees svc a result svc' ↔
      ∃ t ∈ svc.flowTables, ∃ e, Lives t a.description 0 e := by
  rw [addFlow_offline hoff, Option.some.injEq, Prod.mk.injEq] at h
  obtain ⟨rfl, rfl⟩ := h
  refine ⟨?_, ?_⟩
  · intro hagrees
    rcases hagrees with hrefused | hknown | ⟨index, e, hadded⟩
    · exact absurd hrefused.failure (by decide)
    · exact hknown.live
    · obtain ⟨tr, msg, henq, _⟩ := hadded.sent
      have := congrArg List.length henq
      simp at this
  · intro hlive
    exact Or.inr (Or.inl ⟨hlive, rfl⟩)

/-! ## An add that stores its entry -/

theorem toUInt32_eq_zero {n : UInt16} : n.toUInt32 = 0 ↔ n = 0 := by
  rw [← UInt32.toNat_inj, ← UInt16.toNat_inj, UInt16.toNat_toUInt32]
  rfl

/-- The flow-mod mirrors the entry unless the flow is static and has a timeout. -/
theorem addRequest_mirrors_iff (now : Nat) (a : AddFlowArgs) :
    Mirrors (addRequest a) (newEntry now a) ↔
      (a.isStatic = true → a.idleTimeout = 0 ∧ a.hardTimeout = 0) := by
  cases hs : a.isStatic with
  | false =>
      refine ⟨fun _ h => absurd h (by simp), ?_⟩
      intro _
      exact ⟨rfl, by simp [newEntry, hs, addRequest], by simp [newEntry, hs, addRequest]⟩
  | true =>
      refine ⟨?_, ?_⟩
      · intro h _
        have hidle : a.idleTimeout.toUInt32 = 0 := by
          simpa [newEntry, hs, addRequest] using h.idleTimeout
        have hhard : a.hardTimeout.toUInt32 = 0 := by
          simpa [newEntry, hs, addRequest] using h.hardTimeout
        exact ⟨toUInt32_eq_zero.mp hidle, toUInt32_eq_zero.mp hhard⟩
      · intro h
        obtain ⟨hidle, hhard⟩ := h rfl
        exact ⟨rfl, by simp [newEntry, hs, addRequest, hidle],
          by simp [newEntry, hs, addRequest, hhard]⟩

theorem newEntry_static (now : Nat) (h : a.isStatic = true) :
    (newEntry now a).idleTimeout = 0 ∧ (newEntry now a).hardTimeout = 0 := by
  simp [newEntry, h]

/-- An installed flow is added under an unused cookie, and mirrored, or it is not as promised. -/
theorem agrees_of_installs_iff (h : Installs now svc a index result svc') :
    AddAgrees svc a result svc' ↔
      entryAt svc index a.description.cookie = none ∧
        (a.isStatic = true → a.idleTimeout = 0 ∧ a.hardTimeout = 0) := by
  obtain ⟨tr, henq, hreq, _⟩ := h.sent
  have hgrown : svc'.enqueued ≠ svc.enqueued := by
    intro heq
    have := congrArg List.length (heq.symm.trans henq)
    simp at this
  rw [← addRequest_mirrors_iff now a]
  refine ⟨?_, ?_⟩
  · intro hagrees
    rcases hagrees with hrefused | hknown | ⟨index', e, hadded⟩
    · exact absurd hrefused.silent hgrown
    · exact absurd hknown.silent hgrown
    · -- the entry added is the one installed
      have hplace : entryAt svc' index' a.description.cookie = some e := by
        rw [hadded.lookup, if_pos ⟨rfl, rfl⟩]
      rw [h.lookup] at hplace
      by_cases hi : index' = index
      · subst hi
        rw [if_pos ⟨rfl, rfl⟩, Option.some.injEq] at hplace
        subst hplace
        obtain ⟨tr', msg, henq', hreq', hmirrors⟩ := hadded.sent
        have htr : tr' = tr := by
          have := henq'.symm.trans henq
          simpa using this
        rw [htr, hreq, FlowRequest.flowMod.injEq] at hreq'
        rw [hreq']
        exact ⟨hadded.vacant, hmirrors⟩
      · rw [if_neg fun hh => hi hh.1, hadded.vacant] at hplace
        exact absurd hplace (by simp)
  · intro ⟨hvacant, hmirrors⟩
    exact Or.inr (Or.inr ⟨index, newEntry now a, rfl, newEntry_static now, hvacant, h.lookup,
      tr, _, henq, hreq, hmirrors⟩)

/-- The flow-mod for an add goes through its serialization if its actions do. -/
theorem assignAndSerialize_iff (a : AddFlowArgs) :
    (∃ bytes, assignAndSerialize (addRequest a) 0 = .ok bytes) ↔
      Serializable a.description.actionList :=
  exists_serialize_flowMod_iff _

/-- With a cookie a table can hold, only actions that cannot be written keep `add_flow` from returning. -/
theorem addFlow_eq_none_iff (hc : a.description.cookie ≠ 0 ∧ a.description.cookie ≠ noCookie) :
    svc.addFlow now a = none ↔
      (∃ index, admits svc a = some index) ∧ ¬ Serializable a.description.actionList := by
  rw [← assignAndSerialize_iff]
  refine ⟨?_, ?_⟩
  · intro h
    rcases addFlow_aborts h with hreserved | ⟨hadmits, hserialize⟩
    · exact absurd hreserved (not_or.mpr hc)
    · refine ⟨hadmits, ?_⟩
      intro ⟨bytes, hbytes⟩
      exact hserialize bytes hbytes
  · intro ⟨⟨index, hadmits⟩, hserialize⟩
    cases hadd : svc.addFlow now a with
    | none => rfl
    | some r =>
        rcases addFlow_cases hadd with ⟨hnone, _⟩ | ⟨_, _, hinst⟩
        · rw [hadmits] at hnone
          exact absurd hnone (by simp)
        · exact absurd hinst.serialized hserialize

end AddFlow

/--
**When table and switch agree after an add.** In every reachable state `add_flow`
with a cookie other than 0 and all-ones returns, and is refused without a trace, finds
the flow known, or adds one entry and sends the flow-mod that mirrors it, exactly when
`AddGuard` holds.
-/
theorem addFlow_agrees_iff {tables : List FlowTable} {ts : List (Transition FlowWorld FlowInput)}
    {w : FlowWorld} (hr : Run step (boot tables) ts w) {a : AddFlowArgs}
    (hc : a.description.cookie ≠ 0 ∧ a.description.cookie ≠ noCookie) :
    (∃ result svc', w.svc.addFlow w.now a = some (result, svc') ∧
      AddAgrees w.svc a result svc') ↔ AddGuard w.svc a := by
  have hinv := serviceInv_reachable hr
  unfold AddGuard
  cases hadd : w.svc.addFlow w.now a with
  | none =>
      -- the entry is stored, and the process ends before anything is sent
      obtain ⟨⟨index, hadmits⟩, hserialize⟩ := (addFlow_eq_none_iff hc).mp hadd
      have hon : w.svc.initialized = true := by
        by_contra hoff
        rw [addFlow_offline (by simpa using hoff)] at hadd
        exact absurd hadd (by simp)
      rw [if_pos hon]
      refine ⟨fun ⟨_, _, h, _⟩ => absurd h (by simp), ?_⟩
      intro h
      exact absurd (h index hadmits).2.2 hserialize
  | some r =>
      obtain ⟨result, svc'⟩ := r
      have honly : (∃ result₁ svc₁, some (result, svc') = some (result₁, svc₁) ∧
          AddAgrees w.svc a result₁ svc₁) ↔ AddAgrees w.svc a result svc' := by
        refine ⟨?_, fun h => ⟨result, svc', rfl, h⟩⟩
        rintro ⟨_, _, heq, h⟩
        obtain ⟨rfl, rfl⟩ := Prod.mk.inj (Option.some.inj heq)
        exact h
      rw [honly]
      cases hon : w.svc.initialized with
      | false => exact agrees_offline_iff hon hadd
      | true =>
          rw [if_pos rfl]
          rcases addFlow_cases hadd with ⟨hnone, _⟩ | ⟨index, hsome, hinst⟩
          · refine ⟨?_, fun _ => agrees_of_not_admitted hinv hon hc hnone hadd⟩
            intro _ index hindex
            rw [hnone] at hindex
            exact absurd hindex (by simp)
          · have hserializable := (assignAndSerialize_iff a).mp hinst.serialized
            rw [agrees_of_installs_iff hinst]
            refine ⟨?_, fun h => ⟨(h index hsome).1, (h index hsome).2.1⟩⟩
            intro h index' hindex
            rw [hsome, Option.some.injEq] at hindex
            exact hindex ▸ ⟨h.1, h.2, hserializable⟩

/-- A flow added to a running service with room for it is in the table as the switch is told. -/
theorem bareAdd_agrees :
    ∃ ts w, Run step (boot [dellS48xxAclTable]) ts w ∧ w.svc.initialized = true ∧
      ∃ result svc', w.svc.addFlow w.now (bareAdd 5) = some (result, svc') ∧
        AddAgrees w.svc (bareAdd 5) result svc' := by
  obtain ⟨ts, w, hr, h⟩ := Run.exists_of_test step (boot [dellS48xxAclTable]) bringUp
    (fun _ w => w.svc.initialized && (entryAt w.svc 0 5).isNone &&
      admits w.svc (bareAdd 5) == some 0) (by decide +kernel)
  simp only [Bool.and_eq_true, Option.isNone_iff_eq_none, beq_iff_eq] at h
  obtain ⟨⟨hon, hvacant⟩, hadmits⟩ := h
  refine ⟨ts, w, hr, hon, (addFlow_agrees_iff hr (by decide)).mpr ?_⟩
  unfold AddGuard
  rw [if_pos hon, hadmits]
  intro index hindex
  obtain rfl := Option.some.inj hindex
  exact ⟨hvacant, by decide, Or.inl rfl⟩

/-- A static flow with an idle timeout: the switch is told the timeout, the table is not. -/
def staticAdd : AddFlowArgs := { bareAdd 5 with isStatic := true, idleTimeout := 60 }

/-- A flow with a vendor action, for which there is room. -/
def vendorAdd : AddFlowArgs :=
  { bareAdd 5 with description := ⟨OfMatch.clear, ⟨[.vendor 1 []]⟩, 5, 100⟩ }

/--
An offline service returns 0 for a flow it knows nothing of. A running one tells
the switch to time a static flow out, and does not return for a vendor action.
-/
theorem add_disagrees :
    (∃ ts w, Run step (boot [dellS48xxAclTable]) ts w ∧ w.svc.initialized = false ∧
      ∃ result svc', w.svc.addFlow w.now (bareAdd 5) = some (result, svc') ∧
        ¬ AddAgrees w.svc (bareAdd 5) result svc') ∧
    (∃ ts w, Run step (boot [dellS48xxAclTable]) ts w ∧ w.svc.initialized = true ∧
      ∃ result svc', w.svc.addFlow w.now staticAdd = some (result, svc') ∧
        ¬ AddAgrees w.svc staticAdd result svc') ∧
    ∃ ts w, Run step (boot [dellS48xxAclTable]) ts w ∧ w.svc.initialized = true ∧
      w.svc.addFlow w.now vendorAdd = none := by
  refine ⟨?_, ?_, ?_⟩
  · have hadd : (boot [dellS48xxAclTable]).svc.addFlow 0 (bareAdd 5) =
        some (.returned 0, (boot [dellS48xxAclTable]).svc) := rfl
    refine ⟨[], boot [dellS48xxAclTable], .nil, rfl, .returned 0, _, hadd, ?_⟩
    intro hagrees
    obtain ⟨t, ht, e, hlive⟩ := (agrees_offline_iff rfl hadd).mp hagrees
    obtain rfl : t = dellS48xxAclTable := by simpa [boot, dellS48xxAclTable] using ht
    exact absurd hlive.1.1 (by simp [dellS48xxAclTable])
  · obtain ⟨ts, w, hr, h⟩ := Run.exists_of_test step (boot [dellS48xxAclTable]) bringUp
      (fun _ w => w.svc.initialized && admits w.svc staticAdd == some 0 &&
        (w.svc.addFlow w.now staticAdd).isSome) (by decide +kernel)
    simp only [Bool.and_eq_true, Option.isSome_iff_exists, beq_iff_eq] at h
    obtain ⟨⟨hon, hadmits⟩, ⟨result, svc'⟩, hadd⟩ := h
    refine ⟨ts, w, hr, hon, result, svc', hadd, ?_⟩
    intro hagrees
    rcases addFlow_cases hadd with ⟨hnone, _⟩ | ⟨index, _, hinst⟩
    · rw [hadmits] at hnone
      exact absurd hnone (by simp)
    · have hstatic := ((agrees_of_installs_iff hinst).mp hagrees).2 rfl
      exact absurd hstatic.1 (by decide)
  · obtain ⟨ts, w, hr, h⟩ := Run.exists_of_test step (boot [dellS48xxAclTable]) bringUp
      (fun _ w => w.svc.initialized && admits w.svc vendorAdd == some 0) (by decide +kernel)
    simp only [Bool.and_eq_true, beq_iff_eq] at h
    refine ⟨ts, w, hr, h.1, (addFlow_eq_none_iff (by decide)).mpr ⟨⟨0, h.2⟩, ?_⟩⟩
    intro hserializable
    rcases hserializable with hsize | ⟨hwritable, _⟩
    · exact absurd hsize (by decide)
    · exact absurd rfl (hwritable (.vendor 1 []) (List.mem_singleton_self _) 1 [])

end IronStack.Proof
