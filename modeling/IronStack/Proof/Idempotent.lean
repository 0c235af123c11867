import IronStack.Proof.World

/-!
# Adding a flow that is already there

`add_flow` looks for an entry with the description it is given, and returns the
cookie of that entry if it is alive and well. But a table may hold several
entries with one description, in different states, and the lookup picks the one
with the largest cookie before anyone asks for its state. A dead entry with a
larger cookie therefore hides a living one, and so does an entry whose cookie is
the all-ones value the lookup uses for "none".
-/

namespace IronStack.Proof

open IronStack Lib FlowTable FlowService FlowWorld

theorem le_noCookie (c : UInt64) : c ≤ noCookie := by
  rw [UInt64.le_iff_toNat_le]
  have := UInt64.toNat_lt c
  have : noCookie.toNat = 2 ^ 64 - 1 := rfl
  omega

/-- The table holds, under cookie `c`, an entry with this description. -/
def Describes (t : FlowTable) (description : FlowDescription) (c : UInt64) (e : FlowEntry) : Prop :=
  t.flows[c]? = some e ∧ (e.description == description) = true

/-- The table holds an entry with this description that is being installed or installed. -/
def Lives (t : FlowTable) (description : FlowDescription) (c : UInt64) (e : FlowEntry) : Prop :=
  Describes t description c e ∧ e.state.isStanding = true

/-- What the lookup of `add_flow` needs in order to find the entry under `c`. -/
def Newest (t : FlowTable) (description : FlowDescription) (c : UInt64) : Prop :=
  (∀ c' e', Describes t description c' e' → c' ≤ c) ∧
    (c ≠ noCookie ∨ t.maxCapacity.toNat ≤ t.flows.size)

/-! ## The lookup -/

/-- `add_flow` takes the newest entry with the description, if it stands. -/
theorem liveCookie_of_newest {t : FlowTable} {d : FlowDescription} {k : UInt64} {e : FlowEntry}
    (hk : t.getCookieForFlow d = k) (he : t.flows[k]? = some e) (hne : k ≠ noCookie) :
    liveCookie t d = if e.state.isStanding then some k else none := by
  unfold liveCookie getFlowEntryByCookie
  dsimp only
  rw [hk, if_pos hne, he]

theorem liveCookie_of_noCookie {t : FlowTable} {d : FlowDescription}
    (hk : t.getCookieForFlow d = noCookie) : liveCookie t d = none := by
  unfold liveCookie
  dsimp only
  rw [hk, if_neg (not_not.mpr rfl)]

section AddFlow

variable {now : Nat} {svc : FlowService} {a : AddFlowArgs} {index : Nat} {t : FlowTable}

theorem addFlow_offline (hoff : svc.initialized = false) :
    svc.addFlow now a = some (.returned 0, svc) := by
  rw [addFlow, hoff]
  rfl

theorem addFlow_of_live (hon : svc.initialized = true)
    (hfit : svc.flowTables.findIdx? (·.checkTableFit a.description) = some index)
    (ht : svc.flowTables[index]? = some t) {k : UInt64}
    (hlive : liveCookie t a.description = some k) :
    svc.addFlow now a = some (.returned k, svc) := by
  unfold addFlow
  simp only [hon, hfit, ht, hlive, Bool.not_true, Bool.false_eq_true, if_false]

theorem addFlow_of_full (hon : svc.initialized = true)
    (hfit : svc.flowTables.findIdx? (·.checkTableFit a.description) = some index)
    (ht : svc.flowTables[index]? = some t) (hlive : liveCookie t a.description = none)
    (hc : a.description.cookie ≠ 0 ∧ a.description.cookie ≠ noCookie)
    (hfull : t.maxCapacity.toNat ≤ t.flows.size) :
    svc.addFlow now a = some (.returned noCookie, svc) := by
  have hadd : t.addEntry (newEntry now a) = some (false, t) := by
    unfold addEntry
    rw [newEntry_description, if_neg (not_or.mpr hc), if_pos hfull]
  unfold addFlow
  simp only [hon, hfit, ht, hlive, hadd, Bool.not_true, Bool.false_eq_true, if_false]

/-- An add that stores an entry sends a flow-mod, so it does not leave the service as it was. -/
theorem addFlow_ne_of_admits {result : AddFlowResult} (h : admits svc a = some index) :
    svc.addFlow now a ≠ some (result, svc) := by
  intro hadd
  rcases addFlow_cases hadd with ⟨hnone, _⟩ | ⟨_, _, hinst⟩
  · rw [h] at hnone
    exact absurd hnone (by simp)
  · obtain ⟨tr, henq, _⟩ := hinst.sent
    have := congrArg List.length henq
    simp at this

theorem admits_of_dead (hon : svc.initialized = true)
    (hfit : svc.flowTables.findIdx? (·.checkTableFit a.description) = some index)
    (ht : svc.flowTables[index]? = some t) (hlive : liveCookie t a.description = none)
    (hroom : ¬ t.maxCapacity.toNat ≤ t.flows.size) : admits svc a = some index := by
  unfold admits
  simp [hon, hfit, ht, hlive, hroom]

/-- When `add_flow` returns the cookie of a given living entry and does nothing else. -/
theorem addFlow_returns_live_iff (hinv : ServiceInv svc)
    (hfit : svc.flowTables.findIdx? (·.checkTableFit a.description) = some index)
    (ht : svc.flowTables[index]? = some t)
    (hc : a.description.cookie ≠ 0 ∧ a.description.cookie ≠ noCookie) {c : UInt64} {e : FlowEntry}
    (hlive : Lives t a.description c e) :
    svc.addFlow now a = some (.returned c, svc) ↔
      (svc.initialized = true ∧ Newest t a.description c) ∨
        (svc.initialized = false ∧ c = 0) := by
  cases hon : svc.initialized with
  | false =>
      rw [addFlow_offline hon]
      simp [eq_comm]
  | true =>
      -- the lookup finds the greatest cookie `k` among the entries with the description
      have htinv : TableInv t := hinv t (List.mem_of_getElem? ht)
      obtain ⟨⟨e', he', hd'⟩, hmax⟩ :=
        getCookieForFlow_isGreatest htinv ⟨c, e, hlive.1.1, hlive.1.2⟩
      generalize hk : t.getCookieForFlow a.description = k at he' hmax
      have hck : c ≤ k := hmax ⟨e, hlive.1.1, hlive.1.2⟩
      have hgreatest : (∀ c' e', Describes t a.description c' e' → c' ≤ c) ↔ c = k := by
        refine ⟨?_, ?_⟩
        · intro h
          exact le_antisymm hck (h k e' ⟨he', hd'⟩)
        · intro heq c' e'' ⟨h, hd⟩
          subst heq
          exact hmax ⟨e'', h, hd⟩
      unfold Newest
      rw [hgreatest]
      simp only [true_and, Bool.true_eq_false, false_and, or_false]
      by_cases hstand : k ≠ noCookie ∧ e'.state.isStanding = true
      · -- the greatest is found and live: its cookie is returned
        have hfound : liveCookie t a.description = some k := by
          rw [liveCookie_of_newest hk he' hstand.1, if_pos hstand.2]
        rw [addFlow_of_live hon hfit ht hfound]
        refine ⟨?_, ?_⟩
        · intro h
          obtain rfl : k = c := by simpa using h
          exact ⟨rfl, Or.inl hstand.1⟩
        · intro h
          obtain ⟨rfl, _⟩ := h
          rfl
      · have hmissed : liveCookie t a.description = none := by
          by_cases hne : k = noCookie
          · exact liveCookie_of_noCookie (hk.trans hne)
          · rw [liveCookie_of_newest hk he' hne, if_neg fun hs => hstand ⟨hne, hs⟩]
        -- a living entry with the greatest cookie is only missed under the all-ones cookie
        have hkc : c = k → k = noCookie := by
          intro heq
          subst heq
          by_contra hne
          rw [hlive.1.1] at he'
          obtain rfl := Option.some.inj he'
          exact hstand ⟨hne, hlive.2⟩
        by_cases hfull : t.maxCapacity.toNat ≤ t.flows.size
        · -- a full table makes `add_flow` return the all-ones cookie, which may be the live one
          rw [addFlow_of_full hon hfit ht hmissed hc hfull]
          refine ⟨?_, ?_⟩
          · intro h
            obtain rfl : noCookie = c := by simpa using h
            exact ⟨le_antisymm hck (le_noCookie k), Or.inr hfull⟩
          · intro ⟨hck', _⟩
            rw [hck', hkc hck']
        · refine ⟨?_, ?_⟩
          · intro h
            exact absurd h (addFlow_ne_of_admits (admits_of_dead hon hfit ht hmissed hfull))
          · intro h
            obtain ⟨rfl, hne | hf⟩ := h
            · exact absurd (hkc rfl) hne
            · exact absurd hf hfull

end AddFlow

/--
**When `add_flow` is idempotent.** In a reachable state, adding a flow whose
accepting table has a living entry for it changes nothing and returns the cookie
of such an entry exactly when the entry with the description and the largest
cookie is a living one and not under the all-ones cookie (unless the table is
full). Offline, `add_flow` returns 0 whatever it is given.
-/
theorem addFlow_idempotent_iff {tables : List FlowTable}
    {ts : List (Transition FlowWorld FlowInput)} {w : FlowWorld}
    (hr : Run step (boot tables) ts w) {a : AddFlowArgs} {index : Nat} {t : FlowTable}
    (hfit : w.svc.flowTables.findIdx? (·.checkTableFit a.description) = some index)
    (ht : w.svc.flowTables[index]? = some t)
    (hfresh : a.description.cookie ≠ 0 ∧ a.description.cookie ≠ noCookie) :
    (∃ c e, Lives t a.description c e ∧ w.svc.addFlow w.now a = some (.returned c, w.svc)) ↔
      ∃ c e, Lives t a.description c e ∧
        ((w.svc.initialized = true ∧ Newest t a.description c) ∨
          (w.svc.initialized = false ∧ c = 0)) := by
  have hinv := serviceInv_reachable hr
  refine ⟨?_, ?_⟩
  · intro ⟨c, e, hlive, h⟩
    exact ⟨c, e, hlive, (addFlow_returns_live_iff hinv hfit ht hfresh hlive).mp h⟩
  · intro ⟨c, e, hlive, h⟩
    exact ⟨c, e, hlive, (addFlow_returns_live_iff hinv hfit ht hfresh hlive).mpr h⟩

/-- A running service with one table, which accepts `a` and has a living entry for it under 5. -/
def livesUnderFive (a : AddFlowArgs) (w : FlowWorld) : Bool :=
  w.svc.initialized &&
    match w.svc.flowTables with
    | [t] =>
        t.checkTableFit a.description &&
          match t.flows[(5 : UInt64)]? with
          | some e => e.description == a.description && e.state.isStanding
          | none => false
    | _ => false

theorem livesUnderFive_spec {a : AddFlowArgs} {w : FlowWorld} (h : livesUnderFive a w = true) :
    w.svc.initialized = true ∧ ∃ t e, w.svc.flowTables = [t] ∧
      w.svc.flowTables.findIdx? (·.checkTableFit a.description) = some 0 ∧
      Lives t a.description 5 e := by
  unfold livesUnderFive at h
  rw [Bool.and_eq_true] at h
  obtain ⟨hon, h⟩ := h
  refine ⟨hon, ?_⟩
  split at h
  · rename_i t ht
    rw [Bool.and_eq_true] at h
    obtain ⟨hfit, h⟩ := h
    split at h
    · rename_i e he
      rw [Bool.and_eq_true] at h
      exact ⟨t, e, ht, by simp [ht, List.findIdx?_cons, hfit], ⟨he, h.1⟩, h.2⟩
    · exact absurd h (by simp)
  · exact absurd h (by simp)

/-- A living entry with nothing newer beside it is found again. -/
theorem addFlow_finds_live :
    ∃ ts w, Run step (boot [dellS48xxAclTable]) ts w ∧ ∃ t, w.svc.flowTables = [t] ∧
      ∃ c e, Lives t (bareAdd 12).description c e ∧
        w.svc.addFlow w.now (bareAdd 12) = some (.returned c, w.svc) := by
  obtain ⟨ts, w, hr, h⟩ := Run.exists_of_test step (boot [dellS48xxAclTable])
    (bringUp ++ [.addFlow (bareAdd 5)])
    (fun _ w => livesUnderFive (bareAdd 12) w &&
      w.svc.flowTables.all fun t => t.flows.toList.all fun p => p.1 ≤ 5) (by decide +kernel)
  rw [Bool.and_eq_true] at h
  obtain ⟨hon, t, e, htabs, hfit, hlive⟩ := livesUnderFive_spec h.1
  have hmax : ∀ p ∈ t.flows.toList, p.1 ≤ 5 := by simpa [htabs] using h.2
  refine ⟨ts, w, hr, t, htabs, ?_⟩
  refine (addFlow_idempotent_iff hr hfit (t := t) (by rw [htabs]; rfl) (by decide)).mpr ?_
  refine ⟨5, e, hlive, Or.inl ⟨hon, ?_, Or.inl (by decide)⟩⟩
  intro c' e' ⟨he', _⟩
  exact hmax (c', e') (Std.ExtTreeMap.mem_toList_iff_getElem?_eq_some.mpr he')

/--
A flow is added under 9 and removed, then added again under 5. Adding it once more
installs it a second time: the lookup finds the removed entry under 9.
-/
theorem addFlow_misses_live :
    ∃ ts w, Run step (boot [dellS48xxAclTable]) ts w ∧ ∃ t e, w.svc.flowTables = [t] ∧
      w.svc.flowTables.findIdx? (·.checkTableFit (bareAdd 12).description) = some 0 ∧
      Lives t (bareAdd 12).description 5 e ∧
      ¬ ∃ c e, Lives t (bareAdd 12).description c e ∧
        w.svc.addFlow w.now (bareAdd 12) = some (.returned c, w.svc) := by
  obtain ⟨ts, w, hr, h⟩ := Run.exists_of_test step (boot [dellS48xxAclTable])
    (bringUp ++ [.addFlow (bareAdd 9), .removeFlow 9, .addFlow (bareAdd 5)])
    (fun _ w => livesUnderFive (bareAdd 12) w && admits w.svc (bareAdd 12) == some 0)
    (by decide +kernel)
  rw [Bool.and_eq_true] at h
  obtain ⟨_, t, e, htabs, hfit, hlive⟩ := livesUnderFive_spec h.1
  refine ⟨ts, w, hr, t, e, htabs, hfit, hlive, ?_⟩
  intro ⟨c, e', _, hadd⟩
  exact addFlow_ne_of_admits (by simpa using h.2) hadd

end IronStack.Proof
