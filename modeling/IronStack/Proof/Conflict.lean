import IronStack.Proof.World

/-!
# Two live entries for one flow of the switch

The switch knows a flow by its match criteria and its priority. The service,
when it adds a flow, looks for an entry with the same criteria and the same
*actions*. So a host that moves to another port gets a second live entry for what
is one flow of the switch, and removing the stale one by its cookie sends a
strict delete that takes the other one's flow away. A second `remove_flow` of an
entry that is already on its way out does the same to a flow that was added since.

Nothing else brings this about: the guard below is exact.
-/

namespace IronStack.Proof

open IronStack Lib FlowTable FlowService FlowWorld

/-! ## The property -/

/-- The switch takes the two for one flow: same match criteria, same priority. -/
def SameFlow (d d' : FlowDescription) : Prop :=
  (d.criteria == d'.criteria) = true ∧ d.priority = d'.priority

instance (d d' : FlowDescription) : Decidable (SameFlow d d') :=
  inferInstanceAs (Decidable (_ ∧ _))

theorem SameFlow.symm {d d' : FlowDescription} (h : SameFlow d d') : SameFlow d' d :=
  ⟨by rw [OfMatch.beq_comm]; exact h.1, h.2.symm⟩

/-- No live entry outside `place` is the same flow as `d`. -/
def Alone (svc : FlowService) (d : FlowDescription) (place : Option (Nat × UInt64)) : Prop :=
  ∀ i c e, entryAt svc i c = some e → e.state.isStanding = true → some (i, c) ≠ place →
    ¬ SameFlow d e.description

/-- No two live entries are the same flow. -/
def NoConflict (svc : FlowService) : Prop :=
  ∀ i c e, entryAt svc i c = some e → e.state.isStanding = true →
    Alone svc e.description (some (i, c))

instance (svc : FlowService) (d : FlowDescription) (place : Option (Nat × UInt64)) :
    Decidable (Alone svc d place) :=
  decidable_of_iff (∀ p ∈ allEntries svc, p.2.2.state.isStanding = true →
      some (p.1, p.2.1) ≠ place → ¬ SameFlow d p.2.2.description)
    ⟨fun h i c e he => h (i, c, e) (mem_allEntries.mpr he),
      fun h p hp => h p.1 p.2.1 p.2.2 (mem_allEntries.mp hp)⟩

instance (svc : FlowService) : Decidable (NoConflict svc) :=
  decidable_of_iff (∀ p ∈ allEntries svc, p.2.2.state.isStanding = true →
      Alone svc p.2.2.description (some (p.1, p.2.1)))
    ⟨fun h i c e he => h (i, c, e) (mem_allEntries.mpr he),
      fun h p hp => h p.1 p.2.1 p.2.2 (mem_allEntries.mp hp)⟩

/-- The strict delete a `remove_flow` sends is for a flow no live entry still describes. -/
def DeletesNoOther (t : Transition FlowWorld FlowInput) : Prop :=
  ∀ cookieId, t.input = .removeFlow cookieId → ∀ tr d,
    t.target.svc.enqueued = t.source.svc.enqueued ++ [tr] →
    tr.request = .flowMod (deleteStrictRequest d) → Alone t.target.svc d none

/-- Live entries stay apart, and removing one leaves the others' flows alone. -/
def KeepsApart (t : Transition FlowWorld FlowInput) : Prop :=
  NoConflict t.target.svc ∧ DeletesNoOther t

/-! ## The guard -/

/-- An add that will store an entry finds no live entry for the same flow elsewhere. -/
def AddsAlone (svc : FlowService) (a : AddFlowArgs) : Prop :=
  ∀ index ∈ admits svc a, Alone svc a.description (some (index, a.description.cookie))

/-- The entry `remove_flow` picks: that of the first table whose entry is not yet deleted. -/
def removalTarget (w : FlowWorld) (cookieId : UInt64) : Option FlowEntry :=
  if !w.svc.initialized then none
  else (markForRemoval w.now cookieId w.svc.flowTables).map fun r => r.2.1

/-- A removal of an entry that is not live any more finds no live entry for the same flow. -/
def RemovesAlone (w : FlowWorld) (cookieId : UInt64) : Prop :=
  ∀ e ∈ removalTarget w cookieId, e.state.isStanding = false → Alone w.svc e.description none

/-- The steps that do not bring two live entries together, or delete one's flow with another. -/
def StaysApart (w : FlowWorld) : FlowInput → Prop
  | .addFlow a => AddsAlone w.svc a
  | .addFlowAuto random a => AddsAlone w.svc (a.withCookie (w.svc.getNextAvailableCookieId random).1)
  | .removeFlow cookieId => RemovesAlone w cookieId
  | _ => True

instance (w : FlowWorld) : DecidablePred (StaysApart w)
  | .addFlow _ => inferInstanceAs (Decidable (∀ index ∈ admits _ _, Alone _ _ _))
  | .addFlowAuto _ _ => inferInstanceAs (Decidable (∀ index ∈ admits _ _, Alone _ _ _))
  | .removeFlow _ => inferInstanceAs (Decidable (∀ e ∈ removalTarget _ _, _ → Alone _ _ _))
  | .tick _ | .init | .init2 | .init2Finish | .shutdown | .clearAllFlows _ _ | .refreshFlows _
  | .statsReply _ _ | .flowRemoved _ | .complete _ _ | .resume _ _ => .isTrue trivial

/--
The steps of the service's own calls and of completions. Statistics replies are
left out: they bring in whatever flows the switch has.
-/
def stepCalls (w : FlowWorld) : FlowInput → Option FlowWorld
  | .statsReply _ _ => none
  | input => w.step input

/-! ## Steps that bring no new flow -/

/-- A live entry of `svc'` was live in `svc`, with the same description. -/
def LiveFrom (svc svc' : FlowService) : Prop :=
  ∀ i c e, entryAt svc' i c = some e → e.state.isStanding = true →
    ∃ e₀, entryAt svc i c = some e₀ ∧ e₀.state.isStanding = true ∧ e.description = e₀.description

theorem Quiets.liveFrom {svc svc' : FlowService} (h : Quiets svc svc') : LiveFrom svc svc' := by
  intro i c e he hs
  rcases h i c e he with h₀ | hn
  · exact ⟨e, h₀, hs, rfl⟩
  · rw [hs] at hn
    exact absurd hn (by simp)

/-- A completion installs an entry that was being installed, or makes one die. -/
theorem LiveFrom.of_completion {svc svc' : FlowService} {now : Nat} {i : Nat} {k : UInt64}
    {cmd : FlowModCommand} {reply : Option OfpType}
    (h : MappedAt i k (completionEffect now cmd reply) svc svc') : LiveFrom svc svc' := by
  intro j c e he hs
  rcases h.of_some he with ⟨_, h₀⟩ | ⟨_, e₀, h₀, rfl⟩
  · exact ⟨e, h₀, hs, rfl⟩
  · refine ⟨e₀, h₀, ?_, completionEffect_description now cmd reply e₀⟩
    rcases completionEffect_cases now cmd reply with heq | heq | heq <;> rw [heq] at hs
    · unfold installed at hs
      split at hs
      · rename_i hp
        rw [hp]
        rfl
      · exact hs
    · exact absurd hs (by simp [FlowState.isStanding])
    · exact hs

theorem Alone.mono {svc svc' : FlowService} (h : LiveFrom svc svc') {d : FlowDescription}
    {place : Option (Nat × UInt64)} (ha : Alone svc d place) : Alone svc' d place := by
  intro i c e he hs hne
  obtain ⟨e₀, h₀, hs₀, hd⟩ := h i c e he hs
  rw [hd]
  exact ha i c e₀ h₀ hs₀ hne

theorem NoConflict.mono {svc svc' : FlowService} (h : LiveFrom svc svc') (hc : NoConflict svc) :
    NoConflict svc' := by
  intro i c e he hs
  obtain ⟨e₀, h₀, hs₀, hd⟩ := h i c e he hs
  rw [hd]
  exact (hc i c e₀ h₀ hs₀).mono h

/-! ## Adding -/

/-- An add keeps the live entries apart exactly when the new one is alone. -/
theorem noConflict_callAddFlow_iff {w w' : FlowWorld} {a : AddFlowArgs} (hc : NoConflict w.svc)
    (hs : w.callAddFlow a = some w') : NoConflict w'.svc ↔ AddsAlone w.svc a := by
  rcases callAddFlow_cases hs with ⟨hnone, rfl⟩ | ⟨index, result, hsome, hinst, _⟩
  · refine ⟨fun _ i hi => ?_, fun _ => hc⟩
    rw [hnone] at hi
    exact absurd hi (by simp)
  · have hnew : entryAt w'.svc index a.description.cookie = some (newEntry w.now a) := by
      rw [hinst.lookup, if_pos ⟨rfl, rfl⟩]
    have hother : ∀ i c, some (i, c) ≠ some (index, a.description.cookie) →
        entryAt w'.svc i c = entryAt w.svc i c := by
      intro i c hne
      rw [hinst.lookup, if_neg]
      intro h
      obtain ⟨rfl, rfl⟩ := h
      exact hne rfl
    refine ⟨?_, ?_⟩
    · intro hc' i hi j c e he hst hne
      rw [hsome] at hi
      obtain rfl := Option.some.inj hi
      exact hc' index a.description.cookie _ hnew rfl j c e (by rw [hother j c hne]; exact he) hst hne
    · intro halone
      have halone' := halone index hsome
      intro i c e he hst j k e' he' hst' hne
      by_cases hic : some (i, c) = some (index, a.description.cookie)
      · -- the new entry against an old one
        obtain ⟨rfl, rfl⟩ := Prod.mk.inj (Option.some.inj hic)
        rw [hnew] at he
        obtain rfl := Option.some.inj he
        rw [hother j k hne] at he'
        exact halone' j k e' he' hst' hne
      · rw [hother i c hic] at he
        by_cases hjk : some (j, k) = some (index, a.description.cookie)
        · obtain ⟨rfl, rfl⟩ := Prod.mk.inj (Option.some.inj hjk)
          rw [hnew] at he'
          obtain rfl := Option.some.inj he'
          exact fun hsame => halone' i c e he hst hic hsame.symm
        · rw [hother j k hjk] at he'
          exact hc i c e he hst j k e' he' hst' hne

/-! ## Removing -/

theorem removalTarget_of_removes {w : FlowWorld} {cookieId : UInt64} {index : Nat} {e : FlowEntry}
    {svc' : FlowService} (h : Removes w.now w.svc cookieId index e svc') :
    removalTarget w cookieId = some e := by
  unfold removalTarget
  rw [h.online]
  simp only [Bool.not_true, Bool.false_eq_true, if_false]
  cases hr : markForRemoval w.now cookieId w.svc.flowTables with
  | none =>
      obtain ⟨t, ht, he⟩ := entryAt_eq_some.mp h.found
      exact absurd (markForRemoval_none hr t (List.mem_of_getElem? ht) e he) h.notDeleted
  | some r =>
      obtain ⟨i, e', t'⟩ := r
      obtain ⟨t, ht, he', hne, _, hbefore⟩ := markForRemoval_cases hr
      -- both are the first table with an entry that is not deleted
      have hi : i = index := by
        rcases Nat.lt_trichotomy i index with hlt | heq | hgt
        · exact absurd (h.first i hlt e' (entryAt_eq_some.mpr ⟨t, ht, he'⟩)) hne
        · exact heq
        · obtain ⟨t₀, ht₀, he₀⟩ := entryAt_eq_some.mp h.found
          exact absurd (hbefore index hgt t₀ ht₀ e he₀) h.notDeleted
      subst hi
      have hfound := h.found
      rw [entryAt_of_table ht, he'] at hfound
      exact hfound

theorem deleteStrictRequest_inj {d d' : FlowDescription}
    (h : FlowRequest.flowMod (deleteStrictRequest d) = .flowMod (deleteStrictRequest d')) :
    d = d' :=
  congrArg ModifyFlow.flowDescription (FlowRequest.flowMod.inj h)

/-- A removal spares the other live entries exactly when its target is live, or has no rival. -/
theorem deletesNoOther_iff {w : FlowWorld} {cookieId : UInt64} (hc : NoConflict w.svc) :
    DeletesNoOther ⟨w, .removeFlow cookieId,
        { w with svc := (w.svc.removeFlow w.now cookieId).2 }⟩ ↔ RemovesAlone w cookieId := by
  rcases removeFlow_cases w.now w.svc cookieId with ⟨hsame, hdead⟩ | ⟨index, e, hrem⟩
  · refine ⟨?_, ?_⟩
    · intro _ e he
      -- nothing was picked
      unfold removalTarget at he
      cases hon : w.svc.initialized with
      | false =>
          rw [hon] at he
          exact absurd he (by simp)
      | true =>
          rw [hon] at he
          obtain ⟨r, hr, hre⟩ := Option.map_eq_some_iff.mp he
          obtain ⟨i, e', t'⟩ := r
          obtain ⟨t, ht, he', hne, _⟩ := markForRemoval_cases hr
          exact absurd (hdead hon i e' (entryAt_eq_some.mpr ⟨t, ht, he'⟩)) hne
    · intro _ c _ tr d henq _
      dsimp only at henq
      rw [hsame] at henq
      exact absurd (congrArg List.length henq) (by simp)
  · have hquiet := (removeFlow_quiets w.now w.svc cookieId).liveFrom
    have htarget := removalTarget_of_removes hrem
    refine ⟨?_, ?_⟩
    · intro hdel e' he' hst i c e'' he'' hst'' _
      rw [htarget] at he'
      obtain rfl := Option.some.inj he'
      -- the removal does not touch other entries, and its target is not live
      refine hdel cookieId rfl _ e.description hrem.sent rfl i c e'' ?_ hst'' (by simp)
      dsimp only
      rw [hrem.mapped, if_neg, he'']
      intro h
      obtain ⟨rfl, rfl⟩ := h
      rw [hrem.found] at he''
      obtain rfl := Option.some.inj he''
      rw [hst] at hst''
      exact absurd hst'' (by simp)
    · intro halone c _ tr d henq hreq i k e' he' hst' _ hsame
      dsimp only at henq he'
      rw [hrem.sent] at henq
      obtain rfl : HalTransaction.acknowledged (.flowMod (deleteStrictRequest e.description))
          (.table index) = tr := by simpa using henq
      obtain rfl := deleteStrictRequest_inj hreq
      obtain ⟨e₀, h₀, hs₀, hd₀⟩ := hquiet i k e' he' hst'
      rw [hd₀] at hsame
      cases hst : e.state.isStanding with
      | false => exact halone e htarget hst i k e₀ h₀ hs₀ (by simp) hsame
      | true =>
          refine hc index cookieId e hrem.found hst i k e₀ h₀ hs₀ ?_ hsame
          -- the target itself is not live after the removal
          intro hplace
          obtain ⟨rfl, rfl⟩ := Prod.mk.inj (Option.some.inj hplace)
          rw [hrem.mapped, if_pos ⟨rfl, rfl⟩, hrem.found] at he'
          obtain rfl := Option.some.inj he'
          rw [condemned_not_standing] at hst'
          exact absurd hst' (by simp)

/-! ## Runs -/

/-- A step that neither adds, removes nor takes in a statistics reply brings nothing to life. -/
theorem liveFrom_step {w w' : FlowWorld} {input : FlowInput} (hs : stepCalls w input = some w')
    (hadd : ∀ a, input ≠ .addFlow a) (hauto : ∀ r a, input ≠ .addFlowAuto r a) :
    LiveFrom w.svc w'.svc := by
  have hsame : ∀ svc' : FlowService, svc'.flowTables = w.svc.flowTables → LiveFrom w.svc svc' :=
    fun _ htab => (Quiets.of_tables htab).liveFrom
  cases input with
  | addFlow a => exact absurd rfl (hadd a)
  | addFlowAuto r a => exact absurd rfl (hauto r a)
  | statsReply flowStats more => exact absurd hs (by simp [stepCalls])
  | tick ns =>
      obtain rfl := Option.some.inj hs
      exact hsame _ rfl
  | init =>
      obtain ⟨svc', hsvc, rfl⟩ := Option.map_eq_some_iff.mp hs
      exact hsame svc' (init_same hsvc).1
  | init2 =>
      obtain rfl := Option.some.inj hs
      exact hsame _ rfl
  | init2Finish =>
      obtain rfl := Option.some.inj hs
      exact hsame _ rfl
  | shutdown =>
      obtain ⟨svc', hsvc, rfl⟩ := Option.map_eq_some_iff.mp hs
      exact hsame svc' (shutdown_same hsvc).1
  | removeFlow cookieId =>
      obtain rfl := Option.some.inj hs
      exact (removeFlow_quiets w.now w.svc cookieId).liveFrom
  | clearAllFlows timeoutMs keep =>
      obtain rfl := Option.some.inj hs
      rw [(clear_spec w timeoutMs keep).1]
      exact (clearAllFlows_quiets w.now w.svc timeoutMs keep).liveFrom
  | refreshFlows timeoutMs =>
      obtain rfl := Option.some.inj hs
      rw [(refresh_spec w timeoutMs).1]
      exact hsame _ (refreshFlows_spec w.svc timeoutMs).2
  | flowRemoved cookie =>
      obtain rfl := Option.some.inj hs
      exact (flowRemovedHandler_quiets w.now w.svc cookie).liveFrom
  | complete tid reply =>
      obtain ⟨tr, _, _, _, _, _, _, hsvc | ⟨index, msg, _, _, hmap⟩⟩ := complete_cases hs
      · exact hsame _ (by rw [hsvc])
      · exact .of_completion hmap
  | resume tid status =>
      obtain ⟨x, tr, _, _, _, _, _, _, ⟨index, msg, _, _, hmap, _⟩ | ⟨_, hsvc, _⟩ | ⟨_, hsvc, _⟩⟩ :=
        resume_cases hs
      · exact .of_completion hmap
      · rw [hsvc]
        exact (clearAllFlowsFinish_quiets w.svc status).liveFrom
      · exact hsame _ (by rw [hsvc])

/-- A step keeps the live entries apart exactly when it meets the guard. -/
theorem keepsApart_iff {w w' : FlowWorld} {input : FlowInput} (hc : NoConflict w.svc)
    (hs : stepCalls w input = some w') : KeepsApart ⟨w, input, w'⟩ ↔ StaysApart w input := by
  have hnodelete : (∀ c, input ≠ .removeFlow c) → DeletesNoOther ⟨w, input, w'⟩ :=
    fun hne c heq => absurd heq (hne c)
  by_cases hadd : ∃ a, input = .addFlow a
  · obtain ⟨a, rfl⟩ := hadd
    exact ⟨fun h => (noConflict_callAddFlow_iff hc hs).mp h.1,
      fun h => ⟨(noConflict_callAddFlow_iff hc hs).mpr h, hnodelete (by simp)⟩⟩
  by_cases hauto : ∃ random a, input = .addFlowAuto random a
  · obtain ⟨random, a, rfl⟩ := hauto
    -- drawing a cookie comes first, and changes no entry
    have hsame := (getNextAvailableCookieId_same w.svc random).1
    have hentry := entryAt_congr hsame
    have hon : (w.svc.getNextAvailableCookieId random).2.initialized = w.svc.initialized := by
      unfold getNextAvailableCookieId
      split <;> rfl
    have hdrawn : NoConflict (w.svc.getNextAvailableCookieId random).2 :=
      hc.mono (Quiets.of_tables hsame).liveFrom
    have hguard : AddsAlone (w.svc.getNextAvailableCookieId random).2
        (a.withCookie (w.svc.getNextAvailableCookieId random).1) ↔
          StaysApart w (.addFlowAuto random a) := by
      unfold StaysApart AddsAlone admits Alone
      simp only [hentry, hsame, hon]
    rw [← hguard]
    have hiff := noConflict_callAddFlow_iff
      (w := { w with svc := (w.svc.getNextAvailableCookieId random).2 }) hdrawn hs
    exact ⟨fun h => hiff.mp h.1, fun h => ⟨hiff.mpr h, hnodelete (by simp)⟩⟩
  have hlive := liveFrom_step hs (fun a heq => hadd ⟨a, heq⟩) fun r a heq => hauto ⟨r, a, heq⟩
  by_cases hrem : ∃ cookieId, input = .removeFlow cookieId
  · obtain ⟨cookieId, rfl⟩ := hrem
    obtain rfl := Option.some.inj hs
    exact ⟨fun h => (deletesNoOther_iff hc).mp h.2,
      fun h => ⟨hc.mono hlive, (deletesNoOther_iff hc).mpr h⟩⟩
  · refine ⟨?_, ?_⟩
    · intro _
      cases input with
      | addFlow a => exact absurd ⟨a, rfl⟩ hadd
      | addFlowAuto random a => exact absurd ⟨random, a, rfl⟩ hauto
      | removeFlow cookieId => exact absurd ⟨cookieId, rfl⟩ hrem
      | _ => trivial
    · intro _
      exact ⟨hc.mono hlive, hnodelete fun c heq => hrem ⟨c, heq⟩⟩

/--
**When live entries stay apart.** In a run of the service's calls and completions
that starts without two live entries for one flow, every step keeps it so, and no
strict delete of `remove_flow` is for a flow a live entry still describes, exactly
when no add stores an entry beside a live one with the same criteria and priority,
and no entry that is not live is removed while there is such a live one.
-/
theorem live_apart_iff {w₀ w : FlowWorld} {ts : List (Transition FlowWorld FlowInput)}
    (hstart : NoConflict w₀.svc) (hr : Run stepCalls w₀ ts w) :
    (∀ t ∈ ts, KeepsApart t) ↔ ∀ t ∈ ts, StaysApart t.source t.input :=
  hr.forall_good_iff (fun _ => True) (fun w => NoConflict w.svc) trivial hstart
    (fun _ _ _ _ _ => trivial) (fun _ _ _ _ _ _ hgood => hgood.1) fun _ _ _ _ hc hs => keepsApart_iff hc hs

/-- One flow of the switch, out of this port, under this cookie, without waiting. -/
def forward (outPort : UInt16) (cookie : UInt64) : AddFlowArgs where
  description := ⟨OfMatch.clear, ⟨[.outputToPort false outPort]⟩, cookie, 100⟩
  installTimeoutMs := 0

/-- A host that moves after its old flow was removed. -/
theorem moved_after_removal_apart :
    ∃ ts w, Run stepCalls (boot [dellS48xxAclTable]) ts w ∧ w.svc.enqueued.length = 4 ∧
      ∀ t ∈ ts, KeepsApart t := by
  obtain ⟨ts, w, hr, h⟩ := Run.exists_of_test stepCalls (boot [dellS48xxAclTable])
    [.init, .init2, .init2Finish, .addFlow (forward 1 1), .removeFlow 1,
      .addFlow (forward 2 2)]
    (fun ts w => w.svc.enqueued.length == 4 &&
      ts.all fun t => StaysApart t.source t.input) (by decide +kernel)
  rw [Bool.and_eq_true, List.all_eq_true] at h
  have hstart : NoConflict (boot [dellS48xxAclTable]).svc := by decide +kernel
  exact ⟨ts, w, hr, by simpa using h.1, (live_apart_iff hstart hr).mpr (by simpa using h.2)⟩

/--
A host that moves before its old flow is removed: both entries live, for one flow
of the switch, and removing the old one deletes that flow.
-/
theorem moved_before_removal_clash :
    ∃ ts w, Run stepCalls (boot [dellS48xxAclTable]) ts w ∧ ¬ NoConflict w.svc ∧
      ¬ DeletesNoOther ⟨w, .removeFlow 1, { w with svc := (w.svc.removeFlow w.now 1).2 }⟩ := by
  obtain ⟨ts, w, hr, h⟩ := Run.exists_of_test stepCalls (boot [dellS48xxAclTable])
    [.init, .init2, .init2Finish, .addFlow (forward 1 1), .addFlow (forward 2 2)]
    (fun _ w => !decide (NoConflict w.svc) &&
      decide ((w.svc.removeFlow w.now 1).2.enqueued = w.svc.enqueued ++
        [.acknowledged (.flowMod (deleteStrictRequest (forward 1 1).description)) (.table 0)]) &&
      !decide (Alone (w.svc.removeFlow w.now 1).2 (forward 1 1).description none))
    (by decide +kernel)
  simp only [Bool.and_eq_true, Bool.not_eq_true', decide_eq_false_iff_not, decide_eq_true_eq] at h
  obtain ⟨⟨hconflict, henq⟩, hrival⟩ := h
  exact ⟨ts, w, hr, hconflict, fun hdel => hrival (hdel 1 rfl _ _ henq rfl)⟩

end IronStack.Proof
