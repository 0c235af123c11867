import IronStack.Flow.System
import IronStack.Lib.Machine
import IronStack.Proof.Service

/-!
# Steps of the flow service at work

One inversion lemma for each kind of step that has branches: adding a flow, a
completion, the end of a wait, clearing and refreshing. The invariants of a run
are all proved from these. The first of them is that the tables stay as
`TableInv` says, in every state the service can reach.
-/

namespace IronStack.Proof

open IronStack Lib FlowTable FlowService FlowWorld

/-! ## Starting, stopping and drawing cookies -/

theorem init_same {svc svc' : FlowService} (h : svc.init = some svc') :
    svc'.flowTables = svc.flowTables ∧ svc'.enqueued = svc.enqueued := by
  unfold FlowService.init at h
  split at h
  · rw [← Option.some.inj h]
    exact ⟨rfl, rfl⟩
  · split at h
    · exact absurd h (by simp)
    · rw [← Option.some.inj h]
      exact ⟨rfl, rfl⟩

theorem shutdown_same {svc svc' : FlowService} (h : svc.shutdown = some svc') :
    svc'.flowTables = svc.flowTables ∧ svc'.enqueued = svc.enqueued := by
  unfold FlowService.shutdown at h
  split at h
  · rw [← Option.some.inj h]
    exact ⟨rfl, rfl⟩
  · split at h
    · exact absurd h (by simp)
    · rw [← Option.some.inj h]
      exact ⟨rfl, rfl⟩

theorem getNextAvailableCookieId_same (svc : FlowService) (random : UInt64) :
    (svc.getNextAvailableCookieId random).2.flowTables = svc.flowTables ∧
      (svc.getNextAvailableCookieId random).2.enqueued = svc.enqueued := by
  unfold getNextAvailableCookieId
  split <;> exact ⟨rfl, rfl⟩

/-! ## Adding, completing and waking up -/

/-- The two ways `add_flow` changes the world. -/
theorem callAddFlow_cases {w w' : FlowWorld} {a : AddFlowArgs} (h : w.callAddFlow a = some w') :
    (admits w.svc a = none ∧ w' = w) ∨
      ∃ index result, admits w.svc a = some index ∧
        Installs w.now w.svc a index result w'.svc ∧
        w'.now = w.now ∧ w'.completed = w.completed ∧ w'.acknowledged = w.acknowledged ∧
        (w'.waiters = w.waiters ∨ w'.waiters =
          w.waiters ++ [⟨w.svc.enqueued.length, a.installTimeoutMs, .addFlow index⟩]) ∧
        w'.installer = (fun i c => if i = index ∧ c = a.description.cookie
          then some w.svc.enqueued.length else w.installer i c) ∧
        w'.reported = fun i c => if i = index ∧ c = a.description.cookie
          then false else w.reported i c := by
  unfold callAddFlow at h
  cases hadd : w.svc.addFlow w.now a with
  | none => simp [hadd] at h
  | some r =>
      obtain ⟨result, svc⟩ := r
      simp only [hadd] at h
      rcases addFlow_cases hadd with ⟨hnone, rfl, c, rfl⟩ | ⟨index, hsome, hinst⟩
      · simp only [if_true, Option.some.injEq] at h
        exact Or.inl ⟨hnone, h.symm⟩
      · refine Or.inr ⟨index, result, hsome, ?_⟩
        obtain ⟨tr, henq, _⟩ := hinst.sent
        rw [hinst.fits, henq, List.length_append, if_neg (by simp)] at h
        rcases hinst.result with rfl | rfl <;> dsimp only at h <;>
          obtain rfl := Option.some.inj h
        · exact ⟨hinst, rfl, rfl, rfl, Or.inr rfl, rfl, rfl⟩
        · exact ⟨hinst, rfl, rfl, rfl, Or.inl rfl, rfl, rfl⟩

/-- What a completion does: it is recorded, and a table may hear of it. -/
theorem complete_cases {w w' : FlowWorld} {tid : Nat} {reply : Option OfpType}
    (h : w.complete tid reply = some w') :
    ∃ tr, w.svc.enqueued[tid]? = some tr ∧ w'.svc.enqueued = w.svc.enqueued ∧
      w'.installer = w.installer ∧ w'.reported = w.reported ∧
      w'.acknowledged = w.acknowledged ∧ w'.waiters = w.waiters ∧
      (w'.svc = w.svc ∨ ∃ index msg, tr.callback = some (.table index) ∧
        tr.request = .flowMod msg ∧ MappedAt index msg.flowDescription.cookie
          (completionEffect w.now msg.command reply) w.svc w'.svc) := by
  unfold complete at h
  split at h
  · rename_i tr htr _
    refine ⟨tr, htr, ?_⟩
    dsimp only at h
    split at h
    · exact absurd h (by simp)
    · obtain rfl := Option.some.inj h
      exact ⟨rfl, rfl, rfl, rfl, rfl, Or.inl rfl⟩
    · rename_i index hcb
      split at h
      · exact absurd h (by simp)
      · rename_i table ht
        obtain ⟨t', ht', rfl⟩ := Option.map_eq_some_iff.mp h
        obtain ⟨msg, hmsg, hmap⟩ := halCallback_mapped ht'
        exact ⟨rfl, rfl, rfl, rfl, rfl, Or.inr ⟨index, msg, hcb, hmsg, .of_setTable ht hmap⟩⟩
  · exact absurd h (by simp)

/-- What the end of a wait does, by the call that waited. -/
theorem resume_cases {w w' : FlowWorld} {tid : Nat} {status : Bool}
    (h : w.resume tid status = some w') :
    ∃ x tr, w.waiters.find? (·.transaction = tid) = some x ∧ w.svc.enqueued[tid]? = some tr ∧
      w'.svc.enqueued = w.svc.enqueued ∧ w'.installer = w.installer ∧
      w'.reported = w.reported ∧ w'.waiters = w.waiters.filter (·.transaction ≠ tid) ∧
      ((∃ index msg, x.call = .addFlow index ∧ tr.request = .flowMod msg ∧
          MappedAt index msg.flowDescription.cookie (completionEffect w.now msg.command none)
            w.svc w'.svc ∧
          w'.acknowledged = fun t => w.acknowledged t || (t == tid && status && w.succeeded tid)) ∨
        (x.call = .clearAllFlows ∧ w'.svc = w.svc.clearAllFlowsFinish status ∧
          w'.acknowledged = w.acknowledged) ∨
        (x.call = .refreshFlows ∧ w'.svc = w.svc ∧ w'.acknowledged = w.acknowledged)) := by
  unfold resume at h
  split at h
  · rename_i x tr hx htr
    refine ⟨x, tr, hx, htr, ?_⟩
    split at h
    · exact absurd h (by simp)
    · dsimp only at h
      split at h
      · rename_i index hcall
        obtain ⟨svc', hfin, rfl⟩ := Option.map_eq_some_iff.mp h
        obtain ⟨msg, hmsg, henq, hmap⟩ := addFlowFinish_mapped hfin
        exact ⟨henq, rfl, rfl, rfl, Or.inl ⟨index, msg, hcall, hmsg, hmap, rfl⟩⟩
      · rename_i hcall
        obtain rfl := Option.some.inj h
        refine ⟨?_, rfl, rfl, rfl, Or.inr (Or.inl ⟨hcall, rfl, rfl⟩)⟩
        cases status <;> rfl
      · rename_i hcall
        obtain rfl := Option.some.inj h
        exact ⟨rfl, rfl, rfl, rfl, Or.inr (Or.inr ⟨hcall, rfl, rfl⟩)⟩
  · exact absurd h (by simp)

/-! ## Clearing and refreshing -/

/-- What `svc'` has that `svc` did not is more transactions, none of which a table hears of. -/
def SentQuietly (svc svc' : FlowService) : Prop :=
  ∃ new, svc'.enqueued = svc.enqueued ++ new ∧ ∀ tr ∈ new, ∀ i, tr.callback ≠ some (.table i)

theorem SentQuietly.refl (svc : FlowService) : SentQuietly svc svc :=
  ⟨[], (List.append_nil _).symm, by simp⟩

theorem SentQuietly.of_eq {svc svc' : FlowService} (h : svc'.enqueued = svc.enqueued) :
    SentQuietly svc svc' :=
  ⟨[], by rw [h, List.append_nil], by simp⟩

theorem SentQuietly.trans {svc₁ svc₂ svc₃ : FlowService} (h₁ : SentQuietly svc₁ svc₂)
    (h₂ : SentQuietly svc₂ svc₃) : SentQuietly svc₁ svc₃ := by
  obtain ⟨new₁, heq₁, hnew₁⟩ := h₁
  obtain ⟨new₂, heq₂, hnew₂⟩ := h₂
  refine ⟨new₁ ++ new₂, by rw [heq₂, heq₁, List.append_assoc], fun tr htr => ?_⟩
  rcases List.mem_append.mp htr with h | h
  · exact hnew₁ tr h
  · exact hnew₂ tr h

theorem SentQuietly.enqueue (svc : FlowService) {tr : FlowTransaction}
    (h : ∀ i, tr.callback ≠ some (.table i)) : SentQuietly svc (svc.enqueueTransaction tr) := by
  refine ⟨[tr], rfl, fun tr' htr' => ?_⟩
  rw [List.mem_singleton.mp htr']
  exact h

theorem sendLastClear_sent (svc : FlowService) (timeoutMs : Int32) (request : ModifyFlow) :
    SentQuietly svc (svc.sendLastClear timeoutMs request).2 := by
  unfold sendLastClear
  split
  · exact .enqueue svc (by simp [HalTransaction.acknowledged])
  · exact .enqueue svc (by simp [HalTransaction.unacknowledged])

theorem foldl_enqueue_sent (l : List FlowEntry) (svc : FlowService) :
    SentQuietly svc (l.foldl (fun svc e =>
      svc.enqueueTransaction (.unacknowledged (.flowMod (clearRequest e.description)))) svc) := by
  induction l generalizing svc with
  | nil => exact .refl svc
  | cons e l ih =>
      rw [List.foldl_cons]
      exact (SentQuietly.enqueue svc (by simp [HalTransaction.unacknowledged])).trans (ih _)

/-- The first half of `clear_all_flows` at most slates entries for deletion. -/
theorem clearAllFlows_spec (now : Nat) (svc : FlowService) (timeoutMs : Int32) (keep : Bool) :
    SentQuietly svc (svc.clearAllFlows now timeoutMs keep).2 ∧
      ((svc.clearAllFlows now timeoutMs keep).2.flowTables = svc.flowTables ∨
        ∃ includeStatic, ∀ i c, entryAt (svc.clearAllFlows now timeoutMs keep).2 i c =
          (entryAt svc i c).map (slated now includeStatic)) := by
  unfold clearAllFlows
  have hmark : ∀ includeStatic, SentQuietly svc (svc.markAllTables now includeStatic).2 :=
    fun _ => .of_eq rfl
  split
  · exact ⟨.refl svc, Or.inl rfl⟩
  · split
    · dsimp only
      split
      · exact ⟨hmark false, Or.inr ⟨false, markAllTables_entryAt now svc false⟩⟩
      · refine ⟨(hmark false).trans ((foldl_enqueue_sent _ _).trans (sendLastClear_sent _ _ _)),
          Or.inr ⟨false, fun i c => ?_⟩⟩
        rw [← markAllTables_entryAt]
        refine entryAt_congr ?_ i c
        rw [sendLastClear_flowTables, foldl_enqueue_flowTables]
    · refine ⟨(hmark true).trans (sendLastClear_sent _ _ _), Or.inr ⟨true, fun i c => ?_⟩⟩
      rw [← markAllTables_entryAt]
      exact entryAt_congr (sendLastClear_flowTables _ _ _) i c

/-- What `clear_all_flows` does to the world up to its wait. -/
theorem clear_spec (w : FlowWorld) (timeoutMs : Int32) (keep : Bool) :
    (w.clear timeoutMs keep).svc = (w.svc.clearAllFlows w.now timeoutMs keep).2 ∧
      (w.clear timeoutMs keep).installer = w.installer ∧
      (w.clear timeoutMs keep).reported = w.reported ∧
      (w.clear timeoutMs keep).acknowledged = w.acknowledged ∧
      ∀ x ∈ (w.clear timeoutMs keep).waiters, x ∈ w.waiters ∨ x.call = .clearAllFlows := by
  unfold clear
  split <;> rename_i heq <;> rw [heq]
  · exact ⟨rfl, rfl, rfl, rfl, fun x hx => Or.inl hx⟩
  · refine ⟨rfl, rfl, rfl, rfl, fun x hx => ?_⟩
    rcases List.mem_append.mp hx with h | h
    · exact Or.inl h
    · rw [List.mem_singleton.mp h]
      exact Or.inr rfl

theorem refreshFlows_spec (svc : FlowService) (timeoutMs : Int32) :
    SentQuietly svc (svc.refreshFlows timeoutMs).2 ∧
      (svc.refreshFlows timeoutMs).2.flowTables = svc.flowTables := by
  unfold refreshFlows
  split
  · exact ⟨.refl svc, rfl⟩
  · split
    · exact ⟨.enqueue svc (by simp [HalTransaction.acknowledged]), rfl⟩
    · exact ⟨.enqueue svc (by simp [HalTransaction.unacknowledged]), rfl⟩

/-- What `refresh_flows` does to the world up to its wait. -/
theorem refresh_spec (w : FlowWorld) (timeoutMs : Int32) :
    (w.refresh timeoutMs).svc = (w.svc.refreshFlows timeoutMs).2 ∧
      (w.refresh timeoutMs).installer = w.installer ∧
      (w.refresh timeoutMs).reported = w.reported ∧
      (w.refresh timeoutMs).acknowledged = w.acknowledged ∧
      ∀ x ∈ (w.refresh timeoutMs).waiters, x ∈ w.waiters ∨ x.call = .refreshFlows := by
  unfold refresh
  dsimp only
  split
  · refine ⟨rfl, rfl, rfl, rfl, fun x hx => ?_⟩
    rcases List.mem_append.mp hx with h | h
    · exact Or.inl h
    · rw [List.mem_singleton.mp h]
      exact Or.inr rfl
  · exact ⟨rfl, rfl, rfl, rfl, fun x hx => Or.inl hx⟩

/-! ## Steps that bring no entry to stand -/

/-- An entry of `svc'` is an entry of `svc`, or is neither being installed nor installed. -/
def Quiets (svc svc' : FlowService) : Prop :=
  ∀ i c e, entryAt svc' i c = some e → entryAt svc i c = some e ∨ e.state.isStanding = false

theorem Quiets.of_tables {svc svc' : FlowService} (h : svc'.flowTables = svc.flowTables) :
    Quiets svc svc' := by
  intro i c e he
  rw [entryAt_congr h] at he
  exact Or.inl he

theorem Quiets.of_mapped {svc svc' : FlowService} {j : Nat} {k : UInt64}
    {f : FlowEntry → FlowEntry} (h : MappedAt j k f svc svc')
    (hf : ∀ e, f e = e ∨ (f e).state.isStanding = false) : Quiets svc svc' := by
  intro i c e he
  rcases h.of_some he with ⟨_, h₀⟩ | ⟨_, e₀, h₀, rfl⟩
  · exact Or.inl h₀
  · rcases hf e₀ with heq | hs
    · rw [heq]
      exact Or.inl h₀
    · exact Or.inr hs

theorem removeFlow_quiets (now : Nat) (svc : FlowService) (cookieId : UInt64) :
    Quiets svc (svc.removeFlow now cookieId).2 := by
  rcases removeFlow_cases now svc cookieId with ⟨hsame, _⟩ | ⟨index, e, hrem⟩
  · rw [hsame]
    exact .of_tables rfl
  · exact .of_mapped hrem.mapped fun e => Or.inr (condemned_not_standing now e)

theorem clearAllFlows_quiets (now : Nat) (svc : FlowService) (timeoutMs : Int32) (keep : Bool) :
    Quiets svc (svc.clearAllFlows now timeoutMs keep).2 := by
  rcases (clearAllFlows_spec now svc timeoutMs keep).2 with htab | ⟨includeStatic, hmap⟩
  · exact .of_tables htab
  · intro i c e he
    rw [hmap] at he
    obtain ⟨e₀, h₀, rfl⟩ := Option.map_eq_some_iff.mp he
    by_cases hs : (slated now includeStatic e₀).state.isStanding = true
    · rw [(slated_standing hs).1]
      exact Or.inl h₀
    · exact Or.inr (by simpa using hs)

theorem clearAllFlowsFinish_quiets (svc : FlowService) (status : Bool) :
    Quiets svc (svc.clearAllFlowsFinish status) := by
  intro i c e he
  rw [clearAllFlowsFinish_entryAt] at he
  split at he
  · exact absurd he (by simp)
  · exact Or.inl he

theorem flowRemovedHandler_quiets (now : Nat) (svc : FlowService) (cookie : UInt64) :
    Quiets svc (svc.flowRemovedHandler now cookie) := by
  intro i c e he
  rw [flowRemovedHandler_entryAt] at he
  split at he
  · obtain ⟨e₀, _, rfl⟩ := Option.map_eq_some_iff.mp he
    exact Or.inr rfl
  · exact Or.inl he

/-! ## Where entries come from -/

/-- How one step of the world can leave an entry under a cookie. -/
inductive EntryStep (w : FlowWorld) (i : Nat) (c : UInt64) (e : FlowEntry) : Prop
  /-- It was there before. -/
  | kept : entryAt w.svc i c = some e → EntryStep w i c e
  /-- `add_flow` stored it. -/
  | added (a : AddFlowArgs) : c = a.description.cookie → e = newEntry w.now a → EntryStep w i c e
  /-- It was marked. -/
  | marked (e₀ : FlowEntry) : entryAt w.svc i c = some e₀ →
      (e = installed w.now e₀ ∨ e = condemned w.now e₀ ∨ e = buried w.now e₀ ∨
        ∃ includeStatic, e = slated w.now includeStatic e₀) → EntryStep w i c e
  /-- A refresh confirmed or adopted it. -/
  | refreshed (f : FlowDescriptionAndStats) : f.cookie = c →
      (e = adopted w.now f ∨ ∃ e₀, entryAt w.svc i c = some e₀ ∧ e = confirmed w.now e₀) →
      EntryStep w i c e

theorem EntryStep.of_mapped {w : FlowWorld} {svc' : FlowService} {i j : Nat} {k c : UInt64}
    {f : FlowEntry → FlowEntry} {e : FlowEntry} (h : MappedAt i k f w.svc svc')
    (hf : f = installed w.now ∨ f = condemned w.now ∨ f = buried w.now ∨ f = id)
    (he : entryAt svc' j c = some e) : EntryStep w j c e := by
  rcases h.of_some he with ⟨_, h₀⟩ | ⟨_, e₀, h₀, rfl⟩
  · exact .kept h₀
  · rcases hf with rfl | rfl | rfl | rfl
    · exact .marked e₀ h₀ (Or.inl rfl)
    · exact .marked e₀ h₀ (Or.inr (Or.inl rfl))
    · exact .marked e₀ h₀ (Or.inr (Or.inr (Or.inl rfl)))
    · exact .kept h₀

theorem EntryStep.of_completion {w : FlowWorld} {svc' : FlowService} {i j : Nat} {k c : UInt64}
    {cmd : FlowModCommand} {reply : Option OfpType} {e : FlowEntry}
    (h : MappedAt i k (completionEffect w.now cmd reply) w.svc svc')
    (he : entryAt svc' j c = some e) : EntryStep w j c e := by
  refine .of_mapped h ?_ he
  rcases completionEffect_cases w.now cmd reply with h | h | h <;> simp [h]

theorem EntryStep.of_congr {w : FlowWorld} {svc' : FlowService} {i : Nat} {c : UInt64}
    {e : FlowEntry} (h : svc'.flowTables = w.svc.flowTables) (he : entryAt svc' i c = some e) :
    EntryStep w i c e :=
  .kept (by rwa [entryAt_congr h] at he)

theorem EntryStep.of_callAddFlow {w w' : FlowWorld} {a : AddFlowArgs} {i : Nat} {c : UInt64}
    {e : FlowEntry} (h : w.callAddFlow a = some w') (he : entryAt w'.svc i c = some e) :
    EntryStep w i c e := by
  rcases callAddFlow_cases h with ⟨_, rfl⟩ | ⟨index, _, _, hinst, _⟩
  · exact .kept he
  · rw [hinst.lookup] at he
    by_cases hic : i = index ∧ c = a.description.cookie
    · rw [if_pos hic] at he
      exact .added a hic.2 (Option.some.inj he).symm
    · rw [if_neg hic] at he
      exact .kept he

/-- **Every entry after a step is accounted for.** -/
theorem step_entry {w w' : FlowWorld} {input : FlowInput} (hinv : ServiceInv w.svc)
    (h : w.step input = some w') {i : Nat} {c : UInt64} {e : FlowEntry}
    (he : entryAt w'.svc i c = some e) : EntryStep w i c e := by
  cases input with
  | tick ns =>
      obtain rfl := Option.some.inj h
      exact .kept he
  | init =>
      obtain ⟨svc', hsvc, rfl⟩ := Option.map_eq_some_iff.mp h
      exact .of_congr (init_same hsvc).1 he
  | init2 =>
      obtain rfl := Option.some.inj h
      exact .kept he
  | init2Finish =>
      obtain rfl := Option.some.inj h
      exact .kept he
  | shutdown =>
      obtain ⟨svc', hsvc, rfl⟩ := Option.map_eq_some_iff.mp h
      exact .of_congr (shutdown_same hsvc).1 he
  | addFlow a => exact .of_callAddFlow h he
  | addFlowAuto random a =>
      -- drawing the cookie comes first and changes no entry
      have hdraw := (getNextAvailableCookieId_same w.svc random).1
      rcases EntryStep.of_callAddFlow (w := { w with svc := (w.svc.getNextAvailableCookieId random).2 })
        h he with h₀ | ⟨a', hc, hnew⟩ | ⟨e₀, h₀, hm⟩ | ⟨f, hf, hr⟩
      · exact .of_congr hdraw h₀
      · exact .added a' hc hnew
      · exact .marked e₀ (by rwa [entryAt_congr hdraw] at h₀) hm
      · refine .refreshed f hf (hr.imp_right ?_)
        intro ⟨e₀, h₀, hcf⟩
        exact ⟨e₀, by rwa [entryAt_congr hdraw] at h₀, hcf⟩
  | removeFlow cookieId =>
      obtain rfl := Option.some.inj h
      rcases removeFlow_cases w.now w.svc cookieId with ⟨hsame, _⟩ | ⟨index, e₀, hrem⟩
      · dsimp only at he
        rw [hsame] at he
        exact .kept he
      · exact .of_mapped hrem.mapped (Or.inr (Or.inl rfl)) he
  | clearAllFlows timeoutMs keep =>
      obtain rfl := Option.some.inj h
      obtain ⟨hsvc, _⟩ := clear_spec w timeoutMs keep
      rw [hsvc] at he
      rcases (clearAllFlows_spec w.now w.svc timeoutMs keep).2 with htab | ⟨includeStatic, hmap⟩
      · exact .of_congr htab he
      · rw [hmap] at he
        obtain ⟨e₀, h₀, rfl⟩ := Option.map_eq_some_iff.mp he
        exact .marked e₀ h₀ (Or.inr (Or.inr (Or.inr ⟨includeStatic, rfl⟩)))
  | refreshFlows timeoutMs =>
      obtain rfl := Option.some.inj h
      rw [(refresh_spec w timeoutMs).1] at he
      exact .of_congr (refreshFlows_spec w.svc timeoutMs).2 he
  | statsReply flowStats moreToFollow =>
      obtain ⟨svc', hsvc, rfl⟩ := Option.map_eq_some_iff.mp h
      cases moreToFollow with
      | true =>
          rcases flowUpdateHandler_cases hsvc with ⟨_, rfl⟩ | ⟨hmore, _⟩
          · exact .kept he
          · exact absurd hmore (by simp)
      | false =>
          rcases flowUpdateHandler_some hinv hsvc he with ⟨f, _, hc, hr⟩ | ⟨e₀, h₀, _, rfl⟩
          · exact .refreshed f hc hr
          · exact .marked e₀ h₀ (Or.inr (Or.inr (Or.inl rfl)))
  | flowRemoved cookie =>
      obtain rfl := Option.some.inj h
      dsimp only at he
      rw [flowRemovedHandler_entryAt] at he
      split at he
      · obtain ⟨e₀, h₀, rfl⟩ := Option.map_eq_some_iff.mp he
        exact .marked e₀ h₀ (Or.inr (Or.inr (Or.inl rfl)))
      · exact .kept he
  | complete tid reply =>
      obtain ⟨tr, _, _, _, _, _, _, hsvc | ⟨index, msg, _, _, hmap⟩⟩ := complete_cases h
      · rw [hsvc] at he
        exact .kept he
      · exact .of_completion hmap he
  | resume tid status =>
      obtain ⟨x, tr, _, _, _, _, _, _, ⟨index, msg, _, _, hmap, _⟩ | ⟨_, hsvc, _⟩ | ⟨_, hsvc, _⟩⟩ :=
        resume_cases h
      · exact .of_completion hmap he
      · rw [hsvc, clearAllFlowsFinish_entryAt] at he
        split at he
        · exact absurd he (by simp)
        · exact .kept he
      · rw [hsvc] at he
        exact .kept he

/-! ## The tables of a reachable state -/

theorem serviceInv_boot (tables : List FlowTable) : ServiceInv (boot tables).svc := by
  intro t ht
  obtain ⟨t₀, _, rfl⟩ := List.mem_map.mp ht
  exact tableInv_empty t₀.checkFit t₀.maxCapacity

theorem serviceInv_step {w w' : FlowWorld} {input : FlowInput} (hinv : ServiceInv w.svc)
    (h : w.step input = some w') : ServiceInv w'.svc := by
  refine serviceInv_of_origin hinv fun i c e he => ?_
  cases step_entry hinv h he with
  | kept h₀ => exact Or.inl ⟨e, h₀, rfl, rfl⟩
  | added a hc hnew =>
      subst hnew
      exact Or.inr ⟨hc.symm, rfl⟩
  | marked e₀ h₀ hm =>
      rcases hm with rfl | rfl | rfl | ⟨includeStatic, rfl⟩ <;>
        exact Or.inl ⟨e₀, h₀, by simp, by simp⟩
  | refreshed f hf hr =>
      rcases hr with rfl | ⟨e₀, h₀, rfl⟩
      · exact Or.inr ⟨hf, rfl⟩
      · exact Or.inl ⟨e₀, h₀, by simp, by simp⟩

/-- **In every reachable state entries sit under their own cookies, unmarked.** -/
theorem serviceInv_reachable {tables : List FlowTable} {ts : List (Transition FlowWorld FlowInput)}
    {w : FlowWorld} (hr : Run step (boot tables) ts w) : ServiceInv w.svc :=
  (hr.invariant (fun w => ServiceInv w.svc) (serviceInv_boot tables)
    fun _ _ _ hu hs => serviceInv_step hu hs).1

/-! ## A service to try things on -/

/-- A request for the flow that matches everything and does nothing, without waiting. -/
def bareAdd (cookie : UInt64) : AddFlowArgs where
  description := ⟨OfMatch.clear, OpenflowActionList.clear, cookie, 100⟩
  installTimeoutMs := 0

/-- Bring the service up over a switch without flows. -/
def bringUp : List FlowInput := [.init, .init2, .statsReply [] false, .init2Finish]

end IronStack.Proof
