import IronStack.Proof.World

/-!
# Which active flows the switch confirmed

An entry should be ACTIVE only if the transaction that was to install it was
acknowledged, or a refresh reported its cookie. The refresh path keeps to that,
and so do completions: only deletes report back to a table. The waiting path of
`add_flow` does not. When its wait is over it calls the table's `hal_callback`
with a null reply whatever happened, so an error reply and a timeout both mark
the entry ACTIVE, and so does the wait of an earlier call whose cookie was used
again in the meantime.

The guard below says when the end of a wait is harmless. Both directions go
through one invariant: an entry that still waits to be installed has neither been
reported since it was added, nor has its transaction been seen acknowledged.
-/

namespace IronStack.Proof

open IronStack Lib FlowTable FlowService FlowWorld

/-! ## The property -/

/-- Every active entry was reported, or its transaction was acknowledged in time. -/
def ActiveConfirmed (w : FlowWorld) : Prop :=
  ∀ i c e, entryAt w.svc i c = some e → e.state = .active →
    w.reported i c = true ∨ ∃ tid, w.installer i c = some tid ∧ w.acknowledged tid = true

/-- The entry an `add_flow` call blocked on this transaction waits for. -/
def awaited (w : FlowWorld) (tid : Nat) : Option (Nat × UInt64) :=
  match w.waiters.find? (·.transaction = tid), w.svc.enqueued[tid]? with
  | some x, some tr =>
      match x.call, tr.request with
      | .addFlow index, .flowMod msg => some (index, msg.flowDescription.cookie)
      | _, _ => none
  | _, _ => none

/-- The wait timed out, or an error reply came. -/
def WaitFailed (w : FlowWorld) (tid : Nat) (status : Bool) : Prop :=
  status = false ∨ w.reply? tid = some (some .error)

/-- An `add_flow` call whose wait failed does not leave its entry active. -/
def FailureNotActive (t : Transition FlowWorld FlowInput) : Prop :=
  ∀ tid status, t.input = .resume tid status → WaitFailed t.source tid status →
    ∀ i c, awaited t.source tid = some (i, c) →
      ∀ e, entryAt t.target.svc i c = some e → e.state ≠ .active

/-- Active entries are confirmed after the step, and a failed call leaves none. -/
def ConfirmsActive (t : Transition FlowWorld FlowInput) : Prop :=
  ActiveConfirmed t.target ∧ FailureNotActive t

/--
The end of a wait is harmless: if the awaited entry is still to be installed, it
is the one the call added, and its transaction was acknowledged in time; and if
the wait failed, the entry is not active either.
-/
def HarmlessResume (w : FlowWorld) : FlowInput → Prop
  | .resume tid status => ∀ place ∈ awaited w tid, ∀ e ∈ entryAt w.svc place.1 place.2,
      (e.state = .pendingInstallation →
        w.installer place.1 place.2 = some tid ∧ w.succeeded tid = true ∧ status = true) ∧
      (WaitFailed w tid status → e.state ≠ .active)
  | _ => True

instance (w : FlowWorld) (tid : Nat) (status : Bool) : Decidable (WaitFailed w tid status) :=
  inferInstanceAs (Decidable (_ ∨ _))

instance (w : FlowWorld) : DecidablePred (HarmlessResume w)
  | .resume tid _ => inferInstanceAs (Decidable (∀ place ∈ awaited w tid,
      ∀ e ∈ entryAt w.svc place.1 place.2, _ ∧ _))
  | .tick _ | .init | .init2 | .init2Finish | .shutdown | .addFlow _ | .addFlowAuto _ _
  | .removeFlow _ | .clearAllFlows _ _ | .refreshFlows _ | .statsReply _ _ | .flowRemoved _
  | .complete _ _ => .isTrue trivial

/-! ## The invariant -/

/-- A transaction whose completion a table hears of is a strict delete. -/
def TableDeletes (tr : FlowTransaction) : Prop :=
  ∀ i, tr.callback = some (.table i) → ∃ d, tr.request = .flowMod (deleteStrictRequest d)

/-- What keeps entries from becoming active unconfirmed. -/
structure InstallInv (w : FlowWorld) : Prop where
  tables : ServiceInv w.svc
  /-- Tables only hear of deletes. -/
  deletes : ∀ tr ∈ w.svc.enqueued, TableDeletes tr
  /-- A blocked `add_flow` waits on its own request, for an entry nobody else's transaction has. -/
  waiting : ∀ x ∈ w.waiters, ∀ i, x.call = .addFlow i →
    ∃ tr a, w.svc.enqueued[x.transaction]? = some tr ∧ tr.request = .flowMod (addRequest a) ∧
      ∀ j c, w.installer j c = some x.transaction → j = i ∧ c = a.description.cookie
  /-- The transaction that is to install an entry was sent. -/
  installer : ∀ i c tid, w.installer i c = some tid → tid < w.svc.enqueued.length
  /-- So was every acknowledged one. -/
  acknowledged : ∀ tid, w.acknowledged tid = true → tid < w.svc.enqueued.length
  /-- An entry still to be installed is unconfirmed. -/
  pending : ∀ i c e, entryAt w.svc i c = some e → e.state = .pendingInstallation →
    w.reported i c = false ∧ ∀ tid, w.installer i c = some tid → w.acknowledged tid = false

theorem installInv_boot (tables : List FlowTable) : InstallInv (boot tables) where
  tables := serviceInv_boot tables
  deletes := by simp [boot]
  waiting := by simp [boot]
  installer := by simp [boot]
  acknowledged := by simp [boot]
  pending := by
    intro i c e he
    obtain ⟨t, ht, he⟩ := entryAt_eq_some.mp he
    obtain ⟨t₀, _, rfl⟩ := List.mem_map.mp (List.mem_of_getElem? ht)
    exact absurd he (by simp)

theorem activeConfirmed_boot (tables : List FlowTable) : ActiveConfirmed (boot tables) := by
  intro i c e he
  obtain ⟨t, ht, he⟩ := entryAt_eq_some.mp he
  obtain ⟨t₀, _, rfl⟩ := List.mem_map.mp (List.mem_of_getElem? ht)
  exact absurd he (by simp)

/-- More transactions were sent, none of which makes a table install anything. -/
def SentSafely (svc svc' : FlowService) : Prop :=
  ∃ new, svc'.enqueued = svc.enqueued ++ new ∧ ∀ tr ∈ new, TableDeletes tr

theorem SentQuietly.safely {svc svc' : FlowService} (h : SentQuietly svc svc') :
    SentSafely svc svc' := by
  obtain ⟨new, heq, hnew⟩ := h
  exact ⟨new, heq, fun tr htr i hcb => absurd hcb (hnew tr htr i)⟩

/--
The steps that install nothing: the ghosts stay (but a refresh may report more),
no `add_flow` call goes to sleep, and what stands stood before.
-/
structure InstallFrame (w w' : FlowWorld) : Prop where
  sent : SentSafely w.svc w'.svc
  waiters : ∀ x ∈ w'.waiters, x ∈ w.waiters ∨ ∀ i, x.call ≠ .addFlow i
  installer : w'.installer = w.installer
  acknowledged : w'.acknowledged = w.acknowledged
  /-- An entry to be installed was to be installed before. -/
  pending : ∀ i c e, entryAt w'.svc i c = some e → e.state = .pendingInstallation →
    w'.reported i c = w.reported i c ∧
      ∃ e₀, entryAt w.svc i c = some e₀ ∧ e₀.state = .pendingInstallation
  /-- An active entry was active before, or is reported now. -/
  active : ∀ i c e, entryAt w'.svc i c = some e → e.state = .active →
    w'.reported i c = true ∨ (w'.reported i c = w.reported i c ∧
      ∃ e₀, entryAt w.svc i c = some e₀ ∧ e₀.state = .active)

/-- Steps that bring no entry to stand, and leave the ghosts alone. -/
theorem InstallFrame.of_quiets {w w' : FlowWorld} (hsent : SentSafely w.svc w'.svc)
    (hwaiters : ∀ x ∈ w'.waiters, x ∈ w.waiters ∨ ∀ i, x.call ≠ .addFlow i)
    (hinst : w'.installer = w.installer) (hack : w'.acknowledged = w.acknowledged)
    (hrep : w'.reported = w.reported) (hquiet : Quiets w.svc w'.svc) : InstallFrame w w' where
  sent := hsent
  waiters := hwaiters
  installer := hinst
  acknowledged := hack
  pending i c e he hs := by
    rcases hquiet i c e he with h₀ | hn
    · exact ⟨by rw [hrep], e, h₀, hs⟩
    · rw [hs] at hn
      exact absurd hn (by simp [FlowState.isStanding])
  active i c e he hs := by
    rcases hquiet i c e he with h₀ | hn
    · exact Or.inr ⟨by rw [hrep], e, h₀, hs⟩
    · rw [hs] at hn
      exact absurd hn (by simp [FlowState.isStanding])

/-- Steps of the service alone. -/
theorem InstallFrame.of_service {w : FlowWorld} {svc' : FlowService}
    (hsent : SentSafely w.svc svc') (hquiet : Quiets w.svc svc') :
    InstallFrame w { w with svc := svc' } :=
  .of_quiets hsent (fun _ hx => Or.inl hx) rfl rfl rfl hquiet

theorem InstallInv.frame {w w' : FlowWorld} (h : InstallInv w) (htables : ServiceInv w'.svc)
    (hf : InstallFrame w w') : InstallInv w' := by
  obtain ⟨new, henq, hnew⟩ := hf.sent
  refine ⟨htables, ?_, ?_, ?_, ?_, ?_⟩
  · intro tr htr
    rw [henq] at htr
    rcases List.mem_append.mp htr with htr | htr
    · exact h.deletes tr htr
    · exact hnew tr htr
  · intro x hx i hcall
    rcases hf.waiters x hx with hx | hx
    · obtain ⟨tr, a, htr, hreq, hplace⟩ := h.waiting x hx i hcall
      refine ⟨tr, a, ?_, hreq, by rwa [hf.installer]⟩
      rw [henq, List.getElem?_append_left (List.getElem?_eq_some_iff.mp htr).1]
      exact htr
    · exact absurd hcall (hx i)
  · intro i c tid hi
    rw [hf.installer] at hi
    have := h.installer i c tid hi
    rw [henq, List.length_append]
    omega
  · intro tid ht
    rw [hf.acknowledged] at ht
    have := h.acknowledged tid ht
    rw [henq, List.length_append]
    omega
  · intro i c e he hs
    obtain ⟨hrep, e₀, he₀, hs₀⟩ := hf.pending i c e he hs
    rw [hrep, hf.installer, hf.acknowledged]
    exact h.pending i c e₀ he₀ hs₀

theorem ActiveConfirmed.frame {w w' : FlowWorld} (h : ActiveConfirmed w)
    (hf : InstallFrame w w') : ActiveConfirmed w' := by
  intro i c e he hs
  rcases hf.active i c e he hs with hrep | ⟨hrep, e₀, he₀, hs₀⟩
  · exact Or.inl hrep
  · rw [hrep, hf.installer, hf.acknowledged]
    exact h i c e₀ he₀ hs₀

/-! ## The steps -/

/-- A completion a table hears of is that of a delete, and installs nothing. -/
theorem installFrame_complete {w w' : FlowWorld} {tid : Nat} {reply : Option OfpType}
    (h : InstallInv w) (hs : w.complete tid reply = some w') : InstallFrame w w' := by
  obtain ⟨tr, htr, henq, hinst, hrep, hack, hwait, hsvc⟩ := complete_cases hs
  refine .of_quiets (SentQuietly.safely (.of_eq henq)) (fun x hx => Or.inl (hwait ▸ hx)) hinst hack
    hrep ?_
  rcases hsvc with hsvc | ⟨index, msg, hcb, hreq, hmap⟩
  · rw [hsvc]
    exact .of_tables rfl
  · obtain ⟨d, hd⟩ := h.deletes tr (List.mem_of_getElem? htr) index hcb
    have hcmd : msg.command = .deleteStrict := by
      rw [hreq] at hd
      rw [FlowRequest.flowMod.inj hd]
      rfl
    rw [hcmd] at hmap
    refine .of_mapped hmap fun e => ?_
    unfold completionEffect removeEffect
    dsimp only
    split
    · exact Or.inr rfl
    · exact Or.inl rfl

/-- What stands after a refresh is active and was reported. -/
theorem installFrame_update {w w' : FlowWorld} {flowStats : List FlowDescriptionAndStats}
    {more : Bool} (h : InstallInv w) (hs : w.update flowStats more = some w') :
    InstallFrame w w' := by
  obtain ⟨svc', hsvc, rfl⟩ := Option.map_eq_some_iff.mp hs
  cases more with
  | true =>
      rcases flowUpdateHandler_cases hsvc with ⟨_, rfl⟩ | ⟨hmore, _⟩
      · exact .of_quiets (SentQuietly.safely (.of_eq rfl)) (fun x hx => Or.inl hx) rfl rfl rfl
          (.of_tables rfl)
      · exact absurd hmore (by simp)
  | false =>
      have hstand : ∀ i c e, entryAt svc' i c = some e → e.state.isStanding = true →
          e.state = .active ∧ ∃ f ∈ w.svc.pendingFlows ++ flowStats, f.cookie = c := by
        intro i c e he hstand
        rcases flowUpdateHandler_some h.tables hsvc he with
          ⟨f, hf, hc, rfl | ⟨e₀, _, rfl⟩⟩ | ⟨e₀, _, _, rfl⟩
        · exact ⟨rfl, f, hf, hc⟩
        · -- a reported entry that stands was confirmed, so it is active
          refine ⟨?_, f, hf, hc⟩
          unfold confirmed at hstand ⊢
          cases hs₀ : e₀.state <;> simp_all [FlowState.isStanding]
        · exact absurd hstand (by simp [FlowState.isStanding])
      rcases flowUpdateHandler_cases hsvc with ⟨hmore, _⟩ | ⟨_, henq, _⟩
      · exact absurd hmore (by simp)
      · refine ⟨SentQuietly.safely (.of_eq henq), fun x hx => Or.inl hx, rfl, rfl, ?_, ?_⟩
        · intro i c e he hst
          have := (hstand i c e he (by rw [hst]; rfl)).1
          rw [hst] at this
          exact absurd this (by simp)
        · intro i c e he hst
          obtain ⟨_, f, hf, hc⟩ := hstand i c e he (by rw [hst]; rfl)
          refine Or.inl ?_
          simp only [Bool.false_eq_true, if_false, Bool.or_eq_true, List.any_eq_true,
            beq_iff_eq]
          exact Or.inr ⟨f, hf, hc⟩

/-- Adding a flow: the new entry is still to be installed, by a transaction nobody has seen. -/
theorem installInv_callAddFlow {w w' : FlowWorld} {a : AddFlowArgs} (h : InstallInv w)
    (htables : ServiceInv w'.svc) (hs : w.callAddFlow a = some w') : InstallInv w' := by
  rcases callAddFlow_cases hs with ⟨_, rfl⟩ |
    ⟨index, result, _, hinst, _, _, hack, hwait, hinstaller, hreported⟩
  · exact h
  · obtain ⟨tr, henq, hreq, hcb⟩ := hinst.sent
    refine ⟨htables, ?_, ?_, ?_, ?_, ?_⟩
    · intro tr' htr'
      rw [henq] at htr'
      rcases List.mem_append.mp htr' with htr' | htr'
      · exact h.deletes tr' htr'
      · rw [List.mem_singleton.mp htr']
        exact fun i hi => absurd hi (hcb i)
    · -- calls that waited before keep their places; the new call waits on the last transaction
      intro x hx i hcall
      have hold : x ∈ w.waiters → ∃ tr a, w'.svc.enqueued[x.transaction]? = some tr ∧
          tr.request = .flowMod (addRequest a) ∧
          ∀ j c, w'.installer j c = some x.transaction → j = i ∧ c = a.description.cookie := by
        intro hx
        obtain ⟨tr', a', htr', hreq', hplace⟩ := h.waiting x hx i hcall
        have hlt := (List.getElem?_eq_some_iff.mp htr').1
        refine ⟨tr', a', by rw [henq, List.getElem?_append_left hlt, htr'], hreq', ?_⟩
        intro j c hj
        rw [hinstaller] at hj
        dsimp only at hj
        split at hj
        · have := Option.some.inj hj
          omega
        · exact hplace j c hj
      rcases hwait with hwait | hwait
      · exact hold (hwait ▸ hx)
      · rw [hwait] at hx
        rcases List.mem_append.mp hx with hx | hx
        · exact hold hx
        · obtain rfl := List.mem_singleton.mp hx
          obtain rfl : index = i := by simpa using hcall
          refine ⟨tr, a, by rw [henq]; simp, hreq, ?_⟩
          intro j c hj
          rw [hinstaller] at hj
          dsimp only at hj
          split at hj
          · rename_i hjc
            exact hjc
          · exact absurd (h.installer j c _ hj) (Nat.lt_irrefl _)
    · intro i c tid hi
      rw [hinstaller] at hi
      dsimp only at hi
      rw [henq, List.length_append, List.length_singleton]
      split at hi
      · have := Option.some.inj hi
        omega
      · have := h.installer i c tid hi
        omega
    · intro tid ht
      rw [hack] at ht
      have := h.acknowledged tid ht
      rw [henq, List.length_append]
      omega
    · intro i c e he hst
      rw [hinstaller, hreported, hack]
      rw [hinst.lookup] at he
      dsimp only
      by_cases hic : i = index ∧ c = a.description.cookie
      · rw [if_pos hic, if_pos hic]
        refine ⟨rfl, fun tid ht => ?_⟩
        -- the transaction was sent only now
        by_contra hacked
        have := h.acknowledged tid (by simpa using hacked)
        have := Option.some.inj ht
        omega
      · rw [if_neg hic] at he
        rw [if_neg hic, if_neg hic]
        exact h.pending i c e he hst

theorem activeConfirmed_callAddFlow {w w' : FlowWorld} {a : AddFlowArgs} (hc : ActiveConfirmed w)
    (hs : w.callAddFlow a = some w') : ActiveConfirmed w' := by
  rcases callAddFlow_cases hs with ⟨_, rfl⟩ | ⟨index, result, _, hinst, _, _, hack, _, hinstaller, hrep⟩
  · exact hc
  · intro i c e he hst
    rw [hinst.lookup] at he
    rw [hinstaller, hrep, hack]
    dsimp only
    by_cases hic : i = index ∧ c = a.description.cookie
    · rw [if_pos hic] at he
      rw [← Option.some.inj he] at hst
      exact absurd hst (by simp)
    · rw [if_neg hic] at he
      rw [if_neg hic, if_neg hic]
      exact hc i c e he hst

/-- What the end of the wait of an `add_flow` call for the entry `(index, cookie)` does. -/
structure WakesAdd (w : FlowWorld) (tid : Nat) (status : Bool) (index : Nat) (cookie : UInt64)
    (w' : FlowWorld) : Prop where
  awaited : awaited w tid = some (index, cookie)
  issued : tid < w.svc.enqueued.length
  /-- The entry is marked as installed. -/
  mapped : MappedAt index cookie (installed w.now) w.svc w'.svc
  /-- No other entry has this transaction. -/
  place : ∀ j k, w.installer j k = some tid → j = index ∧ k = cookie
  enqueued : w'.svc.enqueued = w.svc.enqueued
  installer : w'.installer = w.installer
  reported : w'.reported = w.reported
  waiters : ∀ x ∈ w'.waiters, x ∈ w.waiters
  acknowledged : w'.acknowledged =
    fun t => w.acknowledged t || (t == tid && status && w.succeeded tid)

/-- The end of a wait installs the entry of an `add_flow` call, or installs nothing. -/
theorem resume_split {w w' : FlowWorld} {tid : Nat} {status : Bool} (h : InstallInv w)
    (hs : w.resume tid status = some w') :
    (∃ index cookie, WakesAdd w tid status index cookie w') ∨
      (awaited w tid = none ∧ InstallFrame w w') := by
  obtain ⟨x, tr, hx, htr, henq, hinst, hrep, hwait, hcase⟩ := resume_cases hs
  have hsub : ∀ y ∈ w'.waiters, y ∈ w.waiters := by
    rw [hwait]
    exact fun y hy => (List.mem_filter.mp hy).1
  rcases hcase with ⟨index, msg, hcall, hreq, hmap, hack⟩ | ⟨hcall, hsvc, hack⟩ | ⟨hcall, hsvc, hack⟩
  · refine Or.inl ⟨index, msg.flowDescription.cookie, ?_⟩
    have hxtid : x.transaction = tid := by simpa using List.find?_some hx
    obtain ⟨tr', a, htr', hreq', hplace⟩ := h.waiting x (List.mem_of_find?_eq_some hx) index hcall
    rw [hxtid] at htr' hplace
    rw [htr] at htr'
    obtain rfl := Option.some.inj htr'
    rw [hreq] at hreq'
    obtain rfl := FlowRequest.flowMod.inj hreq'
    refine ⟨?_, (List.getElem?_eq_some_iff.mp htr).1, hmap, hplace, henq, hinst, hrep, hsub, hack⟩
    unfold awaited
    simp only [hx, htr, hcall, hreq]
  · refine Or.inr ⟨?_, ?_⟩
    · unfold awaited
      simp only [hx, htr, hcall]
    · refine .of_quiets (SentQuietly.safely (.of_eq henq)) (fun y hy => Or.inl (hsub y hy)) hinst
        hack hrep ?_
      rw [hsvc]
      exact clearAllFlowsFinish_quiets w.svc status
  · refine Or.inr ⟨?_, ?_⟩
    · unfold awaited
      simp only [hx, htr, hcall]
    · refine .of_quiets (SentQuietly.safely (.of_eq henq)) (fun y hy => Or.inl (hsub y hy)) hinst
        hack hrep ?_
      rw [hsvc]
      exact .of_tables rfl

theorem installInv_wakesAdd {w w' : FlowWorld} {tid : Nat} {status : Bool} {index : Nat}
    {cookie : UInt64} (h : InstallInv w) (htables : ServiceInv w'.svc)
    (hw : WakesAdd w tid status index cookie w') : InstallInv w' := by
  refine ⟨htables, ?_, ?_, ?_, ?_, ?_⟩
  · rw [hw.enqueued]
    exact h.deletes
  · rw [hw.enqueued, hw.installer]
    exact fun x hx => h.waiting x (hw.waiters x hx)
  · rw [hw.enqueued, hw.installer]
    exact h.installer
  · intro t ht
    rw [hw.enqueued]
    rw [hw.acknowledged] at ht
    simp only [Bool.or_eq_true, Bool.and_eq_true, beq_iff_eq] at ht
    rcases ht with ht | ⟨⟨rfl, _⟩, _⟩
    · exact h.acknowledged t ht
    · exact hw.issued
  · intro i c e he hst
    rw [hw.installer, hw.reported, hw.acknowledged]
    rcases hw.mapped.of_some he with ⟨hne, h₀⟩ | ⟨_, e₀, _, rfl⟩
    · obtain ⟨hrep, hack⟩ := h.pending i c e h₀ hst
      refine ⟨hrep, fun t ht => ?_⟩
      have htid : t ≠ tid := by
        intro heq
        subst heq
        exact hne (hw.place i c ht)
      simp [hack t ht, htid]
    · -- the awaited entry is not to be installed any more
      unfold installed at hst
      split at hst
      · exact absurd hst (by simp)
      · rename_i hne
        exact absurd hst hne

/-- **The invariant is kept by every step.** -/
theorem installInv_step {w w' : FlowWorld} {input : FlowInput} (h : InstallInv w)
    (hs : w.step input = some w') :
    InstallInv w' ∧ (ActiveConfirmed w → (∀ tid status, input ≠ .resume tid status) →
      ActiveConfirmed w') := by
  have htables := serviceInv_step h.tables hs
  have hframe : InstallFrame w w' → InstallInv w' ∧ (ActiveConfirmed w →
      (∀ tid status, input ≠ .resume tid status) → ActiveConfirmed w') :=
    fun hf => ⟨h.frame htables hf, fun hc _ => hc.frame hf⟩
  have hsame : ∀ svc', svc'.flowTables = w.svc.flowTables ∧ svc'.enqueued = w.svc.enqueued →
      InstallFrame w { w with svc := svc' } := fun svc' hsvc =>
    .of_service (SentQuietly.safely (.of_eq hsvc.2)) (.of_tables hsvc.1)
  cases input with
  | tick ns =>
      obtain rfl := Option.some.inj hs
      exact hframe (.of_quiets (SentQuietly.safely (.of_eq rfl)) (fun x hx => Or.inl hx) rfl rfl rfl
        (.of_tables rfl))
  | init =>
      obtain ⟨svc', hsvc, rfl⟩ := Option.map_eq_some_iff.mp hs
      exact hframe (hsame svc' (init_same hsvc))
  | init2 =>
      obtain rfl := Option.some.inj hs
      have hsent : SentQuietly w.svc w.svc.init2 :=
        .enqueue w.svc (by simp [HalTransaction.unacknowledged])
      exact hframe (.of_service hsent.safely (.of_tables rfl))
  | init2Finish =>
      obtain rfl := Option.some.inj hs
      exact hframe (hsame _ ⟨rfl, rfl⟩)
  | shutdown =>
      obtain ⟨svc', hsvc, rfl⟩ := Option.map_eq_some_iff.mp hs
      exact hframe (hsame svc' (shutdown_same hsvc))
  | addFlow a =>
      exact ⟨installInv_callAddFlow h htables hs, fun hc _ => activeConfirmed_callAddFlow hc hs⟩
  | addFlowAuto random a =>
      -- drawing a cookie comes first, and changes nothing the invariant is about
      have hdraw := hsame _ (getNextAvailableCookieId_same w.svc random)
      have hdrawn := h.frame
        (h.tables.congr (getNextAvailableCookieId_same w.svc random).1) hdraw
      exact ⟨installInv_callAddFlow hdrawn htables hs,
        fun hc _ => activeConfirmed_callAddFlow (hc.frame hdraw) hs⟩
  | removeFlow cookieId =>
      -- the one operation whose completion a table hears of, and it is a strict delete
      obtain rfl := Option.some.inj hs
      refine hframe (.of_service ?_ (removeFlow_quiets w.now w.svc cookieId))
      rcases removeFlow_cases w.now w.svc cookieId with ⟨hsame, _⟩ | ⟨index, e, hrem⟩
      · exact SentQuietly.safely (.of_eq (by rw [hsame]))
      · refine ⟨_, hrem.sent, fun tr htr i _ => ?_⟩
        rw [List.mem_singleton.mp htr]
        exact ⟨e.description, rfl⟩
  | clearAllFlows timeoutMs keep =>
      obtain rfl := Option.some.inj hs
      obtain ⟨hsvc, hinst, hrep, hack, hwait⟩ := clear_spec w timeoutMs keep
      refine hframe (.of_quiets ?_ (fun x hx => ?_) hinst hack hrep ?_)
      · rw [hsvc]
        exact (clearAllFlows_spec w.now w.svc timeoutMs keep).1.safely
      · exact (hwait x hx).imp_right fun hcall i => by rw [hcall]; simp
      · rw [hsvc]
        exact clearAllFlows_quiets w.now w.svc timeoutMs keep
  | refreshFlows timeoutMs =>
      obtain rfl := Option.some.inj hs
      obtain ⟨hsvc, hinst, hrep, hack, hwait⟩ := refresh_spec w timeoutMs
      refine hframe (.of_quiets ?_ (fun x hx => ?_) hinst hack hrep ?_)
      · rw [hsvc]
        exact (refreshFlows_spec w.svc timeoutMs).1.safely
      · exact (hwait x hx).imp_right fun hcall i => by rw [hcall]; simp
      · rw [hsvc]
        exact .of_tables (refreshFlows_spec w.svc timeoutMs).2
  | statsReply flowStats more => exact hframe (installFrame_update h hs)
  | flowRemoved cookie =>
      obtain rfl := Option.some.inj hs
      exact hframe (.of_service (SentQuietly.safely (.of_eq rfl))
        (flowRemovedHandler_quiets w.now w.svc cookie))
  | complete tid reply => exact hframe (installFrame_complete h hs)
  | resume tid status =>
      refine ⟨?_, fun _ hne => absurd rfl (hne tid status)⟩
      rcases resume_split h hs with ⟨index, cookie, hw⟩ | ⟨_, hf⟩
      · exact installInv_wakesAdd h htables hw
      · exact h.frame htables hf

/-- The end of a wait that confirms what it makes active is harmless. -/
theorem harmless_of_wakesAdd {w w' : FlowWorld} {tid : Nat} {status : Bool} {index : Nat}
    {cookie : UInt64} (h : InstallInv w) (hw : WakesAdd w tid status index cookie w')
    (hgood : ConfirmsActive ⟨w, .resume tid status, w'⟩) :
    HarmlessResume w (.resume tid status) := by
  obtain ⟨hc', hfail⟩ := hgood
  intro ⟨i, c⟩ haw e he
  obtain ⟨rfl, rfl⟩ : index = i ∧ cookie = c := by
    have := hw.awaited.symm.trans haw
    simpa using this
  have he' : entryAt w'.svc index cookie = some (installed w.now e) := by
    rw [hw.mapped, if_pos ⟨rfl, rfl⟩, show entryAt w.svc index cookie = some e from he]
    rfl
  refine ⟨?_, ?_⟩
  · intro hst
    -- the entry turns active, and only this call can have confirmed it
    obtain ⟨hrep, hunack⟩ := h.pending index cookie e he hst
    rcases hc' index cookie _ he' (by rw [installed_of_pending hst]; rfl) with
      hrep' | ⟨t, ht, hack⟩
    · rw [hw.reported, hrep] at hrep'
      exact absurd hrep' (by simp)
    · rw [hw.installer] at ht
      rw [hw.acknowledged] at hack
      simp only [hunack t ht, Bool.false_or, Bool.and_eq_true, beq_iff_eq] at hack
      obtain ⟨⟨rfl, hstat⟩, hsucc⟩ := hack
      exact ⟨ht, hsucc, hstat⟩
  · intro hf hst
    refine hfail tid status rfl hf index cookie haw _ he' ?_
    rw [installed_of_not_pending (by simp [hst])]
    exact hst

/-- A harmless end of a wait confirms what it makes active. -/
theorem confirms_of_wakesAdd {w w' : FlowWorld} {tid : Nat} {status : Bool} {index : Nat}
    {cookie : UInt64} (hc : ActiveConfirmed w) (hw : WakesAdd w tid status index cookie w')
    (hok : HarmlessResume w (.resume tid status)) :
    ConfirmsActive ⟨w, .resume tid status, w'⟩ := by
  have hguard := hok (index, cookie) hw.awaited
  refine ⟨?_, ?_⟩
  · intro i c e' he' hst
    rw [hw.installer, hw.reported, hw.acknowledged]
    have hold : ∀ e, entryAt w.svc i c = some e → e.state = .active →
        w.reported i c = true ∨ ∃ t, w.installer i c = some t ∧
          (w.acknowledged t || (t == tid && status && w.succeeded tid)) = true := by
      intro e he hst
      refine (hc i c e he hst).imp_right ?_
      intro ⟨t, ht, hack⟩
      exact ⟨t, ht, by simp [hack]⟩
    rcases hw.mapped.of_some he' with ⟨_, h₀⟩ | ⟨⟨rfl, rfl⟩, e₀, h₀, rfl⟩
    · exact hold e' h₀ hst
    · by_cases hp : e₀.state = .pendingInstallation
      · obtain ⟨ht, hsucc, hstat⟩ := (hguard e₀ h₀).1 hp
        exact Or.inr ⟨tid, ht, by simp [hsucc, hstat]⟩
      · rw [installed_of_not_pending hp] at hst
        exact hold e₀ h₀ hst
  · intro tid' status' hin hf i c haw e' he' hst
    obtain ⟨rfl, rfl⟩ := FlowInput.resume.inj hin
    obtain ⟨rfl, rfl⟩ : index = i ∧ cookie = c := by
      have := hw.awaited.symm.trans haw
      simpa using this
    rcases hw.mapped.of_some he' with ⟨hne, _⟩ | ⟨_, e₀, h₀, rfl⟩
    · exact hne ⟨rfl, rfl⟩
    · by_cases hp : e₀.state = .pendingInstallation
      · obtain ⟨_, hsucc, hstat⟩ := (hguard e₀ h₀).1 hp
        rcases hf with hf | hf
        · rw [show status = true from hstat] at hf
          exact absurd hf (by simp)
        · unfold FlowWorld.succeeded at hsucc
          rw [hf] at hsucc
          exact absurd hsucc (by simp)
      · rw [installed_of_not_pending hp] at hst
        exact (hguard e₀ h₀).2 hf hst

/-- A step is good exactly when it is not the end of a wait that does harm. -/
theorem confirmsActive_iff {w w' : FlowWorld} {input : FlowInput} (h : InstallInv w)
    (hc : ActiveConfirmed w) (hs : w.step input = some w') :
    ConfirmsActive ⟨w, input, w'⟩ ↔ HarmlessResume w input := by
  by_cases hin : ∃ tid status, input = .resume tid status
  · obtain ⟨tid, status, rfl⟩ := hin
    rcases resume_split h hs with ⟨index, cookie, hw⟩ | ⟨hnone, hf⟩
    · exact ⟨harmless_of_wakesAdd h hw, confirms_of_wakesAdd hc hw⟩
    · refine ⟨?_, ?_⟩
      · intro _ place haw
        rw [hnone] at haw
        exact absurd haw (by simp)
      · intro _
        refine ⟨hc.frame hf, ?_⟩
        intro tid' status' hin _ i c haw
        obtain ⟨rfl, rfl⟩ := FlowInput.resume.inj hin
        dsimp only at haw
        rw [hnone] at haw
        exact absurd haw (by simp)
  · have hne : ∀ tid status, input ≠ .resume tid status := fun tid status heq =>
      hin ⟨tid, status, heq⟩
    refine ⟨?_, ?_⟩
    · intro _
      cases input with
      | resume tid status => exact absurd rfl (hne tid status)
      | _ => trivial
    · intro _
      exact ⟨(installInv_step h hs).2 hc hne, fun tid status heq => absurd heq (hne tid status)⟩

/--
**When active entries are confirmed.** In a run of the service, every step leaves
only confirmed entries active, and no failed call leaves its entry active, exactly
when every wait of an `add_flow` call ends harmlessly.
-/
theorem active_confirmed_iff {tables : List FlowTable}
    {ts : List (Transition FlowWorld FlowInput)} {w : FlowWorld}
    (hr : Run step (boot tables) ts w) :
    (∀ t ∈ ts, ConfirmsActive t) ↔ ∀ t ∈ ts, HarmlessResume t.source t.input :=
  hr.forall_good_iff InstallInv ActiveConfirmed (installInv_boot tables) (activeConfirmed_boot tables)
    (fun _ _ _ hu hs => (installInv_step hu hs).1) (fun _ _ _ _ _ _ hgood => hgood.1)
    (fun _ _ _ hu hp hs => confirmsActive_iff hu hp hs)

/-- A request that waits for as long as it takes. -/
def patientAdd (cookie : UInt64) : AddFlowArgs := { bareAdd cookie with installTimeoutMs := -1 }

/-- The state of the entry under cookie 5 of the first table, if there is one. -/
def stateUnderFive (w : FlowWorld) : Option FlowState := (entryAt w.svc 0 5).map (·.state)

/-- A flow whose transaction is acknowledged before the wait ends is active and confirmed. -/
theorem acknowledged_flow_confirmed :
    ∃ ts w, Run step (boot [dellS48xxAclTable]) ts w ∧ stateUnderFive w = some .active ∧
      ∀ t ∈ ts, ConfirmsActive t := by
  obtain ⟨ts, w, hr, h⟩ := Run.exists_of_test step (boot [dellS48xxAclTable])
    (bringUp ++ [.addFlow (patientAdd 5), .complete 1 none, .resume 1 true])
    (fun ts w => stateUnderFive w == some .active &&
      ts.all fun t => HarmlessResume t.source t.input) (by decide +kernel)
  rw [Bool.and_eq_true, List.all_eq_true] at h
  exact ⟨ts, w, hr, by simpa using h.1, (active_confirmed_iff hr).mpr (by simpa using h.2)⟩

/-- A flow the switch refuses with an error is active all the same when `add_flow` returns. -/
theorem refused_flow_active :
    ∃ ts w, Run step (boot [dellS48xxAclTable]) ts w ∧ w.reply? 1 = some (some .error) ∧
      w.installer 0 5 = some 1 ∧ stateUnderFive w = some .active ∧ ¬ ActiveConfirmed w := by
  obtain ⟨ts, w, hr, h⟩ := Run.exists_of_test step (boot [dellS48xxAclTable])
    (bringUp ++ [.addFlow (patientAdd 5), .complete 1 (some .error), .resume 1 true])
    (fun _ w => w.reply? 1 == some (some .error) && w.installer 0 5 == some 1 &&
      stateUnderFive w == some .active && !w.reported 0 5 && !w.acknowledged 1) (by decide +kernel)
  simp only [Bool.and_eq_true, beq_iff_eq, Bool.not_eq_true'] at h
  obtain ⟨⟨⟨⟨hreply, hinst⟩, hactive⟩, hrep⟩, hack⟩ := h
  refine ⟨ts, w, hr, hreply, hinst, hactive, fun hc => ?_⟩
  obtain ⟨e, he, hst⟩ := Option.map_eq_some_iff.mp hactive
  rcases hc 0 5 e he hst with hrep' | ⟨tid, ht, hack'⟩
  · rw [hrep] at hrep'
    exact absurd hrep' (by simp)
  · rw [hinst] at ht
    obtain rfl := Option.some.inj ht
    rw [hack] at hack'
    exact absurd hack' (by simp)

end IronStack.Proof
