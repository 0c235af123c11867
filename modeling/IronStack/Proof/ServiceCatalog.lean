import IronStack.Hal.ServiceCatalog
import IronStack.Lib.Dependencies

/-!
# The order in which services are initialized

Whatever order the set of services is gone through in, a round initializes every
service whose turn has come, and a round that initializes none ends it all. So what
is left over at the end waits for itself, or for a service that is not there.
-/

namespace IronStack.Proof

open IronStack Lib ServiceCatalog

/-- The service of type `t` depends on the one of type `u`. -/
def Needs (services : List Service) (t u : ServiceType) : Prop :=
  ∃ s ∈ services, s.serviceType = t ∧ u ∈ s.dependencies

/-- What a call needs: the calls that initialize the services its own depends on. -/
def CallNeeds (services : List Service) (call needed : Init2Call) : Prop :=
  needed.succeeded = true ∧ Needs services call.serviceType needed.serviceType

/-- No service is called twice, and each only after all that it depends on has been initialized. -/
structure CallsOrderly (services : List Service) (calls : List Init2Call) : Prop where
  once : (calls.map Init2Call.serviceType).Nodup
  registered : ∀ call ∈ calls, call.serviceType ∈ services.map Service.serviceType
  after : InOrder (CallNeeds services) calls

/-! ## What a round preserves -/

/-- All calls so far went well, and the services they were for have left the set. -/
structure Progressing (services left : List Service) (p : InitProgress) : Prop where
  succeeded : ∀ call ∈ p.calls, call.succeeded = true
  initialized : ∀ t, t ∈ p.initializedServices ↔ t ∈ p.calls.map Init2Call.serviceType
  all : (p.calls.map Init2Call.serviceType ++ left.map Service.serviceType).Perm
    (services.map Service.serviceType)
  left : ∀ s ∈ left, s ∈ services
  after : InOrder (CallNeeds services) p.calls

variable {services : List Service}

theorem progressing_start : Progressing services services ⟨∅, []⟩ where
  succeeded _ h := by cases h
  initialized t := by simp
  all := .refl _
  left s hs := hs
  after := inOrder_nil

/-- A service whose dependencies are fulfilled finds the calls it needs among those made. -/
theorem Progressing.call_after {left : List Service} {p : InitProgress}
    (hdistinct : (services.map Service.serviceType).Nodup) (h : Progressing services left p)
    {s : Service} (hs : s ∈ left) (hdeps : s.dependencies ⊆ p.initializedServices)
    {succeeded : Bool} {needed : Init2Call}
    (hneeded : CallNeeds services ⟨s.serviceType, succeeded⟩ needed) : needed ∈ p.calls := by
  obtain ⟨hsucc, s', hs', htype, hdep⟩ := hneeded
  -- there is only one service of the type
  obtain rfl : s' = s := List.inj_on_of_nodup_map hdistinct hs' (h.left s hs) htype
  obtain ⟨call, hcall, hcalltype⟩ := List.mem_map.mp ((h.initialized _).mp (hdeps hdep))
  have heq : call = needed := by
    obtain ⟨t, b⟩ := call
    obtain ⟨t', b'⟩ := needed
    have hb : b = true := h.succeeded _ hcall
    rw [hb, show b' = true from hsucc, show t = t' from hcalltype]
  exact heq ▸ hcall

theorem Progressing.orderly {left : List Service} {p : InitProgress}
    (hdistinct : (services.map Service.serviceType).Nodup) (h : Progressing services left p) :
    CallsOrderly services p.calls where
  once := (List.nodup_append.mp (h.all.nodup_iff.mpr hdistinct)).1
  registered _ hcall := h.all.subset (List.mem_append_left _ (List.mem_map_of_mem hcall))
  after := h.after

/-- The next call is in order too, whatever it returns. -/
theorem Progressing.orderly_snoc {left : List Service} {p : InitProgress}
    (hdistinct : (services.map Service.serviceType).Nodup) (h : Progressing services left p)
    {s : Service} (hs : s ∈ left) (hdeps : s.dependencies ⊆ p.initializedServices)
    (succeeded : Bool) :
    CallsOrderly services (p.calls ++ [⟨s.serviceType, succeeded⟩]) where
  once := by
    have hnodup := h.all.nodup_iff.mpr hdistinct
    rw [List.map_append, List.map_singleton]
    refine List.Nodup.sublist (List.Sublist.append_left ?_ _) hnodup
    exact List.singleton_sublist.mpr (List.mem_map_of_mem hs)
  registered call hcall := by
    rcases List.mem_append.mp hcall with hcall | hcall
    · exact (h.orderly hdistinct).registered call hcall
    · rw [List.mem_singleton.mp hcall]
      exact List.mem_map_of_mem (h.left s hs)
  after := h.after.snoc fun _ hneeded => h.call_after hdistinct hs hdeps hneeded

theorem Progressing.withInitialized {left left' : List Service} {p : InitProgress} {s : Service}
    (hdistinct : (services.map Service.serviceType).Nodup) (h : Progressing services left p)
    (hleft : left.Perm (s :: left')) (hdeps : s.dependencies ⊆ p.initializedServices) :
    Progressing services left' (InitProgress.withInitialized p s) where
  succeeded call hcall := by
    rcases List.mem_append.mp hcall with hcall | hcall
    · exact h.succeeded call hcall
    · rw [List.mem_singleton.mp hcall]
  initialized t := by
    simp only [InitProgress.withInitialized, Finset.mem_insert, h.initialized, List.map_append,
      List.mem_append, List.map_singleton, List.mem_singleton, or_comm]
  all := by
    refine List.Perm.trans ?_ h.all
    simp only [InitProgress.withInitialized, List.map_append, List.map_singleton, List.append_assoc,
      List.singleton_append]
    exact List.Perm.append_left _ (hleft.map Service.serviceType).symm
  left s' hs' := h.left s' (hleft.mem_iff.mpr (List.mem_cons_of_mem _ hs'))
  after := h.after.snoc fun _ hneeded =>
    h.call_after hdistinct (hleft.mem_iff.mpr List.mem_cons_self) hdeps hneeded

section Round

variable {init2 : List Init2Call → Service → Bool}
  {passed rest left : List Service} {thisRound thisRound' : Bool} {p p' : InitProgress}

theorem progressing_initRound (hdistinct : (services.map Service.serviceType).Nodup)
    (h : Progressing services (passed ++ rest) p)
    (hround : initRound init2 passed thisRound p rest = .over left thisRound' p') :
    Progressing services left p' := by
  induction rest generalizing passed thisRound p with
  | nil =>
      obtain ⟨rfl, _, rfl⟩ := RoundEnd.over.inj hround
      rwa [List.append_nil] at h
  | cons s rest ih =>
      rw [initRound] at hround
      split at hround
      · rename_i hdeps
        split at hround
        · exact ih (h.withInitialized hdistinct List.perm_middle hdeps) hround
        · cases hround
      · exact ih (by rwa [List.append_assoc, List.singleton_append]) hround

/-- A round that stops the initialization made its calls in order, and the last one failed. -/
theorem failed_initRound {calls : List Init2Call}
    (hdistinct : (services.map Service.serviceType).Nodup)
    (h : Progressing services (passed ++ rest) p)
    (hround : initRound init2 passed thisRound p rest = .failed calls) :
    CallsOrderly services calls ∧ ∃ call ∈ calls, call.succeeded = false := by
  induction rest generalizing passed thisRound p with
  | nil => cases hround
  | cons s rest ih =>
      rw [initRound] at hround
      split at hround
      · rename_i hdeps
        split at hround
        · exact ih (h.withInitialized hdistinct List.perm_middle hdeps) hround
        · obtain rfl := RoundEnd.failed.inj hround
          refine ⟨h.orderly_snoc hdistinct (by simp) hdeps false, ⟨s.serviceType, false⟩, by simp, rfl⟩
      · exact ih (by rwa [List.append_assoc, List.singleton_append]) hround

/-- A round that initializes nothing found no service whose dependencies are fulfilled. -/
theorem stuck_initRound (hround : initRound init2 passed thisRound p rest = .over left false p') :
    thisRound = false ∧ left = passed ++ rest ∧ p' = p ∧
      ∀ s ∈ rest, ¬ s.dependencies ⊆ p.initializedServices := by
  induction rest generalizing passed thisRound p with
  | nil =>
      obtain ⟨rfl, rfl, rfl⟩ := RoundEnd.over.inj hround
      simp
  | cons s rest ih =>
      rw [initRound] at hround
      split at hround
      · split at hround
        · cases (ih hround).1
        · cases hround
      · rename_i hdeps
        obtain ⟨hthis, hleft, hp, hrest⟩ := ih hround
        refine ⟨hthis, ?_, hp, List.forall_mem_cons.mpr ⟨hdeps, hrest⟩⟩
        rw [hleft, List.append_assoc, List.singleton_append]

end Round

/-! ## All rounds -/

/-- How the initialization ends. -/
structure InitOutcome (services : List Service) (result : Bool) (calls : List Init2Call) : Prop where
  orderly : CallsOrderly services calls
  /-- With `true`, every service has been initialized. -/
  complete : result = true → (∀ call ∈ calls, call.succeeded = true) ∧
    (calls.map Init2Call.serviceType).Perm (services.map Service.serviceType)
  /-- With `false`, a call failed, or services are left none of which can be next. -/
  stopped : result = false → (∃ call ∈ calls, call.succeeded = false) ∨
    ∃ left p, Progressing services left p ∧ left ≠ [] ∧
      ∀ s ∈ left, ¬ s.dependencies ⊆ p.initializedServices

section Rounds

variable {init2 : List Init2Call → Service → Bool} {left left' : List Service} {p p' : InitProgress}

/-! What the rounds come to, by the end of the first one. -/

theorem initRounds_nil : initRounds init2 [] p = (true, p.calls) := by
  rw [initRounds, if_pos rfl]

theorem initRounds_failed {calls : List Init2Call} (hne : left ≠ [])
    (hround : initRound init2 [] false p left = .failed calls) :
      initRounds init2 left p = (false, calls) := by
  rw [initRounds, if_neg hne]
  split
  · rename_i hround'
    rw [RoundEnd.failed.inj (hround.symm.trans hround')]
  · rename_i hround'
    cases hround.symm.trans hround'

theorem initRounds_next (hne : left ≠ []) (hround : initRound init2 [] false p left = .over left' true p') :
    initRounds init2 left p = initRounds init2 left' p' := by
  rw [initRounds, if_neg hne]
  split
  · rename_i hround'
    cases hround.symm.trans hround'
  · rename_i hround'
    obtain ⟨rfl, rfl, rfl⟩ := RoundEnd.over.inj (hround.symm.trans hround')
    rw [dif_pos rfl]

theorem initRounds_stuck (hne : left ≠ []) (hround : initRound init2 [] false p left = .over left' false p') :
    initRounds init2 left p = (left'.isEmpty, p'.calls) := by
  rw [initRounds, if_neg hne]
  split
  · rename_i hround'
    cases hround.symm.trans hround'
  · rename_i hround'
    obtain ⟨rfl, rfl, rfl⟩ := RoundEnd.over.inj (hround.symm.trans hround')
    rw [dif_neg Bool.false_ne_true]

/-- By induction on the rounds, each from where the one before has come. -/
theorem initRounds_outcome (hdistinct : (services.map Service.serviceType).Nodup)
    (h : Progressing services left p) :
    InitOutcome services (initRounds init2 left p).1 (initRounds init2 left p).2 := by
  induction left, p using initRounds.induct init2 with
  | case1 p =>
      rw [initRounds_nil]
      refine ⟨h.orderly hdistinct, fun _ => ⟨h.succeeded, ?_⟩, fun hfalse => by cases hfalse⟩
      have hall := h.all
      rwa [List.map_nil, List.append_nil] at hall
  | case2 left p hne calls hround =>
      rw [initRounds_failed hne hround]
      have hfront : Progressing services ([] ++ left) p := h
      obtain ⟨horderly, hfailed⟩ := failed_initRound hdistinct hfront hround
      exact ⟨horderly, fun htrue => absurd htrue Bool.false_ne_true, fun _ => .inl hfailed⟩
  | case3 left p hne left' p' hround hlt ih =>
      rw [initRounds_next hne hround]
      have hfront : Progressing services ([] ++ left) p := h
      exact ih (progressing_initRound hdistinct hfront hround)
  | case4 left p hne left' thisRound p' hround hthis =>
      obtain rfl := Bool.eq_false_iff.mpr hthis
      rw [initRounds_stuck hne hround]
      obtain ⟨_, hleft, rfl, hstuck⟩ := stuck_initRound hround
      rw [List.nil_append] at hleft
      subst hleft
      refine ⟨h.orderly hdistinct, fun hempty => ?_, fun _ => .inr ⟨_, _, h, hne, hstuck⟩⟩
      exact absurd (List.isEmpty_iff.mp hempty) hne

end Rounds

theorem deferredInitServices_outcome (init2 : List Init2Call → Service → Bool)
    (registered : RegisteredServices) :
    InitOutcome registered.services (deferredInitServices init2 registered).1
      (deferredInitServices init2 registered).2 :=
  initRounds_outcome registered.distinct progressing_start

/-! ## What the services answer -/

/-- Each call is one of `init2` on a registered service, and on record with what it returned. -/
def CallsAnswered (init2 : List Init2Call → Service → Bool) (services : List Service)
    (calls : List Init2Call) : Prop :=
  ∀ before call after, calls = before ++ call :: after →
    ∃ s ∈ services, s.serviceType = call.serviceType ∧ init2 before s = call.succeeded

theorem CallsAnswered.snoc {init2 : List Init2Call → Service → Bool} {calls : List Init2Call}
    {s : Service} {succeeded : Bool} (h : CallsAnswered init2 services calls) (hs : s ∈ services)
    (hinit : init2 calls s = succeeded) :
    CallsAnswered init2 services (calls ++ [⟨s.serviceType, succeeded⟩]) := by
  intro before call after heq
  rcases List.eq_nil_or_concat after with rfl | ⟨after, last, rfl⟩
  · obtain ⟨rfl, hcall⟩ := List.append_inj' heq rfl
    rw [← List.singleton_inj.mp hcall]
    exact ⟨s, hs, rfl, hinit⟩
  · rw [List.concat_eq_append, ← List.cons_append, ← List.append_assoc] at heq
    exact h before call after (List.append_inj' heq rfl).1

/-- The calls made by the end of a round. -/
def roundCalls : RoundEnd → List Init2Call
  | .failed calls => calls
  | .over _ _ p => p.calls

section Answers

variable {init2 : List Init2Call → Service → Bool}

theorem answered_initRound {passed rest : List Service} {thisRound : Bool} {p : InitProgress}
    (hrest : ∀ s ∈ rest, s ∈ services) (h : CallsAnswered init2 services p.calls) :
    CallsAnswered init2 services (roundCalls (initRound init2 passed thisRound p rest)) := by
  induction rest generalizing passed thisRound p with
  | nil => exact h
  | cons s rest ih =>
      obtain ⟨hs, htail⟩ := List.forall_mem_cons.mp hrest
      rw [initRound]
      split
      · split
        · rename_i hinit
          exact ih htail (h.snoc hs hinit)
        · rename_i hinit
          exact h.snoc hs (Bool.not_eq_true _ ▸ hinit)
      · exact ih htail h

theorem answered_initRounds (hdistinct : (services.map Service.serviceType).Nodup)
    {left : List Service} {p : InitProgress} (hp : Progressing services left p)
    (h : CallsAnswered init2 services p.calls) :
    CallsAnswered init2 services (initRounds init2 left p).2 := by
  induction left, p using initRounds.induct init2 with
  | case1 p =>
      rw [initRounds_nil]
      exact h
  | case2 left p hne calls hround =>
      rw [initRounds_failed hne hround]
      have hfirst : CallsAnswered init2 services (roundCalls (initRound init2 [] false p left)) :=
        answered_initRound hp.left h
      rwa [hround] at hfirst
  | case3 left p hne left' p' hround hlt ih =>
      rw [initRounds_next hne hround]
      have hfirst : CallsAnswered init2 services (roundCalls (initRound init2 [] false p left)) :=
        answered_initRound hp.left h
      rw [hround] at hfirst
      have hfront : Progressing services ([] ++ left) p := hp
      exact ih (progressing_initRound hdistinct hfront hround) hfirst
  | case4 left p hne left' thisRound p' hround hthis =>
      obtain rfl := Bool.eq_false_iff.mpr hthis
      rw [initRounds_stuck hne hround]
      obtain ⟨_, _, rfl, _⟩ := stuck_initRound hround
      exact h

end Answers

/-! ## The dependencies -/

/-- Every dependency is on a registered service. -/
def AllRegistered (services : List Service) : Prop :=
  ∀ t u, Needs services t u → u ∈ services.map Service.serviceType

/-- With every service called, the services are in order. -/
theorem inOrder_services {calls : List Init2Call} (hafter : InOrder (CallNeeds services) calls) :
    InOrder (Needs services) (calls.map Init2Call.serviceType) := by
  intro pre t post hsplit u hneeds
  obtain ⟨before, rest, rfl, rfl, hrest⟩ := List.map_eq_append_iff.mp hsplit
  obtain ⟨call, after, rfl, rfl, rfl⟩ := List.map_eq_cons_iff.mp hrest
  exact List.mem_map_of_mem (hafter before call after rfl ⟨u, true⟩ ⟨rfl, hneeds⟩)

theorem resolved_of_complete {calls : List Init2Call} (horderly : CallsOrderly services calls)
    (hall : (calls.map Init2Call.serviceType).Perm (services.map Service.serviceType)) :
    AllRegistered services ∧ Acyclic (Needs services) := by
  have horder := inOrder_services horderly.after
  have hcovers : ∀ t u, Needs services t u → t ∈ calls.map Init2Call.serviceType := by
    intro t u ⟨s, hs, htype, _⟩
    exact hall.mem_iff.mpr (htype ▸ List.mem_map_of_mem hs)
  refine ⟨?_, horder.acyclic hcovers⟩
  intro t u hneeds
  obtain ⟨pre, post, hsplit⟩ := List.append_of_mem (hcovers t u hneeds)
  rw [← hall.mem_iff, hsplit]
  exact List.mem_append_left _ (horder pre t post hsplit u hneeds)

/-- **Nothing is left over without a reason**: if the dependencies can be resolved, one of the
services that are left is next. -/
theorem exists_next {left : List Service} {p : InitProgress} (h : Progressing services left p)
    (hne : left ≠ []) (hregistered : AllRegistered services) (hacyclic : Acyclic (Needs services)) :
    ∃ s ∈ left, s.dependencies ⊆ p.initializedServices := by
  have htypes : left.map Service.serviceType ≠ [] := by simpa using hne
  obtain ⟨t, ht, hfirst⟩ := hacyclic.exists_first htypes
  obtain ⟨s, hs, rfl⟩ := List.mem_map.mp ht
  refine ⟨s, hs, ?_⟩
  intro u hu
  have hneeds : Needs services s.serviceType u := ⟨s, h.left s hs, rfl, hu⟩
  rcases List.mem_append.mp (h.all.mem_iff.mpr (hregistered _ u hneeds)) with hdone | hleft
  · exact (h.initialized u).mpr hdone
  · exact absurd hneeds (hfirst u hleft)

/--
**Deferred initialization.** Whatever the registered services depend on, in whatever
order the set of them is gone through and whatever their `init2` returns: the result is
`true` exactly if every dependency is registered, none is circular and every call
succeeded; then every service has been called. The calls are made in order, and each
goes down with what the service's `init2` returned.
-/
theorem deferredInitServices_correct (init2 : List Init2Call → Service → Bool)
    (registered : RegisteredServices) :
    ((deferredInitServices init2 registered).1 = true ↔
      AllRegistered registered.services ∧ Acyclic (Needs registered.services) ∧
        ∀ call ∈ (deferredInitServices init2 registered).2, call.succeeded = true) ∧
    ((deferredInitServices init2 registered).1 = true →
      ((deferredInitServices init2 registered).2.map Init2Call.serviceType).Perm
        (registered.services.map Service.serviceType)) ∧
    CallsAnswered init2 registered.services (deferredInitServices init2 registered).2 ∧
    CallsOrderly registered.services (deferredInitServices init2 registered).2 := by
  have houtcome := deferredInitServices_outcome init2 registered
  have hanswered : CallsAnswered init2 registered.services (deferredInitServices init2 registered).2 :=
    answered_initRounds registered.distinct progressing_start fun before call after h => by
      cases before <;> cases h
  refine ⟨⟨?_, ?_⟩, fun htrue => (houtcome.complete htrue).2, hanswered, houtcome.orderly⟩
  · intro htrue
    obtain ⟨hsucceeded, hall⟩ := houtcome.complete htrue
    obtain ⟨hregistered, hacyclic⟩ := resolved_of_complete houtcome.orderly hall
    exact ⟨hregistered, hacyclic, hsucceeded⟩
  · intro ⟨hregistered, hacyclic, hsucceeded⟩
    by_contra hfalse
    rw [Bool.not_eq_true] at hfalse
    rcases houtcome.stopped hfalse with ⟨call, hcall, hfailed⟩ | ⟨left, p, hleft, hne, hstuck⟩
    · rw [hsucceeded call hcall] at hfailed
      cases hfailed
    · obtain ⟨s, hs, hdeps⟩ := exists_next hleft hne hregistered hacyclic
      exact hstuck s hs hdeps

/-- The flow service needs the CAM and the ARP service, wherever it stands in the set. -/
example : (deferredInitServices (fun _ _ => true)
    ⟨[⟨.flows, {.cam, .arp}⟩, ⟨.arp, ∅⟩, ⟨.cam, ∅⟩], by decide⟩).2.map Init2Call.serviceType =
      [.arp, .cam, .flows] := by
  simp [deferredInitServices, initRounds, initRound, InitProgress.withInitialized]

end IronStack.Proof
