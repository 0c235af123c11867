import IronStack.Hal.Lifecycle
import IronStack.Lib.Machine

/-!
# A controller that is initialized once

`hal::init` sets `under_initialization` with a `compare_exchange_strong`, so that one call
at a time is at work. The flag is cleared where the call has started the controller, and
nowhere else: a call that finds the controller initialized, or that cannot listen, or whose
handshake fails, returns and leaves the flag set. After such a call every other one that
is still undecided is refused, also when the controller has been shut down.
-/

namespace IronStack.Proof

open IronStack Lib HalState

variable {κ γ : Type} {s s' : HalState κ γ}

/-- The call has set `under_initialization`, and may still clear it. -/
def holdsInitialization : HalCall → Bool
  | .init .startRecv | .init .startSend | .init .startProcess | .init .startMaintenance
  | .init .initServices => false
  | .init _ => true
  | .shutdown _ => false

/-- The callers that have the controller under initialization. -/
def holders (s : HalState κ γ) : Set κ :=
  { c | ∃ call, s.callers c = some call ∧ holdsInitialization call = true }

/-- The call has left `under_initialization` set. -/
def givesUp : InitResult → Bool
  | .alreadyInitialized | .failed => true
  | .refused | .started => false

/-- A call has given up. -/
def Barred (s : HalState κ γ) : Prop := ∃ o ∈ s.outcomes, givesUp o = true

/-! ## The loops -/

/-- What the loops, and whoever enqueues transactions, leave as it is. -/
structure CallsKept (s s' : HalState κ γ) : Prop where
  switchReady : s'.switchReady = s.switchReady
  underInitialization : s'.underInitialization = s.underInitialization
  shutdownFlag : s'.shutdownFlag = s.shutdownFlag
  callers : s'.callers = s.callers
  outcomes : s'.outcomes = s.outcomes
  sendLoopThread : s'.sendLoopThread.isAbsent = s.sendLoopThread.isAbsent
  recvLoopThread : s'.recvLoopThread.isAbsent = s.recvLoopThread.isAbsent
  processLoopThread : s'.processLoopThread.isAbsent = s.processLoopThread.isAbsent
  maintenanceThread : s'.maintenanceThread.isAbsent = s.maintenanceThread.isAbsent

theorem sendLoopStep_kept {ok : Bool} (h : s.sendLoopStep ok = some s') : CallsKept s s' := by
  unfold sendLoopStep at h
  split at h
  · cases h
  · cases h
  · rename_i hthread
    cases h
    refine ⟨rfl, rfl, rfl, rfl, rfl, ?_, rfl, rfl, rfl⟩
    rw [hthread]
    dsimp only
    split <;> rfl
  · rename_i hthread
    split at h
    · cases h
    · cases h
      exact ⟨rfl, rfl, rfl, rfl, rfl, by rw [hthread]; rfl, rfl, rfl, rfl⟩
    · cases h
      exact ⟨rfl, rfl, rfl, rfl, rfl, by rw [hthread]; rfl, rfl, rfl, rfl⟩
  · rename_i hthread
    split at h
    · cases h
      exact ⟨rfl, rfl, rfl, rfl, rfl, by rw [hthread]; rfl, rfl, rfl, rfl⟩
    · cases h
      exact ⟨rfl, rfl, rfl, rfl, rfl, by rw [hthread]; rfl, rfl, rfl, rfl⟩

theorem recvLoopStep_kept {message : Option HalHeader} (h : s.recvLoopStep message = some s') :
    CallsKept s s' := by
  unfold recvLoopStep at h
  split at h
  · cases h
  · cases h
  · rename_i hthread
    cases h
    refine ⟨rfl, rfl, rfl, rfl, rfl, rfl, ?_, rfl, rfl⟩
    rw [hthread]
    dsimp only
    split <;> rfl
  · rename_i hthread
    split at h
    · cases h
      exact ⟨rfl, rfl, rfl, rfl, rfl, rfl, by rw [hthread]; rfl, rfl, rfl⟩
    · cases h
      exact ⟨rfl, rfl, rfl, rfl, rfl, rfl, by rw [hthread]; rfl, rfl, rfl⟩

theorem performCallbacks_kept (s : HalState κ γ) (m : HalHeader) : CallsKept s (s.performCallbacks m) := by
  unfold performCallbacks
  split
  · exact ⟨rfl, rfl, rfl, rfl, rfl, rfl, rfl, rfl, rfl⟩
  · split <;> exact ⟨rfl, rfl, rfl, rfl, rfl, rfl, rfl, rfl, rfl⟩

theorem processLoopStep_kept (h : s.processLoopStep = some s') : CallsKept s s' := by
  unfold processLoopStep at h
  split at h
  · cases h
  · cases h
  · rename_i hthread
    cases h
    refine ⟨rfl, rfl, rfl, rfl, rfl, rfl, rfl, ?_, rfl⟩
    rw [hthread]
    dsimp only
    split <;> rfl
  · rename_i hthread
    split at h
    · cases h
    · cases h
      exact ⟨rfl, rfl, rfl, rfl, rfl, rfl, rfl, by rw [hthread]; rfl, rfl⟩
    · cases h
      split
      · exact ⟨rfl, rfl, rfl, rfl, rfl, rfl, rfl, by rw [hthread]; rfl, rfl⟩
      · rename_i m rest _ _
        have hkept := performCallbacks_kept
          { s with asynchronousMessages := rest, processLoopThread := .running .test } m
        exact { hkept with
          processLoopThread := hkept.processLoopThread.trans (by rw [hthread]; rfl) }

theorem maintenanceStep_kept {callback : γ} (h : s.maintenanceStep callback = some s') : CallsKept s s' := by
  unfold maintenanceStep at h
  split at h
  · cases h
  · cases h
  · rename_i hthread
    cases h
    refine ⟨rfl, rfl, rfl, rfl, rfl, rfl, rfl, rfl, ?_⟩
    rw [hthread]
    dsimp only
    split <;> rfl
  · rename_i hthread
    cases h
    refine ⟨rfl, rfl, rfl, rfl, rfl, rfl, rfl, rfl, ?_⟩
    rw [hthread]
    dsimp only
    split <;> rfl
  · rename_i hthread
    cases h
    exact ⟨rfl, rfl, rfl, rfl, rfl, rfl, rfl, rfl, by rw [hthread]; rfl⟩
  · rename_i hthread
    cases h
    exact ⟨rfl, rfl, rfl, rfl, rfl, rfl, rfl, rfl, by rw [hthread]; rfl⟩
  · rename_i hthread
    split at h
    · cases h
      exact ⟨rfl, rfl, rfl, rfl, rfl, rfl, rfl, rfl, by rw [hthread]; rfl⟩
    · cases h
  · rename_i hthread
    cases h
    exact ⟨rfl, rfl, rfl, rfl, rfl, rfl, rfl, rfl, by rw [hthread]; rfl⟩

/-! ## What a step does to the calls -/

theorem holders_congr (h : s'.callers = s.callers) : holders s' = holders s := by
  unfold holders
  rw [h]

variable [DecidableEq κ]

theorem mem_holders_goTo {c c' : κ} {call : HalCall} :
    c' ∈ holders (s.goTo c call) ↔
      c' = c ∧ holdsInitialization call = true ∨ c' ≠ c ∧ c' ∈ holders s := by
  by_cases hc : c' = c <;> simp [holders, goTo, Function.update_apply, hc]

theorem mem_holders_leave {c c' : κ} : c' ∈ holders (s.leave c) ↔ c' ≠ c ∧ c' ∈ holders s := by
  by_cases hc : c' = c <;> simp [holders, leave, Function.update_apply, hc]

/-- A call that goes on, and has the controller under initialization if it had it before. -/
theorem holders_goTo {c : κ} {call call' : HalCall} (h : s.callers c = some call)
    (hsame : holdsInitialization call' = holdsInitialization call) :
    holders (s.goTo c call') = holders s := by
  ext c'
  rw [mem_holders_goTo, hsame]
  by_cases hc : c' = c
  · subst hc
    simp [holders, h]
  · simp [hc]

theorem holders_leave {c : κ} {call : HalCall} (h : s.callers c = some call)
    (hnot : holdsInitialization call = false) : holders (s.leave c) = holders s := by
  ext c'
  rw [mem_holders_leave]
  by_cases hc : c' = c
  · subst hc
    simp [holders, h, hnot]
  · simp [hc]

/-- What a step does to the calls of `init`. -/
inductive InitEffect (s s' : HalState κ γ) : Prop where
  | quiet (hholders : holders s' = holders s)
      (hunder : s'.underInitialization = s.underInitialization) (houtcomes : s'.outcomes = s.outcomes)
  | refused (hholders : holders s' = holders s) (hset : s.underInitialization = true)
      (hunder : s'.underInitialization = true) (houtcomes : s'.outcomes = s.outcomes ++ [.refused])
  | entered (c : κ) (hholders : ∀ c', c' ∈ holders s' ↔ c' = c ∨ c' ≠ c ∧ c' ∈ holders s)
      (hclear : s.underInitialization = false) (hunder : s'.underInitialization = true)
      (houtcomes : s'.outcomes = s.outcomes)
  | gaveUp (c : κ) (o : InitResult) (hheld : c ∈ holders s)
      (hholders : ∀ c', c' ∈ holders s' ↔ c' ≠ c ∧ c' ∈ holders s) (hgives : givesUp o = true)
      (hunder : s'.underInitialization = s.underInitialization)
      (houtcomes : s'.outcomes = s.outcomes ++ [o])
  | started (c : κ) (hheld : c ∈ holders s)
      (hholders : ∀ c', c' ∈ holders s' ↔ c' ≠ c ∧ c' ∈ holders s)
      (hunder : s'.underInitialization = false) (houtcomes : s'.outcomes = s.outcomes ++ [.started])

omit [DecidableEq κ] in
theorem CallsKept.effect (h : CallsKept s s') : InitEffect s s' :=
  .quiet (holders_congr h.callers) h.underInitialization h.outcomes

/-- The call goes on in a state that differs in nothing that matters here. -/
theorem InitEffect.moved {u : HalState κ γ} {c : κ} {call call' : HalCall} (hc : s.callers c = some call)
    (hu : u.callers = s.callers) (hunder : u.underInitialization = s.underInitialization)
    (houtcomes : u.outcomes = s.outcomes)
    (hsame : holdsInitialization call' = holdsInitialization call) : InitEffect s (u.goTo c call') :=
  .quiet ((holders_goTo (by rw [hu, hc]) hsame).trans (holders_congr hu)) hunder houtcomes

/-- The call ends without having started the controller. -/
theorem InitEffect.ended {u : HalState κ γ} {c : κ} {call : HalCall} {o : InitResult}
    (hc : s.callers c = some call) (hheld : holdsInitialization call = true) (hgives : givesUp o = true)
    (hu : u.callers = s.callers) (hunder : u.underInitialization = s.underInitialization)
    (houtcomes : u.outcomes = s.outcomes) : InitEffect s ((u.leave c).settle o) := by
  refine .gaveUp c o ⟨call, hc, hheld⟩ (fun c' => ?_) hgives hunder (congrArg (· ++ [o]) houtcomes)
  have hcongr : holders u = holders s := holders_congr hu
  rw [← hcongr]
  exact mem_holders_leave

theorem sendOwn_effect {c : κ} {p next : InitPoint} {event : InitEvent}
    (hc : s.callers c = some (.init p)) (hp : holdsInitialization (.init p) = true)
    (hnext : holdsInitialization (.init next) = true) (h : s.sendOwn c next event = some s') :
    InitEffect s s' := by
  cases event with
  | proceeds =>
      rw [sendOwn] at h
      split at h
      · cases h
        exact .moved hc rfl rfl rfl (hnext.trans hp.symm)
      · cases h
  | fails =>
      cases h
      exact .ended hc hp rfl rfl rfl rfl
  | receives m => cases h

theorem awaitMessage_effect {c : κ} {p next : InitPoint} {msgType : OfpType} {event : InitEvent}
    (hc : s.callers c = some (.init p)) (hp : holdsInitialization (.init p) = true)
    (hnext : holdsInitialization (.init next) = true) (h : s.awaitMessage c msgType next event = some s') :
    InitEffect s s' := by
  cases event with
  | proceeds => cases h
  | fails =>
      cases h
      exact .ended hc hp rfl rfl rfl rfl
  | receives m =>
      rw [awaitMessage] at h
      split at h
      · cases h
        exact .moved hc rfl rfl rfl (hnext.trans hp.symm)
      · cases h
        exact .quiet rfl rfl rfl

theorem initStep_effect {c : κ} {p : InitPoint} {event : InitEvent}
    (hc : s.callers c = some (.init p)) (h : s.initStep c event p = some s') : InitEffect s s' := by
  cases p with
  | checkReady =>
      cases h
      refine .moved hc rfl rfl rfl ?_
      cases s.switchReady <;> rfl
  | checkShutdown =>
      rw [initStep] at h
      split at h
      · cases h
        exact .moved hc rfl rfl rfl rfl
      · cases h
        exact .ended hc rfl rfl rfl rfl rfl
  | listen =>
      cases event with
      | proceeds =>
          cases h
          exact .moved hc rfl rfl rfl rfl
      | fails =>
          cases h
          exact .ended hc rfl rfl rfl rfl rfl
      | receives m => cases h
  | accept =>
      cases event with
      | proceeds =>
          cases h
          exact .moved hc rfl rfl rfl rfl
      | fails =>
          cases h
          exact .quiet rfl rfl rfl
      | receives m => cases h
  | sendHello => exact sendOwn_effect hc rfl rfl h
  | awaitHello => exact awaitMessage_effect hc rfl rfl h
  | sendSetConfig => exact sendOwn_effect hc rfl rfl h
  | sendEcho => exact sendOwn_effect hc rfl rfl h
  | awaitEcho => exact awaitMessage_effect hc rfl rfl h
  | storeReady =>
      cases h
      exact .moved hc rfl rfl rfl rfl
  | storeShutdown =>
      cases h
      exact .moved hc rfl rfl rfl rfl
  | storeInitialization =>
      cases h
      refine .started c ⟨_, hc, rfl⟩ (fun c' => ?_) rfl rfl
      refine mem_holders_goTo.trans ?_
      simp [holdsInitialization, holders]
  | startRecv =>
      obtain ⟨t, _, rfl⟩ := Option.map_eq_some_iff.mp h
      exact .moved hc rfl rfl rfl rfl
  | startSend =>
      obtain ⟨t, _, rfl⟩ := Option.map_eq_some_iff.mp h
      exact .moved hc rfl rfl rfl rfl
  | startProcess =>
      obtain ⟨t, _, rfl⟩ := Option.map_eq_some_iff.mp h
      exact .moved hc rfl rfl rfl rfl
  | startMaintenance =>
      obtain ⟨t, _, rfl⟩ := Option.map_eq_some_iff.mp h
      exact .moved hc rfl rfl rfl rfl
  | initServices =>
      cases h
      exact .quiet (holders_leave hc rfl) rfl rfl

theorem shutdownStep_effect {c : κ} {p : ShutdownPoint} (hc : s.callers c = some (.shutdown p))
    (h : s.shutdownStep c p = some s') : InitEffect s s' := by
  cases p with
  | raiseFlag =>
      rw [shutdownStep] at h
      split at h
      · cases h
        exact .quiet (holders_leave hc rfl) rfl rfl
      · cases h
        exact .moved hc rfl rfl rfl rfl
  | joinSend | joinRecv | joinProcess | joinMaintenance =>
      obtain ⟨t, _, rfl⟩ := Option.map_eq_some_iff.mp h
      exact .moved hc rfl rfl rfl rfl
  | resetFlag =>
      cases h
      exact .quiet (holders_leave (s := { s with shutdownFlag := false }) hc rfl) rfl rfl
  | _ =>
      cases h
      exact .moved hc rfl rfl rfl rfl

/-! ## All steps -/

/-- A step of no call. -/
def IsLoopInput : LifecycleInput κ γ → Prop
  | .callInit _ | .callShutdown _ | .init _ _ | .shutdown _ => False
  | _ => True

theorem loop_kept {input : LifecycleInput κ γ} (hloop : IsLoopInput input) (h : s.step input = some s') :
    CallsKept s s' := by
  cases input with
  | callInit c => cases hloop
  | callShutdown c => cases hloop
  | init c event => cases hloop
  | shutdown c => cases hloop
  | sendLoop ok => exact sendLoopStep_kept h
  | recvLoop message => exact recvLoopStep_kept h
  | processLoop => exact processLoopStep_kept h
  | maintenance callback => exact maintenanceStep_kept h
  | construct msgType callback =>
      cases h
      exact ⟨rfl, rfl, rfl, rfl, rfl, rfl, rfl, rfl, rfl⟩
  | enqueue index =>
      obtain ⟨o, _, rfl⟩ := Option.map_eq_some_iff.mp h
      exact ⟨rfl, rfl, rfl, rfl, rfl, rfl, rfl, rfl, rfl⟩

theorem step_effect {input : LifecycleInput κ γ} (h : s.step input = some s') : InitEffect s s' := by
  cases input with
  | callInit c =>
      rw [step, callInit] at h
      split at h
      · cases h
      · split at h
        · rename_i hset
          cases h
          exact .refused rfl hset hset rfl
        · rename_i hclear
          cases h
          refine .entered c (fun c' => ?_) (by simpa using hclear) rfl rfl
          refine mem_holders_goTo.trans ?_
          simp [holdsInitialization, holders]
  | callShutdown c =>
      rw [step, callShutdown] at h
      split at h
      · cases h
      · rename_i hfree
        split at h
        · cases h
          refine .quiet ?_ rfl rfl
          ext c'
          refine mem_holders_goTo.trans ?_
          by_cases hc : c' = c
          · subst hc
            simp only [Option.not_isSome_iff_eq_none] at hfree
            simp [holders, hfree, holdsInitialization]
          · simp [hc, holders]
        · cases h
          exact .quiet rfl rfl rfl
  | init c event =>
      rw [step] at h
      split at h
      · rename_i hc
        exact initStep_effect hc h
      · cases h
  | shutdown c =>
      rw [step] at h
      split at h
      · rename_i hc
        exact shutdownStep_effect hc h
      · cases h
  | _ => exact (loop_kept (by trivial) h).effect

/-! ## The flag -/

/-- Who has set `under_initialization`. -/
structure InitInv (s : HalState κ γ) : Prop where
  alone : ∀ c ∈ holders s, ∀ c' ∈ holders s, c' = c
  set_of_held : ∀ c ∈ holders s, s.underInitialization = true ∧ ¬ Barred s
  set_of_barred : Barred s → s.underInitialization = true
  order : s.outcomes.Pairwise fun a b => givesUp a = true → b = .refused

omit [DecidableEq κ] in
theorem initInv_boot : InitInv (boot κ γ) where
  alone c hc := by
    obtain ⟨call, hcall, _⟩ := hc
    cases hcall
  set_of_held c hc := by
    obtain ⟨call, hcall, _⟩ := hc
    cases hcall
  set_of_barred h := by
    obtain ⟨o, ho, _⟩ := h
    cases ho
  order := .nil

omit [DecidableEq κ] in
theorem barred_concat {outcome : InitResult} (h : s'.outcomes = s.outcomes ++ [outcome]) :
    Barred s' ↔ Barred s ∨ givesUp outcome = true := by
  simp [Barred, h, or_and_right, exists_or]

/-- **Preserved by every step.** -/
theorem initInv_step {input : LifecycleInput κ γ} (hinv : InitInv s) (h : s.step input = some s') :
    InitInv s' := by
  cases step_effect h with
  | quiet hholders hunder houtcomes =>
      have hbarred : Barred s' ↔ Barred s := by rw [Barred, Barred, houtcomes]
      exact {
        alone := by rw [hholders]; exact hinv.alone
        set_of_held := by rw [hholders, hunder, hbarred]; exact hinv.set_of_held
        set_of_barred := by rw [hunder, hbarred]; exact hinv.set_of_barred
        order := houtcomes ▸ hinv.order }
  | refused hholders hset hunder houtcomes =>
      have hbarred : Barred s' ↔ Barred s := by simp [barred_concat houtcomes, givesUp]
      exact {
        alone := by rw [hholders]; exact hinv.alone
        set_of_held := fun c hc => ⟨hunder, by
          rw [hbarred]
          exact (hinv.set_of_held c (hholders ▸ hc)).2⟩
        set_of_barred := fun _ => hunder
        order := by
          rw [houtcomes]
          exact List.pairwise_append.mpr ⟨hinv.order, List.pairwise_singleton _ _, by simp⟩ }
  | entered c hholders hclear hunder houtcomes =>
      -- the flag was clear, so nobody else is at work, and nobody has given up
      have hnone : ∀ c', c' ∉ holders s := fun c' hc' => by
        have hset := (hinv.set_of_held c' hc').1
        rw [hclear] at hset
        cases hset
      have hfree : ¬ Barred s := fun hbarred => by
        have hset := hinv.set_of_barred hbarred
        rw [hclear] at hset
        cases hset
      have hbarred : Barred s' ↔ Barred s := by rw [Barred, Barred, houtcomes]
      have honly : ∀ c', c' ∈ holders s' → c' = c := fun c' hc' => by
        rcases (hholders c').mp hc' with rfl | hother
        · rfl
        · exact absurd hother.2 (hnone c')
      exact {
        alone := fun c₁ h₁ c₂ h₂ => (honly c₂ h₂).trans (honly c₁ h₁).symm
        set_of_held := fun _ _ => ⟨hunder, by rwa [hbarred]⟩
        set_of_barred := fun _ => hunder
        order := houtcomes ▸ hinv.order }
  | gaveUp c o hheld hholders hgives hunder houtcomes =>
      obtain ⟨hset, hfree⟩ := hinv.set_of_held c hheld
      have hnone : ∀ c', c' ∉ holders s' := fun c' hc' => by
        obtain ⟨hne, hc'⟩ := (hholders c').mp hc'
        exact hne (hinv.alone c hheld c' hc')
      exact {
        alone := fun c' hc' => absurd hc' (hnone c')
        set_of_held := fun c' hc' => absurd hc' (hnone c')
        set_of_barred := fun _ => hunder.trans hset
        order := by
          rw [houtcomes]
          refine List.pairwise_append.mpr ⟨hinv.order, List.pairwise_singleton _ _, ?_⟩
          intro a ha b _ hgave
          exact absurd ⟨a, ha, hgave⟩ hfree }
  | started c hheld hholders hunder houtcomes =>
      obtain ⟨_, hfree⟩ := hinv.set_of_held c hheld
      have hbarred : Barred s' ↔ Barred s := by simp [barred_concat houtcomes, givesUp]
      have hnone : ∀ c', c' ∉ holders s' := fun c' hc' => by
        obtain ⟨hne, hc'⟩ := (hholders c').mp hc'
        exact hne (hinv.alone c hheld c' hc')
      exact {
        alone := fun c' hc' => absurd hc' (hnone c')
        set_of_held := fun c' hc' => absurd hc' (hnone c')
        set_of_barred := fun hb => absurd (hbarred.mp hb) hfree
        order := by
          rw [houtcomes]
          refine List.pairwise_append.mpr ⟨hinv.order, List.pairwise_singleton _ _, ?_⟩
          intro a ha b _ hgave
          exact absurd ⟨a, ha, hgave⟩ hfree }

theorem initInv_run {ts : List (Transition (HalState κ γ) (LifecycleInput κ γ))}
    (hr : Run step (boot κ γ) ts s) : InitInv s :=
  (hr.invariant InitInv initInv_boot fun _ _ _ hinv h => initInv_step hinv h).1

/--
**After a call of `init` has given up, all others are refused** whose outcome is settled
later, those that had begun as well as those that come. At most one call ever gives up.
-/
theorem nothing_started_after_giving_up {ts : List (Transition (HalState κ γ) (LifecycleInput κ γ))}
    (hr : Run step (boot κ γ) ts s) :
    (s.outcomes.Pairwise fun a b => givesUp a = true → b = .refused) ∧
      (Barred s → ∀ c, s.callers c = none → s.callInit c = some (s.settle .refused)) := by
  have hinv := initInv_run hr
  refine ⟨hinv.order, fun hbarred c hc => ?_⟩
  rw [callInit, hc, hinv.set_of_barred hbarred]
  rfl

/-- One call finds the port taken, and another comes. -/
def portTaken : List (LifecycleInput Bool Unit) :=
  [.callInit false, .init false .proceeds, .init false .fails, .callInit true]

/-- After the failure of the first call the second one is refused. -/
theorem portTaken_refused : ∃ ts s, Run step (boot Bool Unit) ts s ∧ s.outcomes = [.failed, .refused] ∧
    s.callInit false = some (s.settle .refused) := by
  obtain ⟨ts, s, hr, htest⟩ := Run.exists_of_test step (boot Bool Unit) portTaken
    (fun _ s => decide (s.outcomes = [.failed, .refused] ∧ s.callers false = none)) (by decide)
  obtain ⟨houtcomes, hidle⟩ := of_decide_eq_true htest
  have hbarred : Barred s := ⟨.failed, by rw [houtcomes]; exact List.mem_cons_self, rfl⟩
  exact ⟨ts, s, hr, houtcomes, (nothing_started_after_giving_up hr).2 hbarred false hidle⟩

end IronStack.Proof
