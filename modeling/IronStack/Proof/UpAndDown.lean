import IronStack.Proof.Initialization
import Mathlib.Data.Fintype.Basic

/-!
# Starting up and shutting down

The flags `switch_ready` and `shutdown_flag`, the thread objects and the calls under way
go through phases together: the controller is down, or is being started by one call, or is
up, or is being shut down by one call. The code relies on this, without a lock: two things
break it. A call of `init` may pass its check while another caller shuts the controller
down; and a call of `shutdown` may begin as soon as the controller is ready, before `init`
has cleared the other flag and started the threads. In a run in which neither happens, the
two flags are never both set, no thread object is overwritten or joined for nothing, and
between two calls the controller is all up or all down.
-/

namespace IronStack.Proof

open IronStack Lib HalState

variable {κ γ : Type} {s s' : HalState κ γ}

/-- The points of `init` behind the check, up to the start of the last thread. -/
def pastCheck : InitPoint → Bool
  | .checkReady | .checkShutdown | .initServices => false
  | _ => true

/-- The call has the flags and the threads to itself. -/
def exclusive : HalCall → Bool
  | .init p => pastCheck p
  | .shutdown _ => true

/-- `init` has set `switch_ready`, and has not started all threads yet. -/
def startsThreads : InitPoint → Bool
  | .storeShutdown | .storeInitialization | .startRecv | .startSend | .startProcess
  | .startMaintenance => true
  | _ => false

/-! ## The phases -/

/-- The flags, and which of the thread objects are not joinable. -/
structure Outline where
  ready : Bool
  flag : Bool
  recvAbsent : Bool
  sendAbsent : Bool
  processAbsent : Bool
  maintenanceAbsent : Bool

def outline (s : HalState κ γ) : Outline where
  ready := s.switchReady
  flag := s.shutdownFlag
  recvAbsent := s.recvLoopThread.isAbsent
  sendAbsent := s.sendLoopThread.isAbsent
  processAbsent := s.processLoopThread.isAbsent
  maintenanceAbsent := s.maintenanceThread.isAbsent

/-- What the controller as a whole is doing. -/
inductive LifecyclePhase (κ : Type) where
  | down
  | starting (caller : κ) (point : InitPoint)
  | up
  | stopping (caller : κ) (point : ShutdownPoint)

namespace LifecyclePhase

/-- `init` has just got to this point. -/
def startingOutline : InitPoint → Outline
  | .storeShutdown | .storeInitialization | .startRecv => ⟨true, false, true, true, true, true⟩
  | .startSend => ⟨true, false, false, true, true, true⟩
  | .startProcess => ⟨true, false, false, false, true, true⟩
  | .startMaintenance => ⟨true, false, false, false, false, true⟩
  | _ => ⟨false, false, true, true, true, true⟩

/-- `shutdown` has just got to this point. -/
def stoppingOutline : ShutdownPoint → Outline
  | .raiseFlag => ⟨false, false, false, false, false, false⟩
  | .clearReady | .wakeSend | .wakeProcess | .close | .joinSend => ⟨false, true, false, false, false, false⟩
  | .joinRecv => ⟨false, true, false, true, false, false⟩
  | .joinProcess => ⟨false, true, true, true, false, false⟩
  | .joinMaintenance => ⟨false, true, true, true, true, false⟩
  | .clearCallbacks | .clearPending | .clearMessages | .resetReady | .resetFlag =>
      ⟨false, true, true, true, true, true⟩

def outline : LifecyclePhase κ → Outline
  | down => ⟨false, false, true, true, true, true⟩
  | starting _ p => startingOutline p
  | up => ⟨true, false, false, false, false, false⟩
  | stopping _ p => stoppingOutline p

/-- The call that has the controller to itself. -/
def owner : LifecyclePhase κ → Option (κ × HalCall)
  | down | up => none
  | starting c p => some (c, .init p)
  | stopping c p => some (c, .shutdown p)

theorem eq_starting {phase : LifecyclePhase κ} {c : κ} {p : InitPoint}
    (h : phase.owner = some (c, .init p)) : phase = .starting c p := by
  cases phase <;> cases h
  rfl

theorem eq_stopping {phase : LifecyclePhase κ} {c : κ} {p : ShutdownPoint}
    (h : phase.owner = some (c, .shutdown p)) : phase = .stopping c p := by
  cases phase <;> cases h
  rfl

end LifecyclePhase

/-- The controller is in a phase. -/
structure InPhase (s : HalState κ γ) (phase : LifecyclePhase κ) : Prop where
  outline : outline s = phase.outline
  /-- The owner is behind the check of its call. -/
  owner : ∀ c call, phase.owner = some (c, call) → s.callers c = some call ∧ exclusive call = true
  alone : ∀ c call, s.callers c = some call → exclusive call = true → phase.owner = some (c, call)

theorem inPhase_boot : InPhase (boot κ γ) .down where
  outline := rfl
  owner c call h := by cases h
  alone c call h := by cases h

/-! ## What keeps the phases -/

/-- The call is about to pass the check of `init`. -/
def PassesCheck (s : HalState κ γ) (c : κ) : Prop :=
  s.callers c = some (.init .checkReady) ∧ s.switchReady = false ∨
    s.callers c = some (.init .checkShutdown) ∧ s.shutdownFlag = true

/-- The caller shuts the controller down. -/
def shutsDown : Option HalCall → Bool
  | some (.shutdown _) => true
  | _ => false

/-- The caller has the controller ready, and is not done with its threads. -/
def startsUp : Option HalCall → Bool
  | some (.init p) => startsThreads p
  | _ => false

/--
The step does not let a call of `init` pass its check while the controller is shut down,
and does not begin to shut it down while it is being started.
-/
def Uncrossed (s : HalState κ γ) : LifecycleInput κ γ → Prop
  | .init c _ => PassesCheck s c → ∀ c', shutsDown (s.callers c') = false
  | .callShutdown _ => s.switchReady = true → ∀ c', startsUp (s.callers c') = false
  | _ => True

instance (s : HalState κ γ) (c : κ) : Decidable (PassesCheck s c) :=
  inferInstanceAs (Decidable (_ ∨ _))

instance [Fintype κ] (s : HalState κ γ) : (input : LifecycleInput κ γ) → Decidable (Uncrossed s input)
  | .init c _ => inferInstanceAs (Decidable (PassesCheck s c → ∀ c', shutsDown (s.callers c') = false))
  | .callShutdown _ =>
      inferInstanceAs (Decidable (s.switchReady = true → ∀ c', startsUp (s.callers c') = false))
  | .callInit _ | .shutdown _ | .sendLoop _ | .recvLoop _ | .processLoop | .maintenance _
  | .construct _ _ | .enqueue _ => .isTrue trivial

/-- A caller is about to assign to a thread object that is joinable, or to join one that is not. -/
def TakenDown (s : HalState κ γ) : Prop :=
  ∃ c, s.callers c = some (.init .startRecv) ∧ s.recvLoopThread.isAbsent = false ∨
    s.callers c = some (.init .startSend) ∧ s.sendLoopThread.isAbsent = false ∨
    s.callers c = some (.init .startProcess) ∧ s.processLoopThread.isAbsent = false ∨
    s.callers c = some (.init .startMaintenance) ∧ s.maintenanceThread.isAbsent = false ∨
    s.callers c = some (.shutdown .joinSend) ∧ s.sendLoopThread.isAbsent = true ∨
    s.callers c = some (.shutdown .joinRecv) ∧ s.recvLoopThread.isAbsent = true ∨
    s.callers c = some (.shutdown .joinProcess) ∧ s.processLoopThread.isAbsent = true ∨
    s.callers c = some (.shutdown .joinMaintenance) ∧ s.maintenanceThread.isAbsent = true

/-- No thread of `hal` is left. -/
def ThreadsGone (s : HalState κ γ) : Prop :=
  s.recvLoopThread.isAbsent = true ∧ s.sendLoopThread.isAbsent = true ∧
    s.processLoopThread.isAbsent = true ∧ s.maintenanceThread.isAbsent = true

/-- All threads of `hal` are there, at work or waiting to be joined. -/
def ThreadsThere (s : HalState κ γ) : Prop :=
  s.recvLoopThread.isAbsent = false ∧ s.sendLoopThread.isAbsent = false ∧
    s.processLoopThread.isAbsent = false ∧ s.maintenanceThread.isAbsent = false

namespace InPhase

variable {phase : LifecyclePhase κ}

theorem of_kept (h : InPhase s phase) (hkept : CallsKept s s') : InPhase s' phase where
  outline := by
    rw [← h.outline]
    simp [Proof.outline, hkept.switchReady, hkept.shutdownFlag, hkept.recvLoopThread, hkept.sendLoopThread,
      hkept.processLoopThread, hkept.maintenanceThread]
  owner := hkept.callers ▸ h.owner
  alone := hkept.callers ▸ h.alone

variable [DecidableEq κ]

/-- A call that does not have the controller to itself goes on, or ends. -/
theorem of_bystander (h : InPhase s phase) (c : κ) (call : Option HalCall)
    (hbefore : ∀ call, s.callers c = some call → exclusive call = false)
    (hafter : ∀ call', call = some call' → exclusive call' = false)
    (hcallers : s'.callers = Function.update s.callers c call)
    (houtline : Proof.outline s' = Proof.outline s) : InPhase s' phase where
  outline := houtline.trans h.outline
  owner c' call' howner := by
    obtain ⟨hc', hexclusive⟩ := h.owner c' call' howner
    have hne : c' ≠ c := by
      rintro rfl
      rw [hbefore call' hc'] at hexclusive
      cases hexclusive
    exact ⟨by rw [hcallers, Function.update_of_ne hne, hc'], hexclusive⟩
  alone c' call' hc' hexclusive := by
    rw [hcallers] at hc'
    by_cases heq : c' = c
    · subst heq
      rw [Function.update_self] at hc'
      rw [hafter call' hc'] at hexclusive
      cases hexclusive
    · rw [Function.update_of_ne heq] at hc'
      exact h.alone c' call' hc' hexclusive

/-- The call that has the controller to itself goes on, or begins. -/
theorem of_owner (h : InPhase s phase) {c : κ} {call : HalCall}
    (howner : ∀ c' call', phase.owner = some (c', call') → c' = c) (next : LifecyclePhase κ)
    (hnext : next.owner = some (c, call)) (hexclusive : exclusive call = true)
    (hcallers : s'.callers = Function.update s.callers c (some call))
    (houtline : Proof.outline s' = next.outline) : InPhase s' next where
  outline := houtline
  owner c' call' heq := by
    rw [hnext] at heq
    cases heq
    exact ⟨by rw [hcallers, Function.update_self], hexclusive⟩
  alone c' call' hc' hexcl := by
    rw [hcallers] at hc'
    by_cases heq : c' = c
    · subst heq
      rw [Function.update_self] at hc'
      cases hc'
      exact hnext
    · rw [Function.update_of_ne heq] at hc'
      exact absurd (howner c' call' (h.alone c' call' hc' hexcl)) heq

/-- The call that has the controller to itself leaves it to all. -/
theorem of_release (h : InPhase s phase) {c : κ} {call : Option HalCall}
    (howner : ∀ c' call', phase.owner = some (c', call') → c' = c) (next : LifecyclePhase κ)
    (hnext : next.owner = none) (hexclusive : ∀ call', call = some call' → exclusive call' = false)
    (hcallers : s'.callers = Function.update s.callers c call)
    (houtline : Proof.outline s' = next.outline) : InPhase s' next where
  outline := houtline
  owner c' call' heq := by
    rw [hnext] at heq
    cases heq
  alone c' call' hc' hexcl := by
    rw [hcallers] at hc'
    by_cases heq : c' = c
    · subst heq
      rw [Function.update_self] at hc'
      rw [hexclusive call' hc'] at hexcl
      cases hexcl
    · rw [Function.update_of_ne heq] at hc'
      exact absurd (howner c' call' (h.alone c' call' hc' hexcl)) heq

end InPhase

theorem sole_owner {phase : LifecyclePhase κ} {c : κ} {call : HalCall} (h : phase.owner = some (c, call)) :
    ∀ c' call', phase.owner = some (c', call') → c' = c := by
  intro c' call' h'
  rw [h] at h'
  cases h'
  rfl

theorem isAbsent_of_start {P : Type} {t t' : LoopThread P} {entry : P} (h : t.start entry = some t') :
    t'.isAbsent = false := by
  rw [LoopThread.start] at h
  split at h
  · cases h
    rfl
  · cases h

theorem isAbsent_of_join {P : Type} {t t' : LoopThread P} (h : t.join = some t') : t'.isAbsent = true := by
  cases t <;> cases h
  rfl

/-! ## Each call -/

variable [DecidableEq κ]

theorem sendOwn_phase {c : κ} {p next : InitPoint} {event : InitEvent}
    (h : InPhase s (.starting c p))
    (hp : LifecyclePhase.startingOutline p = (LifecyclePhase.down : LifecyclePhase κ).outline)
    (hnext : LifecyclePhase.startingOutline next = (LifecyclePhase.down : LifecyclePhase κ).outline)
    (hpast : pastCheck next = true)
    (hstep : s.sendOwn c next event = some s') : ∃ phase, InPhase s' phase := by
  have hdown : outline s = (LifecyclePhase.down : LifecyclePhase κ).outline := h.outline.trans hp
  cases event with
  | proceeds =>
      rw [sendOwn] at hstep
      split at hstep
      · cases hstep
        exact ⟨_, h.of_owner (sole_owner rfl) (.starting c next) rfl hpast rfl (hdown.trans hnext.symm)⟩
      · cases hstep
  | fails =>
      cases hstep
      exact ⟨_, h.of_release (sole_owner rfl) .down rfl (by simp) rfl hdown⟩
  | receives m => cases hstep

theorem awaitMessage_phase {c : κ} {p next : InitPoint} {msgType : OfpType} {event : InitEvent}
    (h : InPhase s (.starting c p))
    (hp : LifecyclePhase.startingOutline p = (LifecyclePhase.down : LifecyclePhase κ).outline)
    (hnext : LifecyclePhase.startingOutline next = (LifecyclePhase.down : LifecyclePhase κ).outline)
    (hpast : pastCheck next = true)
    (hstep : s.awaitMessage c msgType next event = some s') : ∃ phase, InPhase s' phase := by
  have hdown : outline s = (LifecyclePhase.down : LifecyclePhase κ).outline := h.outline.trans hp
  cases event with
  | proceeds => cases hstep
  | fails =>
      cases hstep
      exact ⟨_, h.of_release (sole_owner rfl) .down rfl (by simp) rfl hdown⟩
  | receives m =>
      rw [awaitMessage] at hstep
      split at hstep
      · cases hstep
        exact ⟨_, h.of_owner (sole_owner rfl) (.starting c next) rfl hpast rfl (hdown.trans hnext.symm)⟩
      · cases hstep
        exact ⟨_, h.outline, h.owner, h.alone⟩

theorem initStep_phase {phase : LifecyclePhase κ} {c : κ} {p : InitPoint} {event : InitEvent}
    (h : InPhase s phase) (hc : s.callers c = some (.init p)) (hpast : pastCheck p = true)
    (hstep : s.initStep c event p = some s') : ∃ phase, InPhase s' phase := by
  obtain rfl := LifecyclePhase.eq_starting (h.alone c _ hc hpast)
  have hown : ∀ c' call', (LifecyclePhase.starting c p).owner = some (c', call') → c' = c := sole_owner rfl
  cases p with
  | checkReady | checkShutdown | initServices => cases hpast
  | listen =>
      cases event with
      | proceeds =>
          cases hstep
          exact ⟨_, h.of_owner hown (.starting c .accept) rfl rfl rfl h.outline⟩
      | fails =>
          cases hstep
          exact ⟨_, h.of_release hown .down rfl (by simp) rfl h.outline⟩
      | receives m => cases hstep
  | accept =>
      cases event with
      | proceeds =>
          cases hstep
          exact ⟨_, h.of_owner hown (.starting c .sendHello) rfl rfl rfl h.outline⟩
      | fails =>
          cases hstep
          exact ⟨_, h.outline, h.owner, h.alone⟩
      | receives m => cases hstep
  | sendHello => exact sendOwn_phase h rfl rfl rfl hstep
  | awaitHello => exact awaitMessage_phase h rfl rfl rfl hstep
  | sendSetConfig => exact sendOwn_phase h rfl rfl rfl hstep
  | sendEcho => exact sendOwn_phase h rfl rfl rfl hstep
  | awaitEcho => exact awaitMessage_phase h rfl rfl rfl hstep
  | storeReady =>
      cases hstep
      exact ⟨_, h.of_owner hown (.starting c .storeShutdown) rfl rfl rfl
        (congrArg (fun o => { o with ready := true }) h.outline)⟩
  | storeShutdown =>
      cases hstep
      exact ⟨_, h.of_owner hown (.starting c .storeInitialization) rfl rfl rfl
        (congrArg (fun o => { o with flag := false }) h.outline)⟩
  | storeInitialization =>
      cases hstep
      exact ⟨_, h.of_owner hown (.starting c .startRecv) rfl rfl rfl h.outline⟩
  | startRecv =>
      obtain ⟨t, ht, rfl⟩ := Option.map_eq_some_iff.mp hstep
      have houtline : { outline s with recvAbsent := t.isAbsent } =
        (LifecyclePhase.starting c .startSend).outline := by
        rw [isAbsent_of_start ht, h.outline]
        rfl
      exact ⟨_, h.of_owner hown (.starting c .startSend) rfl rfl rfl houtline⟩
  | startSend =>
      obtain ⟨t, ht, rfl⟩ := Option.map_eq_some_iff.mp hstep
      have houtline : { outline s with sendAbsent := t.isAbsent } =
        (LifecyclePhase.starting c .startProcess).outline := by
        rw [isAbsent_of_start ht, h.outline]
        rfl
      exact ⟨_, h.of_owner hown (.starting c .startProcess) rfl rfl rfl houtline⟩
  | startProcess =>
      obtain ⟨t, ht, rfl⟩ := Option.map_eq_some_iff.mp hstep
      have houtline : { outline s with processAbsent := t.isAbsent } =
        (LifecyclePhase.starting c .startMaintenance).outline := by
        rw [isAbsent_of_start ht, h.outline]
        rfl
      exact ⟨_, h.of_owner hown (.starting c .startMaintenance) rfl rfl rfl houtline⟩
  | startMaintenance =>
      obtain ⟨t, ht, rfl⟩ := Option.map_eq_some_iff.mp hstep
      have houtline : { outline s with maintenanceAbsent := t.isAbsent } =
        (LifecyclePhase.up : LifecyclePhase κ).outline := by
        rw [isAbsent_of_start ht, h.outline]
        rfl
      exact ⟨_, h.of_release hown .up rfl (by simp [exclusive, pastCheck]) rfl houtline⟩

theorem shutdownStep_phase {phase : LifecyclePhase κ} {c : κ} {p : ShutdownPoint} (h : InPhase s phase)
    (hc : s.callers c = some (.shutdown p)) (hstep : s.shutdownStep c p = some s') :
    ∃ phase, InPhase s' phase := by
  obtain rfl := LifecyclePhase.eq_stopping (h.alone c _ hc rfl)
  have hown : ∀ c' call', (LifecyclePhase.stopping c p).owner = some (c', call') → c' = c := sole_owner rfl
  cases p with
  | raiseFlag =>
      have hflag : s.shutdownFlag = false := congrArg Outline.flag h.outline
      rw [shutdownStep, hflag] at hstep
      cases hstep
      exact ⟨_, h.of_owner hown (.stopping c .clearReady) rfl rfl rfl
        (congrArg (fun o => { o with flag := true }) h.outline)⟩
  | clearReady =>
      cases hstep
      exact ⟨_, h.of_owner hown (.stopping c .wakeSend) rfl rfl rfl
        (congrArg (fun o => { o with ready := false }) h.outline)⟩
  | wakeSend =>
      cases hstep
      exact ⟨_, h.of_owner hown (.stopping c .wakeProcess) rfl rfl rfl h.outline⟩
  | wakeProcess =>
      cases hstep
      exact ⟨_, h.of_owner hown (.stopping c .close) rfl rfl rfl h.outline⟩
  | close =>
      cases hstep
      exact ⟨_, h.of_owner hown (.stopping c .joinSend) rfl rfl rfl h.outline⟩
  | joinSend =>
      obtain ⟨t, ht, rfl⟩ := Option.map_eq_some_iff.mp hstep
      have houtline : { outline s with sendAbsent := t.isAbsent } =
          (LifecyclePhase.stopping c .joinRecv).outline := by
        rw [isAbsent_of_join ht, h.outline]
        rfl
      exact ⟨_, h.of_owner hown (.stopping c .joinRecv) rfl rfl rfl houtline⟩
  | joinRecv =>
      obtain ⟨t, ht, rfl⟩ := Option.map_eq_some_iff.mp hstep
      have houtline : { outline s with recvAbsent := t.isAbsent } =
          (LifecyclePhase.stopping c .joinProcess).outline := by
        rw [isAbsent_of_join ht, h.outline]
        rfl
      exact ⟨_, h.of_owner hown (.stopping c .joinProcess) rfl rfl rfl houtline⟩
  | joinProcess =>
      obtain ⟨t, ht, rfl⟩ := Option.map_eq_some_iff.mp hstep
      have houtline : { outline s with processAbsent := t.isAbsent } =
          (LifecyclePhase.stopping c .joinMaintenance).outline := by
        rw [isAbsent_of_join ht, h.outline]
        rfl
      exact ⟨_, h.of_owner hown (.stopping c .joinMaintenance) rfl rfl rfl houtline⟩
  | joinMaintenance =>
      obtain ⟨t, ht, rfl⟩ := Option.map_eq_some_iff.mp hstep
      have houtline : { outline s with maintenanceAbsent := t.isAbsent } =
          (LifecyclePhase.stopping c .clearCallbacks).outline := by
        rw [isAbsent_of_join ht, h.outline]
        rfl
      exact ⟨_, h.of_owner hown (.stopping c .clearCallbacks) rfl rfl rfl houtline⟩
  | clearCallbacks =>
      cases hstep
      exact ⟨_, h.of_owner hown (.stopping c .clearPending) rfl rfl rfl h.outline⟩
  | clearPending =>
      cases hstep
      exact ⟨_, h.of_owner hown (.stopping c .clearMessages) rfl rfl rfl h.outline⟩
  | clearMessages =>
      cases hstep
      exact ⟨_, h.of_owner hown (.stopping c .resetReady) rfl rfl rfl h.outline⟩
  | resetReady =>
      cases hstep
      exact ⟨_, h.of_owner hown (.stopping c .resetFlag) rfl rfl rfl
        (congrArg (fun o => { o with ready := false }) h.outline)⟩
  | resetFlag =>
      cases hstep
      exact ⟨_, h.of_release hown .down rfl (by simp) rfl
        (congrArg (fun o => { o with flag := false }) h.outline)⟩

omit [DecidableEq κ] in
/-- A call that passes the check finds the controller down. -/
theorem passesCheck_phase {phase : LifecyclePhase κ} {c : κ} {p : InitPoint} (hinv : InitInv s)
    (h : InPhase s phase) (hc : s.callers c = some (.init p)) (hp : pastCheck p = false)
    (hheld : holdsInitialization (.init p) = true) (hpasses : PassesCheck s c)
    (halone : ∀ c', shutsDown (s.callers c') = false) : phase = .down := by
  cases phase with
  | down => rfl
  | up =>
      have hready : s.switchReady = true := congrArg Outline.ready h.outline
      have hflag : s.shutdownFlag = false := congrArg Outline.flag h.outline
      rcases hpasses with ⟨_, hnot⟩ | ⟨_, hset⟩
      · rw [hready] at hnot
        cases hnot
      · rw [hflag] at hset
        cases hset
  | starting c' p' =>
      -- two calls cannot both have the controller under initialization
      obtain ⟨hc', hpast⟩ := h.owner c' _ rfl
      by_cases hheld' : holdsInitialization (.init p') = true
      · obtain rfl := hinv.alone c ⟨_, hc, hheld⟩ c' ⟨_, hc', hheld'⟩
        rw [hc] at hc'
        cases hc'
        rw [exclusive, hp] at hpast
        cases hpast
      · have hready : s.switchReady = startsThreads p' := by
          refine (congrArg Outline.ready h.outline).trans ?_
          cases p' <;> rfl
        have hflag : s.shutdownFlag = false := by
          refine (congrArg Outline.flag h.outline).trans ?_
          cases p' <;> rfl
        rcases hpasses with ⟨_, hnot⟩ | ⟨_, hset⟩
        · rw [hready] at hnot
          cases p' <;> simp [startsThreads, holdsInitialization, exclusive, pastCheck] at hnot hheld' hpast
        · rw [hflag] at hset
          cases hset
  | stopping c' p' =>
      have hnot := halone c'
      rw [(h.owner c' _ rfl).1] at hnot
      cases hnot

/-- **Preserved by every step** that leaves starting and shutting down undisturbed. -/
theorem inPhase_step {phase : LifecyclePhase κ} {input : LifecycleInput κ γ} (hinv : InitInv s)
    (h : InPhase s phase) (hok : Uncrossed s input) (hstep : s.step input = some s') :
    ∃ phase, InPhase s' phase := by
  cases input with
  | callInit c =>
      rw [step, callInit] at hstep
      split at hstep
      · cases hstep
      · rename_i hfree
        split at hstep
        · cases hstep
          exact ⟨phase, h.outline, h.owner, h.alone⟩
        · cases hstep
          refine ⟨phase, h.of_bystander c (some (.init .checkReady)) ?_ ?_ rfl rfl⟩
          · intro call hcall
            rw [hcall] at hfree
            exact absurd rfl hfree
          · rintro _ ⟨⟩
            rfl
  | callShutdown c =>
      rw [step, callShutdown] at hstep
      split at hstep
      · cases hstep
      · split at hstep
        · rename_i hready
          cases hstep
          have hup : phase = .up := by
            have hphase : phase.outline.ready = true := (congrArg Outline.ready h.outline).symm.trans hready
            cases phase with
            | down => cases hphase
            | up => rfl
            | starting c' p' =>
                have hstarts : startsThreads p' = true := by
                  rw [← hphase]
                  cases p' <;> rfl
                have hnot := hok hready c'
                rw [(h.owner c' _ rfl).1, startsUp, hstarts] at hnot
                cases hnot
            | stopping c' p' => cases p' <;> cases hphase
          subst hup
          exact ⟨_, h.of_owner (fun c' call hc' => by cases hc') (.stopping c .raiseFlag) rfl rfl rfl
            (congrArg (fun o => { o with ready := false }) h.outline)⟩
        · cases hstep
          exact ⟨phase, h⟩
  | init c event =>
      rw [step] at hstep
      split at hstep
      · rename_i p hc
        by_cases hpast : pastCheck p = true
        · exact initStep_phase h hc hpast hstep
        · cases p with
          | checkReady =>
              by_cases hready : s.switchReady = true
              · rw [initStep, hready] at hstep
                cases hstep
                refine ⟨phase, h.of_bystander c (some (.init .checkShutdown)) ?_ ?_ rfl rfl⟩
                · intro call hcall
                  rw [hc] at hcall
                  cases hcall
                  rfl
                · rintro _ ⟨⟩
                  rfl
              · have hclear : s.switchReady = false := by simpa using hready
                have hpasses : PassesCheck s c := .inl ⟨hc, hclear⟩
                obtain rfl := passesCheck_phase hinv h hc rfl rfl hpasses (hok hpasses)
                rw [initStep, hclear] at hstep
                cases hstep
                exact ⟨_, h.of_owner (fun c' call hc' => by cases hc') (.starting c .listen) rfl rfl rfl
                  h.outline⟩
          | checkShutdown =>
              rw [initStep] at hstep
              split at hstep
              · rename_i hset
                have hpasses : PassesCheck s c := .inr ⟨hc, hset⟩
                obtain rfl := passesCheck_phase hinv h hc rfl rfl hpasses (hok hpasses)
                cases hstep
                exact ⟨_, h.of_owner (fun c' call hc' => by cases hc') (.starting c .listen) rfl rfl rfl
                  h.outline⟩
              · cases hstep
                refine ⟨phase, h.of_bystander c none ?_ (by simp) rfl rfl⟩
                intro call hcall
                rw [hc] at hcall
                cases hcall
                rfl
          | initServices =>
              cases hstep
              refine ⟨phase, h.of_bystander c none ?_ (by simp) rfl rfl⟩
              intro call hcall
              rw [hc] at hcall
              cases hcall
              rfl
          | _ => exact absurd rfl hpast
      · cases hstep
  | shutdown c =>
      rw [step] at hstep
      split at hstep
      · rename_i hc
        exact shutdownStep_phase h hc hstep
      · cases hstep
  | _ => exact ⟨phase, h.of_kept (loop_kept (by trivial) hstep)⟩

/-! ## Runs -/

theorem inPhase_run {ts : List (Transition (HalState κ γ) (LifecycleInput κ γ))}
    (hr : Run step (boot κ γ) ts s) (hok : ∀ t ∈ ts, Uncrossed t.source t.input) :
    ∃ phase, InPhase s phase := by
  refine (hr.invariant_guarded (fun s => InitInv s ∧ ∃ phase, InPhase s phase) Uncrossed
    ⟨initInv_boot, .down, inPhase_boot⟩ ?_ hok).1.2
  rintro u i v ⟨hinv, phase, h⟩ hok hstep
  exact ⟨initInv_step hinv hstep, inPhase_step hinv h hok hstep⟩

omit [DecidableEq κ] in
/-- The flags are never both set, and nobody takes the process down. -/
theorem InPhase.safe {phase : LifecyclePhase κ} (h : InPhase s phase) :
    ¬ (s.switchReady = true ∧ s.shutdownFlag = true) ∧ ¬ TakenDown s := by
  have houtline := h.outline
  refine ⟨?_, ?_⟩
  · rintro ⟨hready, hflag⟩
    have hready' : phase.outline.ready = true := (congrArg Outline.ready houtline).symm.trans hready
    have hflag' : phase.outline.flag = true := (congrArg Outline.flag houtline).symm.trans hflag
    cases phase with
    | down | up => cases hflag'
    | starting c p => cases p <;> cases hflag'
    | stopping c p => cases p <;> cases hready'
  · rintro ⟨c, hc⟩
    rcases hc with ⟨hc, ht⟩ | ⟨hc, ht⟩ | ⟨hc, ht⟩ | ⟨hc, ht⟩ | ⟨hc, ht⟩ | ⟨hc, ht⟩ | ⟨hc, ht⟩ | ⟨hc, ht⟩
    all_goals
      first
      | obtain rfl := LifecyclePhase.eq_starting (h.alone c _ hc rfl)
      | obtain rfl := LifecyclePhase.eq_stopping (h.alone c _ hc rfl)
      injection houtline with _ _ hrecv hsend hprocess hmaintenance
      simp_all

omit [DecidableEq κ] in
/-- Between the calls the controller is up, with all its threads, or down, and has none. -/
theorem InPhase.settled {phase : LifecyclePhase κ} (h : InPhase s phase)
    (hnone : ∀ c call, s.callers c = some call → exclusive call = false) :
    s.switchReady = true ∧ s.shutdownFlag = false ∧ ThreadsThere s ∨
      s.switchReady = false ∧ s.shutdownFlag = false ∧ ThreadsGone s := by
  have houtline := h.outline
  cases phase with
  | down =>
      injection houtline with hready hflag hrecv hsend hprocess hmaintenance
      exact .inr ⟨hready, hflag, hrecv, hsend, hprocess, hmaintenance⟩
  | up =>
      injection houtline with hready hflag hrecv hsend hprocess hmaintenance
      exact .inl ⟨hready, hflag, hrecv, hsend, hprocess, hmaintenance⟩
  | starting c p | stopping c p =>
      obtain ⟨hc, hexclusive⟩ := h.owner c _ rfl
      rw [hnone c _ hc] at hexclusive
      cases hexclusive

/--
**Calls that do not disturb each other are safe**: `switch_ready` and `shutdown_flag` are
never both set, no thread object is overwritten while joinable or joined while not, and when
no call has the controller to itself, it is up with all its threads or down without any.
-/
theorem undisturbed_calls_safe {ts : List (Transition (HalState κ γ) (LifecycleInput κ γ))}
    (hr : Run step (boot κ γ) ts s) (hok : ∀ t ∈ ts, Uncrossed t.source t.input) :
    ¬ (s.switchReady = true ∧ s.shutdownFlag = true) ∧ ¬ TakenDown s ∧
      ((∀ c call, s.callers c = some call → exclusive call = false) →
        s.switchReady = true ∧ s.shutdownFlag = false ∧ ThreadsThere s ∨
          s.switchReady = false ∧ s.shutdownFlag = false ∧ ThreadsGone s) := by
  obtain ⟨phase, h⟩ := inPhase_run hr hok
  exact ⟨h.safe.1, h.safe.2, h.settled⟩

/-- A call of `init`, from beginning to end. -/
def startUp : List (LifecycleInput Bool Unit) :=
  [.callInit false, .init false .proceeds, .init false .proceeds, .init false .proceeds,
    .init false .proceeds, .init false (.receives ⟨0, .hello⟩), .init false .proceeds,
    .init false .proceeds, .init false (.receives ⟨3, .echoReply⟩)] ++
    List.replicate 8 (.init false .proceeds)

/-- The steps of the run all leave starting and shutting down undisturbed. -/
def isUncrossed (ts : List (Transition (HalState Bool Unit) (LifecycleInput Bool Unit))) : Bool :=
  ts.all fun t => decide (Uncrossed t.source t.input)

theorem uncrossed_of_isUncrossed {ts : List (Transition (HalState Bool Unit) (LifecycleInput Bool Unit))}
    (h : isUncrossed ts = true) : ∀ t ∈ ts, Uncrossed t.source t.input := fun t ht =>
  of_decide_eq_true (List.all_eq_true.mp h t ht)

/-- Once started, the controller is up, with all its threads. -/
theorem startUp_settled : ∃ ts s, Run step (boot Bool Unit) ts s ∧ s.switchReady = true ∧ ThreadsThere s := by
  obtain ⟨ts, s, hr, htest⟩ := Run.exists_of_test step (boot Bool Unit) startUp
    (fun ts s => isUncrossed ts && (s.switchReady && decide (∀ c, s.callers c = none))) (by decide)
  simp only [Bool.and_eq_true, decide_eq_true_eq] at htest
  obtain ⟨hok, hready, hidle⟩ := htest
  refine ⟨ts, s, hr, hready, ?_⟩
  rcases (undisturbed_calls_safe hr (uncrossed_of_isUncrossed hok)).2.2 (by simp [hidle]) with h | h
  · exact h.2.2
  · rw [hready] at h
    cases h.1

/-- A second call of `init`, while the first caller shuts the controller down. -/
example : ((record step (boot Bool Unit) (startUp ++ [.callShutdown false, .callInit true,
    .init true .proceeds, .shutdown false, .init true .proceeds, .init true .proceeds,
    .init true .proceeds, .init true (.receives ⟨4, .hello⟩), .init true .proceeds,
    .init true .proceeds, .init true (.receives ⟨6, .echoReply⟩), .init true .proceeds])).any fun r =>
      r.2.switchReady && r.2.shutdownFlag) = true := by
  decide

/-! ## Shutting down behind a barrier -/

/-- The controller is shut down while the maintenance thread waits for a barrier, and nobody
processes replies any more. -/
structure AwaitsBarrier (s : HalState κ γ) (c : κ) (o : HalObject γ) : Prop where
  stopping : ∃ p, s.callers c = some (.shutdown p)
  waiting : s.maintenanceThread = .running (.wait o)
  missing : o.number ∉ s.completed
  process : ∀ p, s.processLoopThread ≠ .running p

namespace AwaitsBarrier

variable {c : κ} {o : HalObject γ}

theorem initStep {c' : κ} {p : InitPoint} {event : InitEvent} (h : AwaitsBarrier s c o)
    (hother : c' ≠ c) (hp : pastCheck p = false) (hstep : s.initStep c' event p = some s')
    (hpasses : ¬ PassesCheck s c') (hc' : s.callers c' = some (.init p)) : AwaitsBarrier s' c o := by
  obtain ⟨q, hq⟩ := h.stopping
  have hkeep : ∀ call, Function.update s.callers c' call c = some (.shutdown q) := fun call => by
    rw [Function.update_of_ne (Ne.symm hother), hq]
  cases p with
  | checkReady =>
      cases hstep
      exact ⟨⟨q, hkeep _⟩, h.waiting, h.missing, h.process⟩
  | checkShutdown =>
      rw [HalState.initStep] at hstep
      split at hstep
      · rename_i hset
        exact absurd (.inr ⟨hc', hset⟩) hpasses
      · cases hstep
        exact ⟨⟨q, hkeep _⟩, h.waiting, h.missing, h.process⟩
  | initServices =>
      cases hstep
      exact ⟨⟨q, hkeep _⟩, h.waiting, h.missing, h.process⟩
  | _ => cases hp

/-- The caller gets no further than to the maintenance thread. -/
theorem shutdownStep {p : ShutdownPoint} (h : AwaitsBarrier s c o)
    (hbefore : (LifecyclePhase.stoppingOutline p).maintenanceAbsent = false)
    (hflag : p = .raiseFlag → s.shutdownFlag = false) (hstep : s.shutdownStep c p = some s') :
    AwaitsBarrier s' c o := by
  cases p with
  | raiseFlag =>
      rw [HalState.shutdownStep, hflag rfl] at hstep
      cases hstep
      exact ⟨⟨_, Function.update_self ..⟩, h.waiting, h.missing, h.process⟩
  | clearReady | wakeSend | wakeProcess | close =>
      cases hstep
      exact ⟨⟨_, Function.update_self ..⟩, h.waiting, h.missing, h.process⟩
  | joinSend | joinRecv =>
      obtain ⟨t, _, rfl⟩ := Option.map_eq_some_iff.mp hstep
      exact ⟨⟨_, Function.update_self ..⟩, h.waiting, h.missing, h.process⟩
  | joinProcess =>
      obtain ⟨t, ht, rfl⟩ := Option.map_eq_some_iff.mp hstep
      refine ⟨⟨_, Function.update_self ..⟩, h.waiting, h.missing, ?_⟩
      rintro q rfl
      cases isAbsent_of_join ht
  | joinMaintenance =>
      rw [HalState.shutdownStep, h.waiting] at hstep
      cases hstep
  | _ => cases hbefore

theorem loopStep {input : LifecycleInput κ γ} (h : AwaitsBarrier s c o) (hloop : IsLoopInput input)
    (hstep : s.step input = some s') : AwaitsBarrier s' c o := by
  obtain ⟨q, hq⟩ := h.stopping
  have hstopping : ∃ q, s'.callers c = some (.shutdown q) :=
    ⟨q, by rw [(loop_kept hloop hstep).callers, hq]⟩
  cases input with
  | callInit c' => cases hloop
  | callShutdown c' => cases hloop
  | init c' event => cases hloop
  | shutdown c' => cases hloop
  | sendLoop ok =>
      rw [step, sendLoopStep] at hstep
      split at hstep
      · cases hstep
      · cases hstep
      · cases hstep
        exact ⟨hstopping, h.waiting, h.missing, h.process⟩
      · split at hstep
        · cases hstep
        · cases hstep
          exact ⟨hstopping, h.waiting, h.missing, h.process⟩
        · cases hstep
          exact ⟨hstopping, h.waiting, h.missing, h.process⟩
      · split at hstep <;> cases hstep <;> exact ⟨hstopping, h.waiting, h.missing, h.process⟩
  | recvLoop message =>
      rw [step, recvLoopStep.eq_def] at hstep
      split at hstep
      · cases hstep
      · cases hstep
      · cases hstep
        exact ⟨hstopping, h.waiting, h.missing, h.process⟩
      · split at hstep <;> cases hstep <;> exact ⟨hstopping, h.waiting, h.missing, h.process⟩
  | processLoop =>
      rw [step, processLoopStep] at hstep
      split at hstep
      · cases hstep
      · cases hstep
      · rename_i hrunning
        exact absurd hrunning (h.process _)
      · rename_i hrunning
        exact absurd hrunning (h.process _)
  | maintenance callback =>
      rw [step, maintenanceStep, h.waiting] at hstep
      dsimp only at hstep
      split at hstep
      · rename_i hdone
        exact absurd (by simpa using hdone) h.missing
      · cases hstep
  | construct msgType callback =>
      cases hstep
      exact ⟨hstopping, h.waiting, h.missing, h.process⟩
  | enqueue index =>
      obtain ⟨o', _, rfl⟩ := Option.map_eq_some_iff.mp hstep
      exact ⟨hstopping, h.waiting, h.missing, h.process⟩

theorem step {phase : LifecyclePhase κ} {input : LifecycleInput κ γ} (hphase : InPhase s phase)
    (h : AwaitsBarrier s c o) (hok : Uncrossed s input) (hstep : s.step input = some s') :
    AwaitsBarrier s' c o := by
  obtain ⟨q, hq⟩ := h.stopping
  obtain rfl := LifecyclePhase.eq_stopping (hphase.alone c _ hq rfl)
  have hpresent : (LifecyclePhase.stoppingOutline q).maintenanceAbsent = false := by
    refine (congrArg Outline.maintenanceAbsent hphase.outline).symm.trans ?_
    change s.maintenanceThread.isAbsent = false
    rw [h.waiting]
    rfl
  cases input with
  | callInit c' =>
      rw [HalState.step, callInit] at hstep
      split at hstep
      · cases hstep
      · rename_i hfree
        split at hstep
        · cases hstep
          exact ⟨⟨q, hq⟩, h.waiting, h.missing, h.process⟩
        · cases hstep
          have hne : c ≠ c' := by
            rintro rfl
            rw [hq] at hfree
            exact hfree rfl
          exact ⟨⟨q, (Function.update_of_ne hne ..).trans hq⟩, h.waiting, h.missing, h.process⟩
  | callShutdown c' =>
      have hready : s.switchReady = false := by
        refine (congrArg Outline.ready hphase.outline).trans ?_
        cases q <;> rfl
      rw [HalState.step, callShutdown, hready] at hstep
      split at hstep
      · cases hstep
      · cases hstep
        exact h
  | init c' event =>
      rw [HalState.step] at hstep
      split at hstep
      · rename_i p hc'
        have hother : c' ≠ c := by
          rintro rfl
          rw [hc'] at hq
          cases hq
        have hpast : pastCheck p = false := by
          by_contra hpast
          have howner := hphase.alone c' _ hc' (by simpa [exclusive] using hpast)
          cases howner
        refine h.initStep hother hpast hstep (fun hpasses => ?_) hc'
        have hnot := hok hpasses c
        rw [hq] at hnot
        cases hnot
      · cases hstep
  | shutdown c' =>
      rw [HalState.step] at hstep
      split at hstep
      · rename_i p hc'
        cases hphase.alone c' _ hc' rfl
        refine h.shutdownStep hpresent ?_ hstep
        rintro rfl
        exact congrArg Outline.flag hphase.outline
      · cases hstep
  | _ => exact h.loopStep (by trivial) hstep

end AwaitsBarrier

/--
**A shutdown can wait forever.** Once the loop that processes replies is over while the
maintenance thread waits for its barrier, the call of `shutdown` never returns, and the
barrier request is never completed, whatever else happens, as long as no call of `init`
passes its check.
-/
theorem shutdown_waits_forever {c : κ} {o : HalObject γ}
    {ts ts' : List (Transition (HalState κ γ) (LifecycleInput κ γ))} (hr : Run step (boot κ γ) ts s)
    (hok : ∀ t ∈ ts, Uncrossed t.source t.input) (hwaits : AwaitsBarrier s c o)
    (hr' : Run step s ts' s') (hok' : ∀ t ∈ ts', Uncrossed t.source t.input) :
    (∃ p, s'.callers c = some (.shutdown p)) ∧ o.number ∉ s'.completed := by
  obtain ⟨phase, hphase⟩ := inPhase_run hr hok
  have hinv := initInv_run hr
  have hlast : AwaitsBarrier s' c o := by
    refine (hr'.invariant_guarded
      (fun s => InitInv s ∧ (∃ phase, InPhase s phase) ∧ AwaitsBarrier s c o) Uncrossed
      ⟨hinv, ⟨phase, hphase⟩, hwaits⟩ ?_ hok').1.2.2
    rintro u i v ⟨hinv, ⟨phase, hphase⟩, hwaits⟩ hok hstep
    exact ⟨initInv_step hinv hstep, inPhase_step hinv hphase hok hstep, hwaits.step hphase hok hstep⟩
  exact ⟨hlast.stopping, hlast.missing⟩

/-- The controller is shut down with a barrier request on its way. -/
def shutDownBehindBarrier : List (LifecycleInput Bool Unit) :=
  startUp ++ [.construct .flowMod (some ()), .enqueue 0, .sendLoop true, .sendLoop true, .sendLoop true,
    .maintenance (), .maintenance (), .maintenance (), .maintenance (), .callShutdown true,
    .shutdown true, .processLoop]

/-- What `AwaitsBarrier` asks of a state. -/
def awaitsBarrier (s : HalState Bool Unit) : Bool :=
  shutsDown (s.callers true) &&
    match s.maintenanceThread, s.processLoopThread with
    | .running (.wait o), .returned => !s.completed.contains o.number
    | _, _ => false

theorem exists_of_awaitsBarrier {s : HalState Bool Unit} (h : awaitsBarrier s = true) :
    ∃ o, AwaitsBarrier s true o := by
  rw [awaitsBarrier, Bool.and_eq_true] at h
  obtain ⟨hshuts, hthreads⟩ := h
  have hstopping : ∃ p, s.callers true = some (.shutdown p) := by
    unfold shutsDown at hshuts
    split at hshuts
    · rename_i p hp
      exact ⟨p, hp⟩
    · cases hshuts
  split at hthreads
  · rename_i o hwaiting hprocess
    refine ⟨o, hstopping, hwaiting, by simpa using hthreads, ?_⟩
    rw [hprocess]
    rintro p ⟨⟩
  · cases hthreads

theorem shutDownBehindBarrier_hangs : ∃ ts s, Run step (boot Bool Unit) ts s ∧
    ∀ ts' s', Run step s ts' s' → (∀ t ∈ ts', Uncrossed t.source t.input) →
      ∃ p, s'.callers true = some (.shutdown p) := by
  obtain ⟨ts, s, hr, htest⟩ := Run.exists_of_test step (boot Bool Unit) shutDownBehindBarrier
    (fun ts s => isUncrossed ts && awaitsBarrier s) (by decide)
  rw [Bool.and_eq_true] at htest
  obtain ⟨o, hwaits⟩ := exists_of_awaitsBarrier htest.2
  exact ⟨ts, s, hr, fun ts' s' hr' hok' =>
    (shutdown_waits_forever hr (uncrossed_of_isUncrossed htest.1) hwaits hr' hok').1⟩

end IronStack.Proof
