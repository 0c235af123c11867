import IronStack.Lib.Machine

/-!
# Monitors

Some state under one lock, operations that threads run on it with the lock held, and
condition variables for those that have to wait. An operation is a `while` loop around
a wait: it either finds what it needs and is done in one pass, or waits on its
condition, which releases the lock, and starts over once it is woken up.

A thread that waits is **blocked** until it is notified, or woken for no reason; then
it is **woken** and competes for the lock like any other. So a wake-up is lost if a
thread is blocked while its operation could go on.
-/

namespace IronStack.Lib

/-- The code of a monitor: states `σ`, operations `ω` with results `ρ`, conditions `κ`. -/
structure Monitor (σ ω ρ κ : Type*) where
  /-- One pass through the operation; `none` where it has to wait. -/
  attempt : σ → ω → Option (σ × ρ)
  /-- The condition variable the operation waits on. -/
  waitsOn : ω → κ
  /-- Does the operation, when it is done, call `notify_all` on the condition? -/
  notifies : ω → κ → Bool

/-- Where a thread is. -/
inductive ThreadPhase (ω : Type*) where
  | outside
  | blocked (op : ω)
  | woken (op : ω)

/-- What happens next. -/
inductive MonitorInput (τ ω : Type*) where
  /-- A thread takes the lock and begins an operation. -/
  | call (thread : τ) (op : ω)
  /-- A blocked thread wakes up without being notified. -/
  | wakeUp (thread : τ)
  /-- A woken thread gets the lock back. -/
  | resume (thread : τ)

/-- A monitor and the threads at it. -/
structure MonitorWorld (τ σ ω ρ : Type*) where
  state : σ
  phase : τ → ThreadPhase ω
  /-- The operations that are done, in the order of their critical sections. -/
  log : List (ω × ρ)

variable {τ σ ω ρ κ : Type*} [DecidableEq τ]

/-- What `notify_all` does to a thread. -/
def ThreadPhase.notified (waitsOn : ω → κ) (notifies : κ → Bool) : ThreadPhase ω → ThreadPhase ω
  | .blocked op => if notifies (waitsOn op) then .woken op else .blocked op
  | phase => phase

namespace Monitor

variable (m : Monitor σ ω ρ κ)

/-- A critical section: the thread is through with the operation, or blocked. -/
def enter (w : MonitorWorld τ σ ω ρ) (thread : τ) (op : ω) : MonitorWorld τ σ ω ρ :=
  match m.attempt w.state op with
  | none => { w with phase := fun t => if t = thread then .blocked op else w.phase t }
  | some (s, r) =>
      { state := s
        phase := fun t =>
          if t = thread then .outside else (w.phase t).notified m.waitsOn (m.notifies op)
        log := w.log ++ [(op, r)] }

/-- One step of a thread; `none` where it is not the thread's turn to do this. -/
def step (w : MonitorWorld τ σ ω ρ) : MonitorInput τ ω → Option (MonitorWorld τ σ ω ρ)
  | .call thread op =>
      match w.phase thread with
      | .outside => some (m.enter w thread op)
      | _ => none
  | .wakeUp thread =>
      match w.phase thread with
      | .blocked op => some { w with phase := fun t => if t = thread then .woken op else w.phase t }
      | _ => none
  | .resume thread =>
      match w.phase thread with
      | .woken op => some (m.enter w thread op)
      | _ => none

/-- Nobody at the monitor yet. -/
def boot (s : σ) : MonitorWorld τ σ ω ρ := ⟨s, fun _ => .outside, []⟩

/-- **What a step can do**: a critical section of some operation, or a thread wakes up. -/
theorem step_cases {w w' : MonitorWorld τ σ ω ρ} {i : MonitorInput τ ω} (h : m.step w i = some w') :
    (∃ thread op, w' = m.enter w thread op) ∨
      ∃ thread op, w.phase thread = .blocked op ∧
        w' = { w with phase := fun t => if t = thread then .woken op else w.phase t } := by
  cases i with
  | call thread op =>
      simp only [step] at h
      split at h
      · exact .inl ⟨thread, op, (Option.some.inj h).symm⟩
      · cases h
  | wakeUp thread =>
      simp only [step] at h
      split at h
      · rename_i op hphase
        exact .inr ⟨thread, op, hphase, (Option.some.inj h).symm⟩
      · cases h
  | resume thread =>
      simp only [step] at h
      split at h
      · rename_i op _
        exact .inl ⟨thread, op, (Option.some.inj h).symm⟩
      · cases h

/-! ## Rules -/

/-- The state and the log change by one operation that is done, or not at all. -/
theorem step_log {w w' : MonitorWorld τ σ ω ρ} {i : MonitorInput τ ω} (h : m.step w i = some w') :
    (w'.state = w.state ∧ w'.log = w.log) ∨
      ∃ op r, m.attempt w.state op = some (w'.state, r) ∧ w'.log = w.log ++ [(op, r)] := by
  rcases m.step_cases h with ⟨thread, op, rfl⟩ | ⟨thread, op, _, rfl⟩
  · unfold enter
    cases hattempt : m.attempt w.state op with
    | none => exact .inl ⟨rfl, rfl⟩
    | some done => exact .inr ⟨op, done.2, hattempt, rfl⟩
  · exact .inl ⟨rfl, rfl⟩

/-- **The sequential rule**: what every operation preserves when it is done holds in every run,
for the operations in the order of their critical sections. -/
theorem log_invariant {Inv : σ → List (ω × ρ) → Prop} {s : σ} {w : MonitorWorld τ σ ω ρ}
    {ts : List (Transition (MonitorWorld τ σ ω ρ) (MonitorInput τ ω))}
    (hr : Run m.step (boot s) ts w) (h0 : Inv s [])
    (hstep : ∀ s s' op r log, Inv s log → m.attempt s op = some (s', r) → Inv s' (log ++ [(op, r)])) :
    Inv w.state w.log := by
  refine (hr.invariant (fun w => Inv w.state w.log) h0 fun u i v hu hs => ?_).1
  rcases m.step_log hs with ⟨hstate, hlog⟩ | ⟨op, r, hattempt, hlog⟩
  · rwa [hstate, hlog]
  · rw [hlog]
    exact hstep _ _ _ _ _ hu hattempt

/-- The monitor notifies where it should: an operation that can go on now, and could not before,
waits on a condition that is notified. -/
def Notifies : Prop :=
  ∀ s s' op r waiting, m.attempt s op = some (s', r) → m.attempt s waiting = none →
    m.attempt s' waiting ≠ none → m.notifies op (m.waitsOn waiting) = true

/-- A thread that is blocked has to wait. -/
def NoLostWakeUp (w : MonitorWorld τ σ ω ρ) : Prop :=
  ∀ thread op, w.phase thread = .blocked op → m.attempt w.state op = none

theorem noLostWakeUp_enter (hm : m.Notifies) {w : MonitorWorld τ σ ω ρ} (h : m.NoLostWakeUp w)
    (thread : τ) (op : ω) : m.NoLostWakeUp (m.enter w thread op) := by
  intro t waiting hblocked
  unfold enter at hblocked ⊢
  cases hattempt : m.attempt w.state op with
  | none =>
      simp only [hattempt] at hblocked ⊢
      split at hblocked
      · obtain rfl := ThreadPhase.blocked.inj hblocked
        exact hattempt
      · exact h t waiting hblocked
  | some done =>
      simp only [hattempt] at hblocked ⊢
      split at hblocked
      · cases hblocked
      · cases hphase : w.phase t with
        | outside => simp [hphase, ThreadPhase.notified] at hblocked
        | woken op' => simp [hphase, ThreadPhase.notified] at hblocked
        | blocked op' =>
            rw [hphase, ThreadPhase.notified] at hblocked
            split at hblocked
            · cases hblocked
            · rename_i hsilent
              obtain rfl := ThreadPhase.blocked.inj hblocked
              -- it was not notified, so there was no need to
              by_contra hready
              exact hsilent (hm _ _ _ _ _ hattempt (h t op' hphase) hready)

/-- **The notification rule**: a monitor that notifies where it should loses no wake-up. -/
theorem no_lost_wakeUp (hm : m.Notifies) {s : σ} {w : MonitorWorld τ σ ω ρ}
    {ts : List (Transition (MonitorWorld τ σ ω ρ) (MonitorInput τ ω))}
    (hr : Run m.step (boot s) ts w) : m.NoLostWakeUp w := by
  refine (hr.invariant m.NoLostWakeUp (fun _ _ h => by cases h) fun u i v hu hs => ?_).1
  rcases m.step_cases hs with ⟨thread, op, rfl⟩ | ⟨thread, op, _, rfl⟩
  · exact m.noLostWakeUp_enter hm hu thread op
  · intro t waiting hblocked
    dsimp only at hblocked
    split at hblocked
    · cases hblocked
    · exact hu t waiting hblocked

end Monitor

end IronStack.Lib
