import IronStack.Lib.Monitor

/-!
# Monitors whose waits come to an end

In a monitor an operation starts over when it is woken up. Here the code behind a wait is
a function of its own, which is told whether the wait reports that its time is over. A
thread is woken because it was notified, because its time is over or for no reason, and
by the time that it has the lock back its time may be over whatever woke it: what the wait
reports is up to the environment.
-/

namespace IronStack.Lib

/-- The code of such a monitor, with one condition variable. -/
structure TimedMonitor (σ ω ρ : Type*) where
  /-- The operation up to its first wait; `none` where it has to wait. -/
  attempt : σ → ω → Option (σ × ρ)
  /-- The operation behind a wait that reports a timeout or not; `none` where it waits again. -/
  retry : σ → ω → Bool → Option (σ × ρ)
  /-- Does the operation, when it is done, call `notify_all`? -/
  notifies : ω → Bool

/-- What happens next. -/
inductive TimedInput (τ ω : Type*) where
  /-- A thread takes the lock and begins an operation. -/
  | call (thread : τ) (op : ω)
  /-- A blocked thread wakes up without being notified. -/
  | wakeUp (thread : τ)
  /-- A woken thread gets the lock back, and its wait reports whether the time is over. -/
  | resume (thread : τ) (timedOut : Bool)

namespace TimedMonitor

variable {τ σ ω ρ : Type*} [DecidableEq τ] (m : TimedMonitor σ ω ρ)

/-- The end of a critical section: the thread is through with the operation, or blocked. -/
def leave (w : MonitorWorld τ σ ω ρ) (thread : τ) (op : ω) (outcome : Option (σ × ρ)) :
    MonitorWorld τ σ ω ρ :=
  match outcome with
  | none => { w with phase := fun t => if t = thread then .blocked op else w.phase t }
  | some (s, r) =>
      { state := s
        phase := fun t =>
          if t = thread then .outside
          else (w.phase t).notified (fun _ => ()) (fun _ => m.notifies op)
        log := w.log ++ [(op, r)] }

/-- One step of a thread; `none` where it is not the thread's turn to do this. -/
def step (w : MonitorWorld τ σ ω ρ) : TimedInput τ ω → Option (MonitorWorld τ σ ω ρ)
  | .call thread op =>
      match w.phase thread with
      | .outside => some (m.leave w thread op (m.attempt w.state op))
      | _ => none
  | .wakeUp thread =>
      match w.phase thread with
      | .blocked op => some { w with phase := fun t => if t = thread then .woken op else w.phase t }
      | _ => none
  | .resume thread timedOut =>
      match w.phase thread with
      | .woken op => some (m.leave w thread op (m.retry w.state op timedOut))
      | _ => none

/-- **What a step can do**: a critical section before a wait, or behind one, or a thread wakes up. -/
inductive StepCase (w w' : MonitorWorld τ σ ω ρ) : TimedInput τ ω → Prop where
  | call {thread : τ} {op : ω} (hphase : w.phase thread = .outside)
      (heq : w' = m.leave w thread op (m.attempt w.state op)) : StepCase w w' (.call thread op)
  | wakeUp {thread : τ} {op : ω} (hphase : w.phase thread = .blocked op)
      (hstate : w'.state = w.state) (hlog : w'.log = w.log) : StepCase w w' (.wakeUp thread)
  | resume {thread : τ} {op : ω} {timedOut : Bool} (hphase : w.phase thread = .woken op)
      (heq : w' = m.leave w thread op (m.retry w.state op timedOut)) :
      StepCase w w' (.resume thread timedOut)

theorem step_cases {w w' : MonitorWorld τ σ ω ρ} {i : TimedInput τ ω} (h : m.step w i = some w') :
    m.StepCase w w' i := by
  cases i with
  | call thread op =>
      simp only [step] at h
      split at h
      · rename_i hphase
        exact .call hphase (Option.some.inj h).symm
      · cases h
  | wakeUp thread =>
      simp only [step] at h
      split at h
      · rename_i op hphase
        cases h
        exact .wakeUp hphase rfl rfl
      · cases h
  | resume thread timedOut =>
      simp only [step] at h
      split at h
      · rename_i op hphase
        exact .resume hphase (Option.some.inj h).symm
      · cases h

/-! ## Rules -/

/-- An entry is added to the log by an operation that is done, with its result. -/
theorem log_leave {w : MonitorWorld τ σ ω ρ} {thread : τ} {op op' : ω} {outcome : Option (σ × ρ)} {r : ρ} :
    (m.leave w thread op outcome).log = w.log ++ [(op', r)] ↔ op' = op ∧ ∃ s, outcome = some (s, r) := by
  cases outcome with
  | none =>
      refine ⟨?_, fun ⟨_, _, h⟩ => by cases h⟩
      intro h
      exact absurd (congrArg List.length h) (by simp [leave])
  | some done =>
      refine ⟨?_, ?_⟩
      · intro h
        cases List.singleton_inj.mp (List.append_cancel_left h)
        exact ⟨rfl, done.1, rfl⟩
      · rintro ⟨rfl, s, h⟩
        cases h
        rfl

/-- **The sequential rule**, for the operations in the order in which they are done. -/
theorem log_step {Inv : σ → List (ω × ρ) → Prop} {w w' : MonitorWorld τ σ ω ρ} {i : TimedInput τ ω}
    (h : m.step w i = some w') (hw : Inv w.state w.log)
    (hattempt : ∀ s op r, m.attempt w.state op = some (s, r) → Inv s (w.log ++ [(op, r)]))
    (hretry : ∀ s op timedOut r, m.retry w.state op timedOut = some (s, r) → Inv s (w.log ++ [(op, r)])) :
    Inv w'.state w'.log := by
  cases m.step_cases h with
  | @call thread op _ heq =>
      cases hdone : m.attempt w.state op with
      | none =>
          rw [heq, hdone]
          exact hw
      | some done =>
          rw [heq, hdone]
          exact hattempt done.1 op done.2 hdone
  | wakeUp _ hstate hlog =>
      rw [hstate, hlog]
      exact hw
  | @resume thread op timedOut _ heq =>
      cases hdone : m.retry w.state op timedOut with
      | none =>
          rw [heq, hdone]
          exact hw
      | some done =>
          rw [heq, hdone]
          exact hretry done.1 op timedOut done.2 hdone

end TimedMonitor

end IronStack.Lib
