import IronStack.Lib.Monitor

/-!
# Monitors that may come to a halt

An operation of such a monitor can end the program, after which there are no steps. Which
conditions it notifies may depend on the state that it finds. A monitor that does not
notify where it should loses no wake-up as long as those who are not notified have to wait
all the same: that is what a step has to keep, and all that it has to.
-/

namespace IronStack.Lib

/-- The code: states `σ`, operations `ω` with results `ρ`, conditions `κ`, ends of the program `ε`. -/
structure HaltingMonitor (σ ω ρ κ ε : Type*) where
  /-- The condition of the loop around the wait. -/
  mustWait : σ → ω → Bool
  /-- The operation behind that loop. -/
  perform : σ → ω → Except ε (σ × ρ)
  /-- The condition variable the operation waits on. -/
  waitsOn : ω → κ
  /-- Does the operation call `notify_all` on the condition? -/
  notifies : σ → ω → κ → Bool

variable {τ σ ω ρ κ ε : Type*}

/-- The operation of the thread that gets the lock next. -/
def MonitorWorld.entering (w : MonitorWorld τ σ ω ρ) : MonitorInput τ ω → Option ω
  | .call _ op => some op
  | .wakeUp _ => none
  | .resume thread =>
      match w.phase thread with
      | .woken op => some op
      | _ => none

namespace HaltingMonitor

variable [DecidableEq τ] (m : HaltingMonitor σ ω ρ κ ε)

/-- A critical section: the thread is blocked, or through with the operation, or the program ends. -/
def enter (w : MonitorWorld τ (Except ε σ) ω ρ) (s : σ) (thread : τ) (op : ω) :
    MonitorWorld τ (Except ε σ) ω ρ :=
  if m.mustWait s op then
    { w with phase := fun t => if t = thread then .blocked op else w.phase t }
  else
    match m.perform s op with
    | .error e => { w with state := .error e }
    | .ok (s', r) =>
        { state := .ok s'
          phase := fun t =>
            if t = thread then .outside else (w.phase t).notified m.waitsOn (m.notifies s op)
          log := w.log ++ [(op, r)] }

/-- One step of a thread; `none` where it is not the thread's turn, or the program has ended. -/
def step (w : MonitorWorld τ (Except ε σ) ω ρ) (i : MonitorInput τ ω) :
    Option (MonitorWorld τ (Except ε σ) ω ρ) :=
  match w.state with
  | .error _ => none
  | .ok s =>
      match i with
      | .call thread op =>
          match w.phase thread with
          | .outside => some (m.enter w s thread op)
          | _ => none
      | .wakeUp thread =>
          match w.phase thread with
          | .blocked op =>
              some { w with phase := fun t => if t = thread then .woken op else w.phase t }
          | _ => none
      | .resume thread =>
          match w.phase thread with
          | .woken op => some (m.enter w s thread op)
          | _ => none

/-- **What a step can do**: a critical section of some operation, or a thread wakes up. -/
inductive StepCase (w w' : MonitorWorld τ (Except ε σ) ω ρ) (s : σ) (i : MonitorInput τ ω) : Prop where
  | wait {thread : τ} {op : ω} (hop : w.entering i = some op) (hwait : m.mustWait s op = true)
      (heq : w' = { w with phase := fun t => if t = thread then .blocked op else w.phase t })
  | halt {op : ω} {e : ε} (hop : w.entering i = some op) (hgo : m.mustWait s op = false)
      (herror : m.perform s op = .error e) (heq : w' = { w with state := .error e })
  | done {thread : τ} {op : ω} {s' : σ} {r : ρ} (hop : w.entering i = some op)
      (hgo : m.mustWait s op = false) (hdone : m.perform s op = .ok (s', r))
      (hphase : ∀ waiting, w.phase thread ≠ .blocked waiting)
      (heq : w' = { state := .ok s'
                    phase := fun t =>
                      if t = thread then .outside else (w.phase t).notified m.waitsOn (m.notifies s op)
                    log := w.log ++ [(op, r)] })
  | wakeUp {thread : τ} {op : ω} (hnone : w.entering i = none)
      (heq : w' = { w with phase := fun t => if t = thread then .woken op else w.phase t })

variable {m} {w w' : MonitorWorld τ (Except ε σ) ω ρ} {i : MonitorInput τ ω} {s : σ}

theorem stepCase_enter {thread : τ} {op : ω} (hop : w.entering i = some op)
    (hphase : ∀ waiting, w.phase thread ≠ .blocked waiting) :
    m.StepCase w (m.enter w s thread op) s i := by
  unfold enter
  split
  · rename_i hwait
    exact .wait hop hwait rfl
  · rename_i hgo
    have hgo := Bool.eq_false_iff.mpr hgo
    split
    · rename_i e herror
      exact .halt hop hgo herror rfl
    · rename_i s' r hdone
      exact .done hop hgo hdone hphase rfl

theorem step_cases (h : m.step w i = some w') : ∃ s, w.state = .ok s ∧ m.StepCase w w' s i := by
  unfold step at h
  split at h
  · cases h
  · rename_i s hstate
    refine ⟨s, hstate, ?_⟩
    cases i with
    | call thread op =>
        dsimp only at h
        split at h
        · rename_i hphase
          cases h
          exact stepCase_enter rfl fun _ hblocked => by rw [hphase] at hblocked; cases hblocked
        · cases h
    | wakeUp thread =>
        dsimp only at h
        split at h
        · rename_i op hphase
          cases h
          exact .wakeUp rfl rfl
        · cases h
    | resume thread =>
        dsimp only at h
        split at h
        · rename_i op hphase
          cases h
          refine stepCase_enter ?_ fun _ hblocked => by rw [hphase] at hblocked; cases hblocked
          rw [MonitorWorld.entering, hphase]
        · cases h

/-! ## Rules -/

variable (m)

/-- A thread that is blocked has to wait, as long as the program runs. -/
def Awake (w : MonitorWorld τ (Except ε σ) ω ρ) : Prop :=
  ∀ s, w.state = .ok s → ∀ thread op, w.phase thread = .blocked op → m.mustWait s op = true

/-- Those who are not notified of an operation have to wait behind it. -/
def LeavesWaiting (w : MonitorWorld τ (Except ε σ) ω ρ) (s : σ) (op : ω) (s' : σ) : Prop :=
  ∀ thread waiting, w.phase thread = .blocked waiting → m.notifies s op (m.waitsOn waiting) = false →
    m.mustWait s' waiting = true

omit [DecidableEq τ] in
theorem awake_boot (s : σ) : m.Awake (τ := τ) (ρ := ρ) ⟨.ok s, fun _ => .outside, []⟩ := by
  intro _ _ _ _ hblocked
  cases hblocked

variable {m}

/-- **The waking rule**: a step loses no wake-up if the operation in it, should it be done, leaves those
waiting whom it does not notify. -/
theorem awake_step_iff (h : m.Awake w) (hstep : m.step w i = some w') :
    m.Awake w' ↔ ∀ s op s' r, w.state = .ok s → w.entering i = some op → m.mustWait s op = false →
      m.perform s op = .ok (s', r) → m.LeavesWaiting w s op s' := by
  obtain ⟨s, hstate, hcase⟩ := step_cases hstep
  cases hcase with
  | @wait thread op hop hwait heq =>
      refine ⟨fun _ s₁ op₁ _ _ hstate₁ hop₁ hgo _ => ?_, fun _ => ?_⟩
      · cases hstate.symm.trans hstate₁
        cases hop.symm.trans hop₁
        rw [hwait] at hgo
        cases hgo
      · subst heq
        intro s₁ hstate₁ t waiting hblocked
        cases hstate.symm.trans hstate₁
        dsimp only at hblocked
        split at hblocked
        · cases hblocked
          exact hwait
        · exact h s hstate t waiting hblocked
  | @halt op e hop hgo herror heq =>
      refine ⟨fun _ s₁ op₁ _ _ hstate₁ hop₁ _ hdone => ?_, fun _ => ?_⟩
      · cases hstate.symm.trans hstate₁
        cases hop.symm.trans hop₁
        cases herror.symm.trans hdone
      · subst heq
        intro s₁ hstate₁
        cases hstate₁
  | @wakeUp thread op hnone heq =>
      refine ⟨fun _ s₁ op₁ _ _ _ hop₁ _ _ => ?_, fun _ => ?_⟩
      · rw [hnone] at hop₁
        cases hop₁
      · subst heq
        intro s₁ hstate₁ t waiting hblocked
        dsimp only at hblocked
        split at hblocked
        · cases hblocked
        · exact h s₁ hstate₁ t waiting hblocked
  | @done thread op s' r hop hgo hdone hphase heq =>
      subst heq
      constructor
      · intro hawake s₁ op₁ s₁' r₁ hstate₁ hop₁ _ hdone₁ t waiting hblocked hsilent
        cases hstate.symm.trans hstate₁
        cases hop.symm.trans hop₁
        cases hdone.symm.trans hdone₁
        have hne : t ≠ thread := fun heq => hphase waiting (heq ▸ hblocked)
        refine hawake s' rfl t waiting ?_
        dsimp only
        rw [if_neg hne, hblocked, ThreadPhase.notified, if_neg (Bool.eq_false_iff.mp hsilent)]
      · intro hleaves s₁ hstate₁ t waiting hblocked
        cases hstate₁
        dsimp only at hblocked
        split at hblocked
        · cases hblocked
        · cases hbefore : w.phase t with
          | outside => simp [hbefore, ThreadPhase.notified] at hblocked
          | woken op' => simp [hbefore, ThreadPhase.notified] at hblocked
          | blocked op' =>
              rw [hbefore, ThreadPhase.notified] at hblocked
              split at hblocked
              · cases hblocked
              · rename_i hsilent
                cases hblocked
                exact hleaves s op s' r hstate hop hgo hdone t _ hbefore (Bool.eq_false_iff.mpr hsilent)

/-- **The halting rule**: the program ends as the operation in the step does. -/
theorem halts_step_iff (hstep : m.step w i = some w') {e : ε} :
    w'.state = .error e ↔ ∃ s op, w.state = .ok s ∧ w.entering i = some op ∧
      m.mustWait s op = false ∧ m.perform s op = .error e := by
  obtain ⟨s, hstate, hcase⟩ := step_cases hstep
  constructor
  · intro hend
    cases hcase with
    | wait _ _ heq =>
        rw [heq, hstate] at hend
        cases hend
    | halt hop hgo herror heq =>
        rw [heq] at hend
        cases hend
        exact ⟨s, _, hstate, hop, hgo, herror⟩
    | done _ _ _ _ heq =>
        rw [heq] at hend
        cases hend
    | wakeUp _ heq =>
        rw [heq, hstate] at hend
        cases hend
  · rintro ⟨s₁, op₁, hstate₁, hop₁, hgo₁, herror₁⟩
    cases hstate.symm.trans hstate₁
    cases hcase with
    | wait hop hwait _ =>
        cases hop.symm.trans hop₁
        rw [hgo₁] at hwait
        cases hwait
    | halt hop _ herror heq =>
        cases hop.symm.trans hop₁
        cases herror.symm.trans herror₁
        rw [heq]
    | done hop _ hdone _ _ =>
        cases hop.symm.trans hop₁
        cases hdone.symm.trans herror₁
    | wakeUp hnone _ =>
        rw [hnone] at hop₁
        cases hop₁

/-- **The sequential rule**: the state and the log change by one operation that is done, or not at all;
or the program ends. -/
theorem step_log (hstep : m.step w i = some w') : ∃ s, w.state = .ok s ∧
    ((w'.state = w.state ∧ w'.log = w.log) ∨
      ∃ op, w.entering i = some op ∧ m.mustWait s op = false ∧
        ((∃ e, m.perform s op = .error e ∧ w'.state = .error e ∧ w'.log = w.log) ∨
          ∃ s' r, m.perform s op = .ok (s', r) ∧ w'.state = .ok s' ∧ w'.log = w.log ++ [(op, r)])) := by
  obtain ⟨s, hstate, hcase⟩ := step_cases hstep
  refine ⟨s, hstate, ?_⟩
  cases hcase with
  | wait _ _ heq => exact .inl ⟨by rw [heq], by rw [heq]⟩
  | halt hop hgo herror heq => exact .inr ⟨_, hop, hgo, .inl ⟨_, herror, by rw [heq], by rw [heq]⟩⟩
  | done hop hgo hdone _ heq => exact .inr ⟨_, hop, hgo, .inr ⟨_, _, hdone, by rw [heq], by rw [heq]⟩⟩
  | wakeUp _ heq => exact .inl ⟨by rw [heq], by rw [heq]⟩

end HaltingMonitor

end IronStack.Lib
