import IronStack.Hal.BlockingCallback

/-!
# A wait for a callback

What `done` says is right at any time, and a wait that begins after the callback returns at
once. But the timed wait is no loop: it returns true whenever its wait did not report a
timeout, which it does not where the thread was woken up for no reason.
-/

namespace IronStack.Proof.BlockingCallback

open IronStack Lib

/-- The callback was delivered. -/
def Delivered (log : List (CallbackCall × Option Bool)) : Prop :=
  ∃ openflowReply result, (.halCallback openflowReply, result) ∈ log

/-- The threads at one callback. -/
abbrev CallbackWorld (τ : Type) := MonitorWorld τ BlockingHalCallback CallbackCall (Option Bool)

abbrev CallbackTransition (τ : Type) := Transition (CallbackWorld τ) (TimedInput τ CallbackCall)

/-- What the waits report is the truth. -/
structure Truthful {τ : Type} (tr : CallbackTransition τ) : Prop where
  returned : ∀ op, tr.target.log = tr.source.log ++ [(op, some true)] → Delivered tr.source.log
  later : ∀ thread milliseconds, tr.input = .call thread (.timedWait milliseconds) →
    Delivered tr.source.log → tr.target.log = tr.source.log ++ [(.timedWait milliseconds, some true)]

/-- Before the callback is delivered, a timed wait only wakes up when its time is over. -/
def WokenForAReason {τ : Type} (w : CallbackWorld τ) (i : TimedInput τ CallbackCall) : Prop :=
  ∀ thread milliseconds, i = .resume thread false → w.phase thread = .woken (.timedWait milliseconds) →
    Delivered w.log

theorem delivered_concat {log : List (CallbackCall × Option Bool)} {op : CallbackCall}
    {result : Option Bool} :
    Delivered (log ++ [(op, result)]) ↔ Delivered log ∨ ∃ openflowReply, op = .halCallback openflowReply := by
  refine ⟨?_, ?_⟩
  · intro ⟨openflowReply, result', hmem⟩
    rcases List.mem_append.mp hmem with hmem | hmem
    · exact .inl ⟨openflowReply, result', hmem⟩
    · cases List.mem_singleton.mp hmem
      exact .inr ⟨openflowReply, rfl⟩
  · rintro (⟨openflowReply, result', hmem⟩ | ⟨openflowReply, rfl⟩)
    · exact ⟨openflowReply, result', List.mem_append_left _ hmem⟩
    · exact ⟨openflowReply, result, List.mem_append_right _ List.mem_cons_self⟩

/-! ## One method -/

/-- What a method does until it waits. -/
theorem attempt_cases {cob cob' : BlockingHalCallback} {op : CallbackCall} {result : Option Bool}
    (h : blockingHalCallback.attempt cob op = some (cob', result)) :
    (∃ openflowReply, op = .halCallback openflowReply ∧ cob'.done = true ∧ result = none) ∨
      cob' = cob ∧ (∀ openflowReply, op ≠ .halCallback openflowReply) ∧ result = some cob.done := by
  cases op with
  | halCallback openflowReply =>
      cases h
      exact .inl ⟨openflowReply, rfl, rfl, rfl⟩
  | wait =>
      simp only [blockingHalCallback] at h
      split at h
      · rename_i hdone
        cases h
        exact .inr ⟨rfl, nofun, by rw [hdone]⟩
      · cases h
  | timedWait milliseconds =>
      simp only [blockingHalCallback] at h
      split at h
      · rename_i hdone
        cases h
        exact .inr ⟨rfl, nofun, by rw [hdone]⟩
      · cases h
  | poll =>
      cases h
      exact .inr ⟨rfl, nofun, rfl⟩

/-- Behind a wait a method does the same, but for the timed one. -/
theorem retry_cases (cob : BlockingHalCallback) (op : CallbackCall) (timedOut : Bool) :
    blockingHalCallback.retry cob op timedOut = blockingHalCallback.attempt cob op ∨
      ∃ milliseconds, op = .timedWait milliseconds ∧
        blockingHalCallback.retry cob op timedOut = some (cob, some (!timedOut)) := by
  cases op with
  | halCallback openflowReply => exact .inl rfl
  | wait => exact .inl rfl
  | timedWait milliseconds => exact .inr ⟨milliseconds, rfl, rfl⟩
  | poll => exact .inl rfl

/-! ## Any number of waits -/

/-- The flag says whether the callback was delivered. -/
def Told (cob : BlockingHalCallback) (log : List (CallbackCall × Option Bool)) : Prop :=
  cob.done = true ↔ Delivered log

theorem told_attempt {cob cob' : BlockingHalCallback} {log : List (CallbackCall × Option Bool)}
    {op : CallbackCall} {result : Option Bool} (h : Told cob log)
    (hattempt : blockingHalCallback.attempt cob op = some (cob', result)) :
    Told cob' (log ++ [(op, result)]) := by
  rw [Told, delivered_concat]
  rcases attempt_cases hattempt with ⟨openflowReply, rfl, hdone, _⟩ | ⟨rfl, hother, _⟩
  · exact ⟨fun _ => .inr ⟨openflowReply, rfl⟩, fun _ => hdone⟩
  · refine Iff.trans h ⟨.inl, ?_⟩
    rintro (hdelivered | ⟨openflowReply, hcall⟩)
    · exact hdelivered
    · exact absurd hcall (hother openflowReply)

/-- A method that returns true without having waited, or in a loop, has seen the flag. -/
theorem delivered_of_attempt {cob cob' : BlockingHalCallback} {log : List (CallbackCall × Option Bool)}
    {op : CallbackCall} (h : Told cob log)
    (hattempt : blockingHalCallback.attempt cob op = some (cob', some true)) : Delivered log := by
  rcases attempt_cases hattempt with ⟨_, _, _, hresult⟩ | ⟨_, _, hresult⟩
  · cases hresult
  · exact h.mp (Option.some.inj hresult).symm

section Runs

variable {τ : Type} [DecidableEq τ]

theorem told_step {w w' : CallbackWorld τ} {i : TimedInput τ CallbackCall} (h : Told w.state w.log)
    (hs : blockingHalCallback.step w i = some w') : Told w'.state w'.log := by
  refine blockingHalCallback.log_step hs h ?_ ?_
  · intro cob' op result hattempt
    exact told_attempt h hattempt
  · intro cob' op timedOut result hretry
    rcases retry_cases w.state op timedOut with hsame | ⟨milliseconds, rfl, hresult⟩
    · exact told_attempt h (hsame.symm.trans hretry)
    · -- the timed wait changes nothing
      cases hresult.symm.trans hretry
      rw [Told, delivered_concat]
      refine h.trans ⟨.inl, ?_⟩
      rintro (hdelivered | ⟨_, hcall⟩)
      · exact hdelivered
      · cases hcall

/-- **One step is truthful** unless it ends a timed wait that was woken up for no reason. -/
theorem truthful_iff {w w' : CallbackWorld τ} {i : TimedInput τ CallbackCall} (h : Told w.state w.log)
    (hs : blockingHalCallback.step w i = some w') :
    Truthful ⟨w, i, w'⟩ ↔ WokenForAReason w i := by
  cases blockingHalCallback.step_cases hs with
  | @call thread op hphase heq =>
      refine ⟨fun _ => nofun, fun _ => ⟨?_, ?_⟩⟩
      · intro op' hlog
        obtain ⟨rfl, cob', hattempt⟩ := blockingHalCallback.log_leave.mp ((congrArg _ heq).symm.trans hlog)
        exact delivered_of_attempt h hattempt
      · intro thread' milliseconds hi hdelivered
        cases hi
        have hattempt : blockingHalCallback.attempt w.state (.timedWait milliseconds) =
          some (w.state, some true) :=
          if_pos (h.mpr hdelivered)
        rw [heq]
        exact blockingHalCallback.log_leave.mpr ⟨rfl, w.state, hattempt⟩
  | wakeUp hphase hstate hlog =>
      refine ⟨fun _ => nofun, fun _ => ⟨?_, nofun⟩⟩
      intro op' hlog'
      dsimp only at hlog'
      rw [hlog] at hlog'
      exact absurd (congrArg List.length hlog') (by simp)
  | @resume thread op timedOut hphase heq =>
      refine ⟨?_, ?_⟩
      · intro htruthful thread' milliseconds hi hwoken
        cases hi
        cases hphase.symm.trans hwoken
        refine htruthful.returned (.timedWait milliseconds) ?_
        rw [heq]
        exact blockingHalCallback.log_leave.mpr ⟨rfl, w.state, rfl⟩
      · intro hreason
        refine ⟨?_, nofun⟩
        intro op' hlog
        obtain ⟨rfl, cob', hretry⟩ := blockingHalCallback.log_leave.mp ((congrArg _ heq).symm.trans hlog)
        rcases retry_cases w.state op' timedOut with hsame | ⟨milliseconds, rfl, hresult⟩
        · exact delivered_of_attempt h (hsame.symm.trans hretry)
        · have hnot : timedOut = false := by
            cases timedOut with
            | false => rfl
            | true => cases hretry
          rw [hnot] at hreason
          exact hreason thread milliseconds rfl hphase

/--
**The waits at a callback are truthful in a run**, whatever the threads and the order of
their steps, exactly if no timed wait is woken up for no reason before the callback is
delivered.
-/
theorem truthful_run_iff {ts : List (CallbackTransition τ)} {w : CallbackWorld τ}
    (hr : Run blockingHalCallback.step (Monitor.boot {}) ts w) :
    (∀ tr ∈ ts, Truthful tr) ↔ ∀ tr ∈ ts, WokenForAReason tr.source tr.input := by
  have htold : Told {} [] := by
    refine ⟨nofun, ?_⟩
    rintro ⟨_, _, hmem⟩
    cases hmem
  exact hr.forall_good_iff (fun w => Told w.state w.log) (fun _ => True) htold trivial
    (fun _ _ _ h hs => told_step h hs) (fun _ _ _ _ _ _ _ => trivial) fun _ _ _ h _ hs => truthful_iff h hs

end Runs

/-- A thread waits, and another one delivers the callback. -/
def notifiedWait : List (TimedInput Nat CallbackCall) :=
  [.call 0 (.timedWait 1000), .call 1 (.halCallback none), .resume 0 false]

theorem notifiedWait_truthful : ∃ ts w, Run blockingHalCallback.step (Monitor.boot {}) ts w ∧
    w.log = [(.halCallback none, none), (.timedWait 1000, some true)] ∧
      ∀ tr ∈ ts, Truthful (τ := Nat) tr := by
  have hr := Run.of_record
    (show record blockingHalCallback.step (Monitor.boot {}) notifiedWait = some (_, _) from rfl)
  refine ⟨_, _, hr, rfl, (truthful_run_iff hr).mpr ?_⟩
  intro tr htr thread milliseconds hi _
  rcases List.mem_cons.mp htr with rfl | htr
  · cases hi
  · rcases List.mem_cons.mp htr with rfl | htr
    · cases hi
    · cases List.mem_singleton.mp htr
      exact ⟨none, none, List.mem_cons_self⟩

/-- A thread that waits is woken up for no reason, and takes it for the callback. -/
theorem spuriousWakeUp_believed :
    ¬ ∀ (ts : List (CallbackTransition Nat)) (w : CallbackWorld Nat),
      Run blockingHalCallback.step (Monitor.boot {}) ts w → ∀ tr ∈ ts, Truthful tr := by
  intro h
  have hr := Run.of_record (show record blockingHalCallback.step (Monitor.boot {})
    [.call 0 (.timedWait 1000), .wakeUp 0, .resume (0 : Nat) false] = some (_, _) from rfl)
  have htruthful := h _ _ hr _ (List.mem_cons_of_mem _ (List.mem_cons_of_mem _ List.mem_cons_self))
  obtain ⟨_, _, hmem⟩ := htruthful.returned (.timedWait 1000) rfl
  cases hmem

end IronStack.Proof.BlockingCallback
