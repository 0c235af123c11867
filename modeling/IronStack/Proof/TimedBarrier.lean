import IronStack.TimedBarrier

/-!
# Nobody is told of a notification

`notify` wakes up the threads that wait and leaves the flag as it is, which nothing else
sets. So every wait at a barrier goes on until its time is over, and then says that it was
not notified, whether it was or not. And a wait or a reset does not keep its barrier from
being destroyed.
-/

namespace IronStack.Proof.TimedBarrier

open IronStack Lib TimedBarrier

variable {τ : Type}

/-- Where the time begins in which a notification counts for a wait. -/
inductive Period where
  /-- Where the wait began, or the last reset behind that. -/
  | wait
  /-- At the last reset, even if the wait began later. -/
  | reset

/-- What ends the effect of a notification for a wait. -/
def Ends (period : Period) (thread : τ) (instancePtr : Nat) (e : BarrierEvent τ) : Prop :=
  e = .cleared instancePtr ∨ period = .wait ∧ e = .started thread instancePtr

/-- The barrier was notified in the time that counts. -/
def NotifiedIn (period : Period) (thread : τ) (instancePtr : Nat) (log : List (BarrierEvent τ)) : Prop :=
  Unrevoked (· = .notified instancePtr) (Ends period thread instancePtr) log

abbrev BarrierTransition (τ : Type) := Transition (TimedBarrier τ) (BarrierInput τ)

/-- A step is defined, and what a wait at a barrier returns is right. -/
structure Truthful (period : Period) (tr : BarrierTransition τ) : Prop where
  defined : tr.target.faulted = false
  gaveUp : ∀ thread instancePtr,
    tr.target.log = tr.source.log ++ [.returned thread (some instancePtr) false] →
      ¬ NotifiedIn period thread instancePtr tr.source.log
  passed : ∀ thread instancePtr,
    tr.target.log = tr.source.log ++ [.returned thread (some instancePtr) true] →
      .notified instancePtr ∈ tr.source.log

/-- The instance that a call in progress works with. -/
def instanceOf : BarrierPhase → Option Nat
  | .outside => none
  | .entering i | .blocked i | .woken i | .resetting _ i | .clearing _ i => some i

/-- The thread whose call goes on in a step. -/
def goesOn : BarrierInput τ → Option τ
  | .enter thread | .wakeUp thread | .resume thread _ | .resetLock thread | .resetStore thread => some thread
  | .create _ | .wait _ _ | .notify _ | .reset _ _ | .destroy _ => none

/-- A thread goes on with a barrier that was destroyed. -/
def Gone (s : TimedBarrier τ) (input : BarrierInput τ) : Prop :=
  ∃ thread i, goesOn input = some thread ∧ instanceOf (s.phase thread) = some i ∧
    (s.instances i = none ∨ ∃ id, s.phase thread = .clearing id i ∧ s.barriers id = none)

/-- No thread goes on with a barrier that was destroyed, and the time of a wait is not over
if its barrier was notified. -/
structure Undisturbed (period : Period) (s : TimedBarrier τ) (i : BarrierInput τ) : Prop where
  alive : ¬ Gone s i
  inTime : ∀ thread instancePtr, i = .resume thread true → s.phase thread = .woken instancePtr →
    ¬ NotifiedIn period thread instancePtr s.log

/-! ## The flag is never set -/

/-- What holds of the table and the barriers. -/
structure Table (s : TimedBarrier τ) : Prop where
  inactive : ∀ i b, s.instances i = some b → b.activated = false
  mapped : ∀ id i, s.barriers id = some i → (s.instances i).isSome = true
  apart : ∀ id id' i, s.barriers id = some i → s.barriers id' = some i → id = id'
  fresh : ∀ i, (s.instances i).isSome = true → i < s.nextInstance

theorem table_boot : Table ({} : TimedBarrier τ) :=
  ⟨nofun, nofun, nofun, nofun⟩

/-- The table only looks at the table. -/
theorem Table.of_eq {s s' : TimedBarrier τ} (h : Table s) (hbarriers : s'.barriers = s.barriers)
    (hinstances : s'.instances = s.instances) (hnext : s'.nextInstance = s.nextInstance) : Table s' := by
  refine ⟨?_, ?_, ?_, ?_⟩
  · rw [hinstances]
    exact h.inactive
  · rw [hinstances, hbarriers]
    exact h.mapped
  · rw [hbarriers]
    exact h.apart
  · rw [hinstances, hnext]
    exact h.fresh

/-- A barrier of the table is older than the next one. -/
theorem Table.lt_next {s : TimedBarrier τ} (h : Table s) {id : UInt32} {i : Nat}
    (hid : s.barriers id = some i) : i < s.nextInstance := h.fresh i (h.mapped id i hid)

theorem table_create {s : TimedBarrier τ} (h : Table s) (milliseconds : UInt32) :
    Table (s.create milliseconds) := by
  have hold : ∀ id i, (s.create milliseconds).barriers id = some i →
      id = s.barrierCounter + 1 ∧ i = s.nextInstance ∨
        id ≠ s.barrierCounter + 1 ∧ s.barriers id = some i := by
    intro id i hid
    dsimp only [create] at hid
    split at hid
    · rename_i heq
      exact .inl ⟨heq, (Option.some.inj hid).symm⟩
    · rename_i hne
      exact .inr ⟨hne, hid⟩
  refine ⟨?_, ?_, ?_, ?_⟩
  · intro i b hb
    dsimp only [create] at hb
    split at hb
    · cases hb
      rfl
    · exact h.inactive i b hb
  · intro id i hid
    dsimp only [create]
    split
    · rfl
    · rename_i hne
      rcases hold id i hid with ⟨_, heq⟩ | ⟨_, hid⟩
      · exact absurd heq hne
      · exact h.mapped id i hid
  · intro id id' i hid hid'
    rcases hold id i hid with ⟨rfl, rfl⟩ | ⟨_, hid⟩
    · rcases hold id' _ hid' with ⟨rfl, _⟩ | ⟨_, hid'⟩
      · rfl
      · exact absurd (h.lt_next hid') (Nat.lt_irrefl _)
    · rcases hold id' i hid' with ⟨_, rfl⟩ | ⟨_, hid'⟩
      · exact absurd (h.lt_next hid) (Nat.lt_irrefl _)
      · exact h.apart id id' i hid hid'
  · intro i hi
    dsimp only [create] at hi ⊢
    split at hi
    · omega
    · exact Nat.lt_succ_of_lt (h.fresh i hi)

theorem table_destroy {s : TimedBarrier τ} (h : Table s) (id : UInt32) : Table (s.destroy id) := by
  unfold destroy
  split
  · exact h
  · rename_i found hfound
    have hold : ∀ {α : Type} {p : Prop} [Decidable p] {x : Option α} {y : α},
        (if p then none else x) = some y → ¬ p ∧ x = some y := by
      intro α p _ x y hif
      split at hif
      · cases hif
      · rename_i hp
        exact ⟨hp, hif⟩
    refine ⟨?_, ?_, ?_, ?_⟩
    · intro i b hb
      exact h.inactive i b (hold hb).2
    · intro id' i hid'
      obtain ⟨hne, hmapped⟩ := hold hid'
      have hother : i ≠ found := by
        intro heq
        rw [heq] at hmapped
        exact hne (h.apart id' id found hmapped hfound)
      dsimp only
      rw [if_neg hother]
      exact h.mapped id' i hmapped
    · intro id₁ id₂ i h₁ h₂
      exact h.apart id₁ id₂ i (hold h₁).2 (hold h₂).2
    · intro i hi
      obtain ⟨b, hb⟩ := Option.isSome_iff_exists.mp hi
      exact h.fresh i (Option.isSome_iff_exists.mpr ⟨b, (hold hb).2⟩)

theorem isSome_modifyInstance {s : TimedBarrier τ} (i j : Nat) (f : BarrierInstance → BarrierInstance) :
    ((s.modifyInstance i f).instances j).isSome = (s.instances j).isSome := by
  dsimp only [modifyInstance]
  split
  · exact Option.isSome_map
  · rfl

theorem table_modifyInstance {s : TimedBarrier τ} (h : Table s) (i : Nat)
    {f : BarrierInstance → BarrierInstance} (hf : ∀ b, b.activated = false → (f b).activated = false) :
    Table (s.modifyInstance i f) := by
  refine ⟨?_, ?_, h.apart, ?_⟩
  · intro j b hb
    dsimp only [modifyInstance] at hb
    split at hb
    · obtain ⟨b', hb', rfl⟩ := Option.map_eq_some_iff.mp hb
      exact hf b' (h.inactive j b' hb')
    · exact h.inactive j b hb
  · intro id j hid
    rw [isSome_modifyInstance]
    exact h.mapped id j hid
  · intro j hj
    rw [isSome_modifyInstance] at hj
    exact h.fresh j hj

/-- The log when nothing is reported. -/
theorem log_ne_of_eq {s s' : TimedBarrier τ} (h : s'.log = s.log) {e : BarrierEvent τ} :
    s'.log ≠ s.log ++ [e] := by
  intro heq
  rw [h] at heq
  exact absurd (congrArg List.length heq) (by simp)

/-- The log when something else is. -/
theorem log_ne_of_ne {s s' : TimedBarrier τ} {e e' : BarrierEvent τ} (h : s'.log = s.log ++ [e'])
    (hne : e' ≠ e) : s'.log ≠ s.log ++ [e] := by
  intro heq
  exact hne (List.singleton_inj.mp (List.append_cancel_left (h.symm.trans heq)))

/-- A thread goes on with an instance that is there, or with one that is no more. -/
theorem withInstance_cases {s s' : TimedBarrier τ} {i : Nat} {f : BarrierInstance → Option (TimedBarrier τ)}
    (h : s.withInstance i f = some s') :
    s.instances i = none ∧ s' = { s with faulted := true } ∨
      ∃ b, s.instances i = some b ∧ f b = some s' := by
  unfold withInstance at h
  split at h
  · rename_i hnone
    exact .inl ⟨hnone, (Option.some.inj h).symm⟩
  · rename_i b hb
    exact .inr ⟨b, hb, h⟩

/-- A barrier of the table is there. -/
theorem Table.of_withInstance {s s' : TimedBarrier τ} (h : Table s) {id : UInt32} {i : Nat}
    (hid : s.barriers id = some i) {f : BarrierInstance → Option (TimedBarrier τ)}
    (hs : s.withInstance i f = some s') : ∃ b, s.instances i = some b ∧ f b = some s' := by
  rcases withInstance_cases hs with ⟨hnone, _⟩ | hfound
  · have hsome := h.mapped id i hid
    rw [hnone] at hsome
    cases hsome
  · exact hfound

variable [DecidableEq τ]

/-- **What a step can do.** -/
inductive StepCase (s s' : TimedBarrier τ) : BarrierInput τ → Prop where
  /-- It goes on with a barrier that is no more. -/
  | gone {input : BarrierInput τ} (hgone : Gone s input) (heq : s' = { s with faulted := true }) :
      StepCase s s' input
  /-- The time of a wait is over. -/
  | timedOut {thread : τ} {i : Nat} (halive : ¬ Gone s (.resume thread true))
      (hphase : s.phase thread = .woken i) (heq : s' = s.leave thread i false) :
      StepCase s s' (.resume thread true)
  /-- Something else happens, and no wait at a barrier returns. -/
  | other {input : BarrierInput τ} (halive : ¬ Gone s input) (hwait : ∀ thread, input ≠ .resume thread true)
      (hfault : s'.faulted = s.faulted)
      (hlog : ∀ thread i result, s'.log ≠ s.log ++ [.returned thread (some i) result])
      (htable : Table s') : StepCase s s' input

omit [DecidableEq τ] in
/-- A step that is no part of a call in progress. -/
theorem not_gone {s : TimedBarrier τ} {input : BarrierInput τ} (h : goesOn input = none) :
    ¬ Gone s input := by
  intro ⟨thread, i, hthread, _⟩
  rw [h] at hthread
  cases hthread

/-- A call that goes on with its instance. -/
theorem stepCase_of_withInstance {s s' : TimedBarrier τ} {input : BarrierInput τ} {thread : τ} {i : Nat}
    {f : BarrierInstance → Option (TimedBarrier τ)} (hthread : goesOn input = some thread)
    (hphase : instanceOf (s.phase thread) = some i)
    (hfound : ∀ id, s.phase thread = .clearing id i → s.barriers id ≠ none)
    (hs : s.withInstance i f = some s')
    (hstep : ∀ b, s.instances i = some b → f b = some s' → ¬ Gone s input → StepCase s s' input) :
    StepCase s s' input := by
  rcases withInstance_cases hs with ⟨hnone, rfl⟩ | ⟨b, hb, hs⟩
  · exact .gone ⟨thread, i, hthread, hphase, .inl hnone⟩ rfl
  · refine hstep b hb hs ?_
    intro ⟨thread', i', hthread', hphase', hgone⟩
    cases hthread.symm.trans hthread'
    cases hphase.symm.trans hphase'
    rcases hgone with hnone | ⟨id, hclearing, hnone⟩
    · rw [hb] at hnone
      cases hnone
    · exact hfound id hclearing hnone

/-- One that does not look for it in the table. -/
theorem stepCase_of_phase {s s' : TimedBarrier τ} {input : BarrierInput τ} {thread : τ} {i : Nat}
    {phase : BarrierPhase} {f : BarrierInstance → Option (TimedBarrier τ)}
    (hthread : goesOn input = some thread) (hphase : s.phase thread = phase)
    (hinstance : instanceOf phase = some i) (hne : ∀ id, phase ≠ .clearing id i)
    (hs : s.withInstance i f = some s')
    (hstep : ∀ b, s.instances i = some b → f b = some s' → ¬ Gone s input → StepCase s s' input) :
    StepCase s s' input := by
  refine stepCase_of_withInstance hthread ?_ ?_ hs hstep
  · rw [hphase]
    exact hinstance
  · intro id hclearing
    exact absurd (hphase.symm.trans hclearing) (hne id)

/-- A wait at a barrier whose flag is not set blocks. -/
theorem waitLoop_eq {s : TimedBarrier τ} (h : Table s) {thread : τ} {i : Nat} {b : BarrierInstance}
    (hb : s.instances i = some b) : s.waitLoop thread i b = s.setPhase thread (.blocked i) := by
  rw [waitLoop, h.inactive i b hb]
  rfl

/-- The flag is cleared in the barrier that is in the table by then, if there is one. -/
theorem stepCase_resetStore {s s' : TimedBarrier τ} (h : Table s) {thread : τ} {barrierId : UInt32} {i : Nat}
    (hphase : s.phase thread = .clearing barrierId i) (hs : s.resetStore thread barrierId i = some s') :
    StepCase s s' (.resetStore thread) := by
  rw [resetStore] at hs
  split at hs
  · rename_i hnone
    cases hs
    exact .gone ⟨thread, i, rfl, congrArg instanceOf hphase, .inr ⟨barrierId, hphase, hnone⟩⟩ rfl
  · rename_i found hfound
    obtain ⟨_, _, hs⟩ := h.of_withInstance hfound hs
    refine stepCase_of_withInstance rfl (congrArg instanceOf hphase) ?_ hs ?_
    · intro id hclearing
      cases hphase.symm.trans hclearing
      rw [hfound]
      nofun
    · intro b hb hs halive
      cases hs
      have hcleared : Table (s.modifyInstance found fun b => { b with activated := false }) :=
        table_modifyInstance h found fun _ _ => rfl
      have hunlocked := table_modifyInstance hcleared i
        (f := fun b => { b with locked := false }) fun _ hinactive => hinactive
      exact .other halive nofun rfl (fun _ _ _ => log_ne_of_ne rfl nofun) (hunlocked.of_eq rfl rfl rfl)

theorem stepCase_destroy {s : TimedBarrier τ} (h : Table s) (barrierId : UInt32) :
    StepCase s (s.destroy barrierId) (.destroy barrierId) := by
  refine .other (not_gone rfl) nofun ?_ ?_ (table_destroy h barrierId)
  · unfold destroy
    split
    · rfl
    · rfl
  · intro _ _ _
    unfold destroy
    split
    · exact log_ne_of_eq rfl
    · exact log_ne_of_eq rfl

theorem step_cases {s s' : TimedBarrier τ} {input : BarrierInput τ} (h : Table s)
    (hs : s.step input = some s') : s.faulted = false ∧ StepCase s s' input := by
  unfold step at hs
  split at hs
  · cases hs
  rename_i hok
  refine ⟨(Bool.not_eq_true _).mp hok, ?_⟩
  cases input with
  | create milliseconds =>
      cases hs
      exact .other (not_gone rfl) nofun rfl (fun _ _ _ => log_ne_of_eq rfl) (table_create h milliseconds)
  | wait thread barrierId =>
      dsimp only at hs
      split at hs
      · split at hs
        · cases hs
          exact .other (not_gone rfl) nofun rfl (fun _ _ _ => log_ne_of_ne rfl nofun) (h.of_eq rfl rfl rfl)
        · cases hs
          exact .other (not_gone rfl) nofun rfl (fun _ _ _ => log_ne_of_ne rfl nofun) (h.of_eq rfl rfl rfl)
      · cases hs
  | enter thread =>
      dsimp only at hs
      split at hs
      · rename_i i hphase
        refine stepCase_of_phase rfl hphase rfl nofun hs ?_
        intro b hb hs halive
        rw [waitLoop_eq h hb] at hs
        split at hs
        · cases hs
        · cases hs
          exact .other halive nofun rfl (fun _ _ _ => log_ne_of_eq rfl) (h.of_eq rfl rfl rfl)
      · cases hs
  | wakeUp thread =>
      dsimp only at hs
      split at hs
      · rename_i i hphase
        refine stepCase_of_phase rfl hphase rfl nofun hs ?_
        intro b hb hs halive
        cases hs
        exact .other halive nofun rfl (fun _ _ _ => log_ne_of_eq rfl) (h.of_eq rfl rfl rfl)
      · cases hs
  | resume thread timedOut =>
      dsimp only at hs
      split at hs
      · rename_i i hphase
        refine stepCase_of_phase rfl hphase rfl nofun hs ?_
        intro b hb hs halive
        rw [waitLoop_eq h hb] at hs
        split at hs
        · cases hs
        · cases timedOut with
          | true =>
              cases hs
              exact .timedOut halive hphase rfl
          | false =>
              cases hs
              exact .other halive nofun rfl (fun _ _ _ => log_ne_of_eq rfl) (h.of_eq rfl rfl rfl)
      · cases hs
  | notify barrierId =>
      simp only [notify] at hs
      split at hs
      · cases hs
        exact .other (not_gone rfl) nofun rfl (fun _ _ _ => log_ne_of_eq rfl) h
      · rename_i i hid
        obtain ⟨b, _, hs⟩ := h.of_withInstance hid hs
        split at hs
        · cases hs
        · cases hs
          exact .other (not_gone rfl) nofun rfl (fun _ _ _ => log_ne_of_ne rfl nofun) (h.of_eq rfl rfl rfl)
  | reset thread barrierId =>
      dsimp only at hs
      split at hs
      · split at hs
        · cases hs
          exact .other (not_gone rfl) nofun rfl (fun _ _ _ => log_ne_of_eq rfl) h
        · cases hs
          exact .other (not_gone rfl) nofun rfl (fun _ _ _ => log_ne_of_eq rfl) (h.of_eq rfl rfl rfl)
      · cases hs
  | resetLock thread =>
      dsimp only at hs
      split at hs
      · rename_i barrierId i hphase
        refine stepCase_of_phase rfl hphase rfl nofun hs ?_
        intro b hb hs halive
        split at hs
        · cases hs
        · cases hs
          have htable : Table (s.modifyInstance i fun b => { b with locked := true }) :=
            table_modifyInstance h i fun _ hinactive => hinactive
          exact .other halive nofun rfl (fun _ _ _ => log_ne_of_eq rfl) (htable.of_eq rfl rfl rfl)
      · cases hs
  | resetStore thread =>
      dsimp only at hs
      split at hs
      · rename_i barrierId i hphase
        exact stepCase_resetStore h hphase hs
      · cases hs
  | destroy barrierId =>
      cases hs
      exact stepCase_destroy h barrierId

/-- **No barrier is ever activated**, whatever is done with it. -/
theorem table_step {s s' : TimedBarrier τ} {input : BarrierInput τ} (h : Table s)
    (hs : s.step input = some s') : Table s' := by
  cases (step_cases h hs).2 with
  | gone _ heq =>
      rw [heq]
      exact h.of_eq rfl rfl rfl
  | timedOut _ _ heq =>
      rw [heq]
      exact h.of_eq rfl rfl rfl
  | other _ _ _ _ htable => exact htable

/-- **One step is truthful** if it goes on with what is there and no notification goes by. -/
theorem truthful_iff {period : Period} {s s' : TimedBarrier τ} {input : BarrierInput τ} (h : Table s)
    (hs : s.step input = some s') : Truthful period ⟨s, input, s'⟩ ↔ Undisturbed period s input := by
  obtain ⟨hok, hcase⟩ := step_cases h hs
  cases hcase with
  | gone hgone heq =>
      refine ⟨?_, ?_⟩
      · intro htruthful
        have hdefined := htruthful.defined
        rw [heq] at hdefined
        cases hdefined
      · intro hundisturbed
        exact absurd hgone hundisturbed.alive
  | @timedOut thread i halive hphase heq =>
      refine ⟨?_, ?_⟩
      · intro htruthful
        refine ⟨halive, ?_⟩
        intro thread' i' hinput hphase'
        cases hinput
        cases hphase.symm.trans hphase'
        refine htruthful.gaveUp thread i ?_
        rw [heq]
        rfl
      · intro hundisturbed
        have hlog : s'.log = s.log ++ [.returned thread (some i) false] := by
          rw [heq]
          rfl
        refine ⟨?_, ?_, ?_⟩
        · rw [heq]
          exact hok
        · intro thread' i' hreturned
          cases List.singleton_inj.mp (List.append_cancel_left (hlog.symm.trans hreturned))
          exact hundisturbed.inTime thread i rfl hphase
        · intro thread' i' hreturned
          cases List.singleton_inj.mp (List.append_cancel_left (hlog.symm.trans hreturned))
  | other halive hwait hfault hlog _ =>
      refine ⟨?_, ?_⟩
      · intro _
        refine ⟨halive, ?_⟩
        intro thread i hinput
        exact absurd hinput (hwait thread)
      · intro _
        refine ⟨hfault.trans hok, ?_, ?_⟩
        · intro thread i hreturned
          exact absurd hreturned (hlog thread i false)
        · intro thread i hreturned
          exact absurd hreturned (hlog thread i true)

/--
**The waits at barriers are truthful in a run**, whatever the order of the steps, exactly
if no call goes on with a barrier that was destroyed, and no wait whose barrier was
notified comes to the end of its time.
-/
theorem barrier_run_iff (period : Period) {ts : List (BarrierTransition τ)} {s : TimedBarrier τ}
    (hr : Run step ({} : TimedBarrier τ) ts s) :
    (∀ tr ∈ ts, Truthful period tr) ↔ ∀ tr ∈ ts, Undisturbed period tr.source tr.input :=
  hr.forall_good_iff Table (fun _ => True) table_boot trivial (fun _ _ _ h hs => table_step h hs)
    (fun _ _ _ _ _ _ _ => trivial) fun _ _ _ h _ hs => truthful_iff h hs

/--
A barrier is notified before a thread waits there, and once more while it does; then it is
reset, and the thread waits until its time is over.
-/
def resetWait : List (BarrierInput Nat) :=
  [.create 1000, .notify 2, .wait 0 2, .enter 0, .notify 2, .resume 0 false, .reset 1 2, .resetLock 1,
    .resetStore 1, .wakeUp 0, .resume 0 true]

theorem resetWait_truthful : ∃ ts s, Run step ({} : TimedBarrier Nat) ts s ∧
    s.log = [.notified 0, .started 0 0, .notified 0, .cleared 0, .returned 0 (some 0) false] ∧
      ∀ tr ∈ ts, Truthful .wait tr := by
  have hr := Run.of_record (show record step ({} : TimedBarrier Nat) resetWait = some (_, _) from rfl)
  refine ⟨_, _, hr, rfl, (barrier_run_iff .wait hr).mpr ?_⟩
  intro tr htr
  simp only [List.mem_cons, List.not_mem_nil, or_false] at htr
  refine ⟨?_, ?_⟩
  · rintro ⟨thread, i, hthread, hphase, hgone⟩
    rcases htr with rfl | rfl | rfl | rfl | rfl | rfl | rfl | rfl | rfl | rfl | rfl
    all_goals cases hthread
    all_goals
      cases hphase
      rcases hgone with hnone | ⟨id, hclearing, hbarrier⟩
      · cases hnone
      · cases hclearing <;> cases hbarrier
  · rintro thread i hinput hphase hnotified
    rcases htr with rfl | rfl | rfl | rfl | rfl | rfl | rfl | rfl | rfl | rfl | rfl
    all_goals cases hinput
    cases hphase
    -- the last thing that happened at the barrier is the reset
    have hlog : Unrevoked (· = .notified 0) (Ends .wait 0 0)
        ([.notified 0, .started 0 0, .notified 0] ++ [.cleared 0]) := hnotified
    rcases unrevoked_concat.mp hlog with heq | ⟨_, hkept⟩
    · cases heq
    · exact hkept (.inl rfl)

/-- A thread that waits is notified, looks at the flag, waits again and gives up. -/
theorem notifiedWait_givesUp :
    ¬ ∀ (period : Period) (ts : List (BarrierTransition Nat)) (s : TimedBarrier Nat),
      Run step ({} : TimedBarrier Nat) ts s → ∀ tr ∈ ts, Truthful period tr := by
  intro h
  have hr := Run.of_record (show record step ({} : TimedBarrier Nat)
    [.create 1000, .wait 0 2, .enter 0, .notify 2, .resume 0 false, .wakeUp 0] = some (_, _) from rfl)
  have htruthful := h .wait _ _ (hr.snoc (i := .resume 0 true) rfl) _
    (List.mem_append_right _ List.mem_cons_self)
  refine htruthful.gaveUp 0 0 rfl ?_
  exact ⟨[.started 0 0], .notified 0, [], rfl, rfl, fun _ hmem => absurd hmem List.not_mem_nil⟩

end IronStack.Proof.TimedBarrier
