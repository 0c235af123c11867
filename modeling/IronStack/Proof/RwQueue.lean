import IronStack.RwQueue

/-!
# The queue neither loses nor reorders

What the readers got is the front part of what the writers put in, and what they did
not get yet is in the queue. A writer only gets through while there is room under the
maximum of the moment, and a reader only while there is something to read. Each
operation notifies the condition on which the other side waits for just that, so
nobody sleeps while he could go on.
-/

namespace IronStack.Proof

open IronStack Lib RwQueue

variable {α : Type}

/-- The objects put into the queue, in order. -/
def enqueued (log : List (QueueCall α × Option α)) : List α :=
  log.filterMap fun entry =>
    match entry.1 with
    | .enqueue obj => some obj
    | _ => none

/-- The objects that `dequeue` returned, in order. -/
def dequeued (log : List (QueueCall α × Option α)) : List α := log.filterMap Prod.snd

/-! ## One operation -/

theorem enqueue_eq_some_iff {q q' : RwQueue α} {obj : α} :
    q.enqueue obj = some q' ↔
      q.objQueue.length < q.max.toNat ∧ q' = { q with objQueue := q.objQueue ++ [obj] } := by
  have hfull : q.isFull = true ↔ q.max.toNat ≤ q.objQueue.length := by
    simp [isFull]
  unfold enqueue
  split
  · rename_i h
    rw [hfull] at h
    exact ⟨fun hnone => (by cases hnone), fun hroom => absurd hroom.1 (Nat.not_lt.mpr h)⟩
  · rename_i h
    rw [hfull, Nat.not_le] at h
    exact ⟨fun hsome => ⟨h, (Option.some.inj hsome).symm⟩, fun hroom => congrArg some hroom.2.symm⟩

theorem enqueue_eq_none_iff {q : RwQueue α} {obj : α} :
    q.enqueue obj = none ↔ q.max.toNat ≤ q.objQueue.length := by
  simp [enqueue, isFull]

theorem dequeue_eq_none_iff {q : RwQueue α} : q.dequeue = none ↔ q.objQueue = [] := by
  unfold dequeue
  split
  · rename_i h
    exact ⟨fun _ => h, fun _ => rfl⟩
  · rename_i h
    simp [h]

/-- What an operation does to the queue when it is done. -/
theorem attempt_cases {q q' : RwQueue α} {call : QueueCall α} {result : Option α}
    (h : (rwqueue α).attempt q call = some (q', result)) :
    (∃ obj, call = .enqueue obj ∧ result = none ∧ q.objQueue.length < q.max.toNat ∧
        q' = { q with objQueue := q.objQueue ++ [obj] }) ∨
      (∃ obj, call = .dequeue ∧ result = some obj ∧ q.objQueue = obj :: q'.objQueue ∧ q'.max = q.max) ∨
      ∃ max, call = .setMax max ∧ result = none ∧ q'.objQueue = q.objQueue := by
  cases call with
  | enqueue obj =>
      obtain ⟨q'', hq, heq⟩ := Option.map_eq_some_iff.mp h
      obtain ⟨rfl, rfl⟩ := Prod.mk.inj heq
      obtain ⟨hroom, rfl⟩ := enqueue_eq_some_iff.mp hq
      exact .inl ⟨obj, rfl, rfl, hroom, rfl⟩
  | dequeue =>
      obtain ⟨r, hq, heq⟩ := Option.map_eq_some_iff.mp h
      obtain ⟨rfl, rfl⟩ := Prod.mk.inj heq
      unfold dequeue at hq
      split at hq
      · cases hq
      · rename_i obj rest hqueue
        obtain rfl := Option.some.inj hq
        exact .inr (.inl ⟨obj, rfl, rfl, hqueue, rfl⟩)
  | setMax max =>
      obtain ⟨rfl, rfl⟩ := Prod.mk.inj (Option.some.inj h)
      exact .inr (.inr ⟨max, rfl, rfl, rfl⟩)

/-! ## The three properties -/

/-- What went in is what came out, and what is still there. -/
def Conserved (q : RwQueue α) (log : List (QueueCall α × Option α)) : Prop :=
  enqueued log = dequeued log ++ q.objQueue

theorem conserved_attempt {q q' : RwQueue α} {call : QueueCall α} {result : Option α}
    {log : List (QueueCall α × Option α)} (h : Conserved q log)
    (hattempt : (rwqueue α).attempt q call = some (q', result)) :
    Conserved q' (log ++ [(call, result)]) := by
  unfold Conserved enqueued dequeued at *
  rw [List.filterMap_append, List.filterMap_append, h]
  rcases attempt_cases hattempt with ⟨obj, rfl, rfl, _, rfl⟩ | ⟨obj, rfl, rfl, hqueue, _⟩ |
    ⟨max, rfl, rfl, hqueue⟩
  · simp
  · simp [hqueue]
  · simp [hqueue]

/-- Only a reader makes room, or a change of the maximum, and only a writer brings something to
read; and each of them notifies those who wait for it. -/
theorem rwqueue_notifies (α : Type) : (rwqueue α).Notifies := by
  intro q q' call result waiting hattempt hwait hready
  cases waiting with
  | enqueue obj =>
      have hfull : q.max.toNat ≤ q.objQueue.length :=
        enqueue_eq_none_iff.mp (Option.map_eq_none_iff.mp hwait)
      rcases attempt_cases hattempt with ⟨_, rfl, _, hroom, _⟩ | ⟨_, rfl, _⟩ | ⟨_, rfl, _⟩
      · omega
      · rfl
      · rfl
  | dequeue =>
      have hempty : q.objQueue = [] := dequeue_eq_none_iff.mp (Option.map_eq_none_iff.mp hwait)
      rcases attempt_cases hattempt with ⟨_, rfl, _⟩ | ⟨_, _, _, hqueue, _⟩ | ⟨_, _, _, hqueue⟩
      · rfl
      · rw [hempty] at hqueue
        cases hqueue
      · -- the queue is as empty as before
        refine absurd ?_ hready
        have hempty' : q'.objQueue = [] := hqueue.trans hempty
        simp [rwqueue, dequeue, hempty']
  | setMax max => cases hwait

/-- No object is put in that has no room under the maximum of the moment. -/
def WithinMax {τ : Type} (tr : Transition (MonitorWorld τ (RwQueue α) (QueueCall α) (Option α))
    (MonitorInput τ (QueueCall α))) : Prop :=
  enqueued tr.target.log ≠ enqueued tr.source.log →
    tr.target.state.objQueue.length ≤ tr.target.state.max.toNat

theorem withinMax_step {τ : Type} [DecidableEq τ]
    {w w' : MonitorWorld τ (RwQueue α) (QueueCall α) (Option α)} {i : MonitorInput τ (QueueCall α)}
    (h : (rwqueue α).step w i = some w') : WithinMax ⟨w, i, w'⟩ := by
  intro hgrown
  dsimp only at hgrown ⊢
  rcases (rwqueue α).step_log h with ⟨_, hlog⟩ | ⟨call, result, hattempt, hlog⟩
  · exact absurd (congrArg enqueued hlog) hgrown
  · rcases attempt_cases hattempt with ⟨obj, rfl, _, hroom, heq⟩ | ⟨_, rfl, _⟩ | ⟨_, rfl, _⟩
    · rw [heq, List.length_append, List.length_singleton]
      exact hroom
    · exact absurd (by simp [hlog, enqueued]) hgrown
    · exact absurd (by simp [hlog, enqueued]) hgrown

/-- What a thread waits for is not there: something to read, or room to write. -/
def WaitsInNeed (q : RwQueue α) : QueueCall α → Prop
  | .dequeue => q.objQueue = []
  | .enqueue _ => q.max.toNat ≤ q.objQueue.length
  | .setMax _ => False

theorem waitsInNeed_iff {q : RwQueue α} {call : QueueCall α} :
    (rwqueue α).attempt q call = none ↔ WaitsInNeed q call := by
  cases call with
  | enqueue obj => exact Option.map_eq_none_iff.trans enqueue_eq_none_iff
  | dequeue => exact Option.map_eq_none_iff.trans dequeue_eq_none_iff
  | setMax max => exact iff_of_false (Option.some_ne_none _) id

/--
**The queue is safe.** In every run of `enqueue`, `dequeue` and `set_max` on a new
queue, by any threads: what was dequeued is a prefix of what was enqueued, no
`enqueue` went over the maximum of its time, and no thread is blocked, without being
notified, in an operation that could go on: a reader finds the queue empty, a writer finds
it full.
-/
theorem rwqueue_safe {τ : Type} [DecidableEq τ] {max : Int32}
    {ts : List (Transition (MonitorWorld τ (RwQueue α) (QueueCall α) (Option α))
      (MonitorInput τ (QueueCall α)))}
    {w : MonitorWorld τ (RwQueue α) (QueueCall α) (Option α)}
    (hr : Run (rwqueue α).step (Monitor.boot (RwQueue.new max)) ts w) :
    dequeued w.log <+: enqueued w.log ∧ (∀ tr ∈ ts, WithinMax tr) ∧
      ∀ thread call, w.phase thread = .blocked call →
        (rwqueue α).attempt w.state call = none ∧ WaitsInNeed w.state call := by
  refine ⟨?_, ?_, fun thread call hblocked => ?_⟩
  · have hconserved : Conserved w.state w.log :=
      (rwqueue α).log_invariant hr rfl fun _ _ _ _ _ h hattempt => conserved_attempt h hattempt
    exact ⟨w.state.objQueue, hconserved.symm⟩
  · intro tr htr
    exact withinMax_step (hr.step_of_mem htr)
  · have hwait := (rwqueue α).no_lost_wakeUp (rwqueue_notifies α) hr thread call hblocked
    exact ⟨hwait, waitsInNeed_iff.mp hwait⟩

/-- A writer waits at a queue for one object until a reader has made room. -/
theorem rwqueue_safe_handover : ∃ ts w,
    Run (rwqueue Nat).step (Monitor.boot (RwQueue.new 1)) ts w ∧ w.state.objQueue = [8] ∧
      dequeued w.log <+: enqueued w.log ∧ (∀ tr ∈ ts, WithinMax tr) ∧
        ∀ thread : Nat, ∀ call, w.phase thread = .blocked call →
          (rwqueue Nat).attempt w.state call = none ∧ WaitsInNeed w.state call := by
  obtain ⟨ts, w, hr, hcheck⟩ := Run.exists_of_test (rwqueue Nat).step
    (Monitor.boot (RwQueue.new 1))
    [.call 0 (.enqueue 7), .call 1 (.enqueue 8), .wakeUp 1, .resume 1, .call 2 .dequeue, .resume 1]
    (fun _ w => w.state.objQueue == [8]) (by decide)
  exact ⟨ts, w, hr, beq_iff_eq.mp hcheck, rwqueue_safe hr⟩

end IronStack.Proof
