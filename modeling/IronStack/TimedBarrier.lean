import IronStack.Lib.Machine

/-!
# `timed_barrier`

Barriers that threads wait at for some time. One lock guards the table of barriers, and
each barrier has a lock and a condition variable of its own, which `wait` and `reset` take
when they have released the first: the barrier may be destroyed in between. Whoever goes on
with a barrier that was destroyed ends in undefined behaviour. Barriers have numbers for
their addresses, and threads are interleaved between their critical sections.
-/

namespace IronStack

/-- `timed_barrier::barrier_instance`, and whether a `reset` holds its lock. -/
structure BarrierInstance where
  activated : Bool := false
  milliseconds : UInt32
  locked : Bool := false

/-- Where a thread is. -/
inductive BarrierPhase where
  | outside
  /-- In `wait`, with the instance that it looked up. -/
  | entering (instancePtr : Nat)
  /-- In `wait_for`. -/
  | blocked (instancePtr : Nat)
  /-- It was notified, its time is over, or it woke up for no reason. -/
  | woken (instancePtr : Nat)
  /-- In `reset`, with the instance that it looked up. -/
  | resetting (barrierId : UInt32) (instancePtr : Nat)
  /-- In `reset`, with the lock of the instance. -/
  | clearing (barrierId : UInt32) (instancePtr : Nat)

/-- What can be seen from outside: calls, and the results of `wait` with the barrier, if there was one. -/
inductive BarrierEvent (τ : Type) where
  | started (thread : τ) (instancePtr : Nat)
  | notified (instancePtr : Nat)
  | cleared (instancePtr : Nat)
  | returned (thread : τ) (instancePtr : Option Nat) (result : Bool)

/-- The barriers, and the threads at them. -/
structure TimedBarrier (τ : Type) where
  barrierCounter : UInt32 := 1
  barriers : UInt32 → Option Nat := fun _ => none
  instances : Nat → Option BarrierInstance := fun _ => none
  nextInstance : Nat := 0
  phase : τ → BarrierPhase := fun _ => .outside
  log : List (BarrierEvent τ) := []
  /-- A thread went on with an instance that is no more. -/
  faulted : Bool := false

/-- What happens next. -/
inductive BarrierInput (τ : Type) where
  | create (milliseconds : UInt32)
  /-- `wait` begins, and looks the barrier up. -/
  | wait (thread : τ) (barrierId : UInt32)
  /-- It takes the lock of the barrier. -/
  | enter (thread : τ)
  /-- A thread in `wait_for` wakes up without being notified. -/
  | wakeUp (thread : τ)
  /-- A thread that woke up gets the lock back, and `wait_for` reports whether the time is over. -/
  | resume (thread : τ) (timedOut : Bool)
  | notify (barrierId : UInt32)
  /-- `reset` begins, and looks the barrier up. -/
  | reset (thread : τ) (barrierId : UInt32)
  /-- It takes the lock of the barrier. -/
  | resetLock (thread : τ)
  /-- It looks the barrier up once more, without the lock of the table. -/
  | resetStore (thread : τ)
  | destroy (barrierId : UInt32)

/-- What `notify_all` of an instance does to a thread. -/
def BarrierPhase.notified (instancePtr : Nat) : BarrierPhase → BarrierPhase
  | .blocked i => if i = instancePtr then .woken i else .blocked i
  | phase => phase

namespace TimedBarrier

variable {τ : Type} [DecidableEq τ]

def setPhase (s : TimedBarrier τ) (thread : τ) (phase : BarrierPhase) : TimedBarrier τ :=
  { s with phase := fun t => if t = thread then phase else s.phase t }

def modifyInstance (s : TimedBarrier τ) (instancePtr : Nat) (f : BarrierInstance → BarrierInstance) :
    TimedBarrier τ :=
  { s with instances := fun i => if i = instancePtr then (s.instances i).map f else s.instances i }

/-- A thread goes on with an instance, if it is still there. -/
def withInstance (s : TimedBarrier τ) (instancePtr : Nat)
    (f : BarrierInstance → Option (TimedBarrier τ)) : Option (TimedBarrier τ) :=
  match s.instances instancePtr with
  | none => some { s with faulted := true }
  | some b => f b

/-- The end of a `wait` at a barrier. -/
def leave (s : TimedBarrier τ) (thread : τ) (instancePtr : Nat) (result : Bool) : TimedBarrier τ :=
  { s.setPhase thread .outside with log := s.log ++ [.returned thread (some instancePtr) result] }

/-- The loop of `timed_barrier::wait`, with the lock of the instance. -/
def waitLoop (s : TimedBarrier τ) (thread : τ) (instancePtr : Nat) (b : BarrierInstance) : TimedBarrier τ :=
  if b.activated then s.leave thread instancePtr true else s.setPhase thread (.blocked instancePtr)

/-- `timed_barrier::create`, for an interval in milliseconds. -/
def create (s : TimedBarrier τ) (milliseconds : UInt32) : TimedBarrier τ :=
  { s with
    barrierCounter := s.barrierCounter + 1
    barriers := fun id => if id = s.barrierCounter + 1 then some s.nextInstance else s.barriers id
    instances := fun i =>
      if i = s.nextInstance then some { milliseconds := milliseconds } else s.instances i
    nextInstance := s.nextInstance + 1 }

/-- `timed_barrier::notify`, with both locks. The flag that waits look at is not set. -/
def notify (s : TimedBarrier τ) (barrierId : UInt32) : Option (TimedBarrier τ) :=
  match s.barriers barrierId with
  | none => some s
  | some instancePtr =>
      s.withInstance instancePtr fun b =>
        if b.locked then none
        else some { s with
          phase := fun t => (s.phase t).notified instancePtr
          log := s.log ++ [.notified instancePtr] }

/-- The rest of `timed_barrier::reset`. For a barrier that is not in the table, `barriers[...]` is null. -/
def resetStore (s : TimedBarrier τ) (thread : τ) (barrierId : UInt32) (instancePtr : Nat) :
    Option (TimedBarrier τ) :=
  match s.barriers barrierId with
  | none => some { s with faulted := true }
  | some found =>
      s.withInstance found fun _ =>
        s.withInstance instancePtr fun _ =>
          let s := s.modifyInstance found fun b => { b with activated := false }
          let s := s.modifyInstance instancePtr fun b => { b with locked := false }
          some { s.setPhase thread .outside with log := s.log ++ [.cleared found] }

/-- `timed_barrier::destroy`. -/
def destroy (s : TimedBarrier τ) (barrierId : UInt32) : TimedBarrier τ :=
  match s.barriers barrierId with
  | none => s
  | some instancePtr =>
      { s with
        barriers := fun id => if id = barrierId then none else s.barriers id
        instances := fun i => if i = instancePtr then none else s.instances i }

/-- One step; `none` where it is not the thread's turn to do this, or somebody else has the lock. -/
def step (s : TimedBarrier τ) (i : BarrierInput τ) : Option (TimedBarrier τ) :=
  if s.faulted then none
  else
    match i with
    | .create milliseconds => some (s.create milliseconds)
    | .wait thread barrierId =>
        match s.phase thread with
        | .outside =>
            match s.barriers barrierId with
            | none => some { s with log := s.log ++ [.returned thread none true] }
            | some instancePtr =>
                some { s.setPhase thread (.entering instancePtr) with
                  log := s.log ++ [.started thread instancePtr] }
        | _ => none
    | .enter thread =>
        match s.phase thread with
        | .entering instancePtr =>
            s.withInstance instancePtr fun b =>
              if b.locked then none else some (s.waitLoop thread instancePtr b)
        | _ => none
    | .wakeUp thread =>
        match s.phase thread with
        | .blocked instancePtr =>
            s.withInstance instancePtr fun _ => some (s.setPhase thread (.woken instancePtr))
        | _ => none
    | .resume thread timedOut =>
        match s.phase thread with
        | .woken instancePtr =>
            s.withInstance instancePtr fun b =>
              if b.locked then none
              else if timedOut then some (s.leave thread instancePtr false)
              else some (s.waitLoop thread instancePtr b)
        | _ => none
    | .notify barrierId => s.notify barrierId
    | .reset thread barrierId =>
        match s.phase thread with
        | .outside =>
            match s.barriers barrierId with
            | none => some s
            | some instancePtr => some (s.setPhase thread (.resetting barrierId instancePtr))
        | _ => none
    | .resetLock thread =>
        match s.phase thread with
        | .resetting barrierId instancePtr =>
            s.withInstance instancePtr fun b =>
              if b.locked then none
              else
                let s := s.modifyInstance instancePtr fun b => { b with locked := true }
                some (s.setPhase thread (.clearing barrierId instancePtr))
        | _ => none
    | .resetStore thread =>
        match s.phase thread with
        | .clearing barrierId instancePtr => s.resetStore thread barrierId instancePtr
        | _ => none
    | .destroy barrierId => some (s.destroy barrierId)

end TimedBarrier

end IronStack
