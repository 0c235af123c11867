import IronStack.Lib.Monitor

/-!
# `rwqueue`

The queue through which the threads of the HAL pass messages on. Writers wait while it
is full and readers while it is empty, each on a condition variable of their own. Each
operation is one pass with the lock held; `none` is the wait.
-/

namespace IronStack

open Lib

/-- `rwqueue`. The maximum is kept as an unsigned number: -1, for no limit, is `2^32 - 1`. -/
structure RwQueue (α : Type) where
  max : UInt32
  objQueue : List α

namespace RwQueue

variable {α : Type}

/-- The constructor. -/
def new (max : Int32) : RwQueue α := ⟨max.toUInt32, []⟩

/-- The condition of the loop in `enqueue`: `max_ >= 0 && obj_queue_.size() >= max_`. -/
def isFull (q : RwQueue α) : Bool := q.max ≥ 0 && q.objQueue.length ≥ q.max.toNat

/-- `rwqueue::enqueue`, for a copy as for a moved object. -/
def enqueue (q : RwQueue α) (obj : α) : Option (RwQueue α) :=
  if q.isFull then none else some { q with objQueue := q.objQueue ++ [obj] }

/-- `rwqueue::dequeue`. -/
def dequeue (q : RwQueue α) : Option (RwQueue α × α) :=
  match q.objQueue with
  | [] => none
  | obj :: rest => some ({ q with objQueue := rest }, obj)

/-- `rwqueue::set_max`. -/
def setMax (q : RwQueue α) (max : Int32) : RwQueue α :=
  { q with max := (if max ≥ -1 then max else -1).toUInt32 }

end RwQueue

/-- A call of one of the operations. -/
inductive QueueCall (α : Type) where
  | enqueue (obj : α)
  | dequeue
  | setMax (max : Int32)

/-- The condition variables. -/
inductive QueueCond where
  | full
  | empty
deriving DecidableEq

/-- `rwqueue` as a monitor. A `dequeue` results in an object. -/
def rwqueue (α : Type) : Monitor (RwQueue α) (QueueCall α) (Option α) QueueCond where
  attempt q
    | .enqueue obj => (q.enqueue obj).map fun q' => (q', none)
    | .dequeue => q.dequeue.map fun r => (r.1, some r.2)
    | .setMax max => some (q.setMax max, none)
  waitsOn
    | .enqueue _ => .full
    | .dequeue => .empty
    -- `set_max` does not wait
    | .setMax _ => .full
  notifies
    | .enqueue _ => (· == .empty)
    | .dequeue => (· == .full)
    | .setMax _ => (· == .full)

end IronStack
