import IronStack.Hal.Transaction
import IronStack.Lib.TimedMonitor

/-!
# `blocking_hal_callback`

The callback on which a caller waits for the completion of its transaction. It has one
lock and one condition variable, and any number of threads may wait at it.
-/

namespace IronStack

open Lib

/-- `blocking_hal_callback`. -/
structure BlockingHalCallback where
  done : Bool := false
  successful : Bool := false

/-- A call of one of its methods. -/
inductive CallbackCall where
  /-- `hal_callback`, with the type of the reply, if there is one. -/
  | halCallback (openflowReply : Option OfpType)
  | wait
  | timedWait (milliseconds : UInt32)
  | poll

namespace BlockingHalCallback

/-- `blocking_hal_callback::hal_callback`. The status is not looked at. -/
def halCallback (openflowReply : Option OfpType) : BlockingHalCallback where
  done := true
  successful := !(openflowReply == some .error)

end BlockingHalCallback

/-- Its methods, as operations of a monitor. Those that wait and `poll` result in a `bool`. -/
def blockingHalCallback : TimedMonitor BlockingHalCallback CallbackCall (Option Bool) where
  attempt cob
    | .halCallback openflowReply => some (.halCallback openflowReply, none)
    | .wait => if cob.done then some (cob, some true) else none
    | .timedWait _ => if cob.done then some (cob, some true) else none
    | .poll => some (cob, some cob.done)
  retry cob
    -- a loop
    | .wait, _ => if cob.done then some (cob, some true) else none
    -- and none: the result only depends on what the wait reports
    | .timedWait _, timedOut => some (cob, some (!timedOut))
    -- these do not wait
    | .halCallback openflowReply, _ => some (.halCallback openflowReply, none)
    | .poll, _ => some (cob, some cob.done)
  notifies
    | .halCallback _ => true
    | _ => false

end IronStack
