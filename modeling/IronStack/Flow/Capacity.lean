import IronStack.Flow.Table
import Mathlib.Logic.Function.Iterate

/-!
# The capacity queries of `flow_table`

`get_used_capacity` and `get_available_capacity` walk over the entries, count those
that are not `DELETED` and purge the others once their time has come. The loop reads
the `steady_clock` at each `DELETED` entry it stands at, so a query is given the
readings one after the other.

The iterator moves on past an entry that counts, and past one that is erased. At a
`DELETED` entry whose time has not come yet it does neither.
-/

namespace IronStack

open Std

/-- Where the loop over the entries stands. -/
structure CapacityLoop where
  /-- The entries from the iterator on. -/
  ahead : List (UInt64 × FlowEntry)
  flows : FlowMap
  /-- `result`, or `used`. -/
  used : UInt32
  /-- How often the clock was read. -/
  readings : Nat

namespace FlowTable

/-- Before the first turn. -/
def capacityStart (t : FlowTable) : CapacityLoop := ⟨t.flows.toList, t.flows, 0, 0⟩

/-- One turn of the loop; nothing happens once the iterator has reached the end. -/
def capacityTurn (clock : Nat → Nat) (s : CapacityLoop) : CapacityLoop :=
  match s.ahead with
  | [] => s
  | (cookie, e) :: rest =>
      if e.state ≠ .deleted then
        { s with ahead := rest, used := s.used + 1 }
      else if e.lastUpdated.getTimeElapsedMs (clock s.readings) ≥ deletedEntryTimeout then
        { s with ahead := rest, flows := s.flows.erase cookie, readings := s.readings + 1 }
      else
        { s with readings := s.readings + 1 }

/-- The loop after so many turns. -/
def capacityLoop (clock : Nat → Nat) (turns : Nat) (t : FlowTable) : CapacityLoop :=
  (capacityTurn clock)^[turns] t.capacityStart

/-- `flow_table::get_used_capacity`; `none` if the loop is not over after so many turns. -/
def getUsedCapacity (clock : Nat → Nat) (turns : Nat) (t : FlowTable) : Option (UInt32 × FlowTable) :=
  let s := capacityLoop clock turns t
  if s.ahead.isEmpty then some (s.used, { t with flows := s.flows }) else none

/-- `flow_table::get_available_capacity`, likewise. -/
def getAvailableCapacity (clock : Nat → Nat) (turns : Nat) (t : FlowTable) :
    Option (UInt32 × FlowTable) :=
  let s := capacityLoop clock turns t
  if s.ahead.isEmpty then
    some (if t.maxCapacity > s.used then t.maxCapacity - s.used else 0, { t with flows := s.flows })
  else none

end FlowTable

end IronStack
