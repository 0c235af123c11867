import IronStack.Common

/-!
# `cam_table` and `cam`

Which port a station was last seen behind: a bounded map of addresses for each
VLAN, with entries that age.
-/

namespace IronStack

open Std

/-- `cam_entry`. -/
structure CamEntry where
  valid : Bool
  dlAddress : MacAddress
  phyPort : UInt16
  lookupCount : UInt32
  lastLookup : Timer
  updateCount : UInt32
  lastUpdated : Timer
deriving DecidableEq, Repr

/-- `cam_entry(addr, port)`. -/
def CamEntry.learned (now : Nat) (addr : MacAddress) (port : UInt16) : CamEntry where
  valid := true
  dlAddress := addr
  phyPort := port
  lookupCount := 0
  lastLookup := Timer.reset now
  updateCount := 0
  lastUpdated := Timer.reset now

/-- `map<mac_address, cam_entry>`. -/
abbrev CamMappings := ExtTreeMap MacAddress CamEntry

/-- `cam_table`; the defaults are those of its constructor. -/
structure CamTable where
  maxCapacity : UInt32 := 65536
  timeoutSec : UInt32 := 14400
  camMappings : CamMappings := ∅

namespace CamTable

/-- The limit `do_garbage_collection` compares ages with: `(int) timeout_sec*1000`. -/
def timeoutMs (t : CamTable) : Int := (t.timeoutSec.toInt32 * 1000).toInt

/-- Does the first pass of `do_garbage_collection` erase the entry? -/
def isStale (t : CamTable) (now : Nat) (e : CamEntry) : Bool :=
  !e.valid || decide (e.lastUpdated.getTimeElapsedMs now ≥ t.timeoutMs)

/--
`cam_table::do_garbage_collection`: erase what is stale, then from the front what
is still over the capacity. The excess is an `int`, counted down for what is erased; the
clock is read for every entry.
-/
def doGarbageCollection (t : CamTable) (clock : MacAddress → Nat) : CamTable :=
  let excessEntries := Int.bmod ((t.camMappings.size : Int) - t.maxCapacity.toNat) (2 ^ 32)
  let fresh := t.camMappings.filter fun addr e => !t.isStale (clock addr) e
  let excessEntries := Int.bmod (excessEntries - ((t.camMappings.size : Int) - fresh.size)) (2 ^ 32)
  { t with
    camMappings :=
      (fresh.toList.take excessEntries.toNat).foldl (fun m p => m.erase p.1) fresh }

/-- `cam_table::set_max_capacity`. -/
def setMaxCapacity (t : CamTable) (clock : MacAddress → Nat) (max : UInt32) : CamTable :=
  if max > t.maxCapacity then { t with maxCapacity := max }
  else { t with maxCapacity := max }.doGarbageCollection clock

/-- `cam_table::set_timeout`. -/
def setTimeout (t : CamTable) (clock : MacAddress → Nat) (timeout : UInt32) : CamTable :=
  if timeout ≥ t.timeoutSec then { t with timeoutSec := timeout }
  else { t with timeoutSec := timeout }.doGarbageCollection clock

/-- `cam_table::clear`. -/
def clear (t : CamTable) : CamTable := { t with camMappings := ∅ }

/-- `cam_table::lookup_port_for`; a hit is counted in the entry. -/
def lookupPortFor (t : CamTable) (now : Nat) (dest : MacAddress) : Int × CamTable :=
  match t.camMappings[dest]? with
  | none => (-1, t)
  | some e =>
      if !e.valid then (-1, t)
      else
        (e.phyPort.toNat, { t with
          camMappings := t.camMappings.insert dest
            { e with lookupCount := e.lookupCount + 1, lastLookup := Timer.reset now } })

/-- `cam_table::insert`. -/
def insert (t : CamTable) (clock : MacAddress → Nat) (now : Nat) (addr : MacAddress) (port : UInt16) :
    Bool × CamTable :=
  match t.camMappings[addr]? with
  | none =>
      let t := if t.camMappings.size ≥ t.maxCapacity.toNat then t.doGarbageCollection clock else t
      if t.camMappings.size ≥ t.maxCapacity.toNat then (false, t)
      else
        (true, { t with
          camMappings := t.camMappings.insert addr (CamEntry.learned now addr port) })
  | some e =>
      (true, { t with
        camMappings := t.camMappings.insert addr
          { e with
            valid := true
            phyPort := port
            updateCount := e.updateCount + 1
            lastUpdated := Timer.reset now } })

/-- `cam_table::remove` for an address. -/
def remove (t : CamTable) (dlAddr : MacAddress) : CamTable :=
  { t with camMappings := t.camMappings.erase dlAddr }

/-- `cam_table::remove` for a port. -/
def removePort (t : CamTable) (port : UInt16) : CamTable :=
  { t with camMappings := t.camMappings.filter fun _ e => e.phyPort != port }

/-- The operations on a table, with the readings of the clock that they make. -/
inductive Input where
  | insert (clock : MacAddress → Nat) (now : Nat) (addr : MacAddress) (port : UInt16)
  | lookupPortFor (now : Nat) (dest : MacAddress)
  | remove (dlAddr : MacAddress)
  | removePort (port : UInt16)
  | clear
  | setMaxCapacity (clock : MacAddress → Nat) (max : UInt32)
  | setTimeout (clock : MacAddress → Nat) (timeout : UInt32)
  | doGarbageCollection (clock : MacAddress → Nat)

/-- What an operation leaves of the table. -/
def step (t : CamTable) : Input → Option CamTable
  | .insert clock now addr port => some (t.insert clock now addr port).2
  | .lookupPortFor now dest => some (t.lookupPortFor now dest).2
  | .remove dlAddr => some (t.remove dlAddr)
  | .removePort port => some (t.removePort port)
  | .clear => some t.clear
  | .setMaxCapacity clock max => some (t.setMaxCapacity clock max)
  | .setTimeout clock timeout => some (t.setTimeout clock timeout)
  | .doGarbageCollection clock => some (t.doGarbageCollection clock)

end CamTable

/-- `cam`: a `cam_table` for each VLAN. -/
structure Cam where
  camTables : ExtTreeMap UInt16 CamTable := ∅

namespace Cam

/-- `cam::create_cam_table`. -/
def createCamTable (c : Cam) (vlanId : UInt16) : Cam :=
  if c.camTables.contains vlanId then c
  else { c with camTables := c.camTables.insert vlanId {} }

/-- `cam::remove_cam_table`. -/
def removeCamTable (c : Cam) (vlanId : UInt16) : Cam :=
  { c with camTables := c.camTables.erase vlanId }

/-- `cam::remove_all_cam_tables`. -/
def removeAllCamTables (c : Cam) : Cam := { c with camTables := ∅ }

/-- The operations on the table of one VLAN, which do nothing if there is none. -/
def onTable (c : Cam) (vlanId : UInt16) (f : CamTable → CamTable) : Cam :=
  match c.camTables[vlanId]? with
  | none => c
  | some t => { c with camTables := c.camTables.insert vlanId (f t) }

/-- `cam::clear_cam_table`. -/
def clearCamTable (c : Cam) (vlanId : UInt16) : Cam := c.onTable vlanId (·.clear)

/-- `cam::clear_all_tables`. -/
def clearAllTables (c : Cam) : Cam :=
  { c with camTables := c.camTables.map fun _ t => t.clear }

/-- `cam::insert`. -/
def insert (c : Cam) (clock : MacAddress → Nat) (now : Nat) (dlAddr : MacAddress) (vlanId phyPort : UInt16) :
    Cam := c.onTable vlanId fun t => (t.insert clock now dlAddr phyPort).2

/-- `cam::insert_all`. -/
def insertAll (c : Cam) (clock : UInt16 → MacAddress → Nat) (now : Nat) (dlAddr : MacAddress)
    (phyPort : UInt16) : Cam :=
  { c with camTables := c.camTables.map fun vlanId t => (t.insert (clock vlanId) now dlAddr phyPort).2 }

/-- `cam::lookup_port_for`. -/
def lookupPortFor (c : Cam) (now : Nat) (dlAddress : MacAddress) (vlanId : UInt16) : Int × Cam :=
  match c.camTables[vlanId]? with
  | none => (-1, c)
  | some t =>
      let (port, t) := t.lookupPortFor now dlAddress
      (port, { c with camTables := c.camTables.insert vlanId t })

/-- `cam::remove` for an address. -/
def remove (c : Cam) (dlAddr : MacAddress) (vlanId : UInt16) : Cam :=
  c.onTable vlanId (·.remove dlAddr)

/-- `cam::remove` for a port: on all VLANs. -/
def removePort (c : Cam) (phyPort : UInt16) : Cam :=
  { c with camTables := c.camTables.map fun _ t => t.removePort phyPort }

end Cam

end IronStack
