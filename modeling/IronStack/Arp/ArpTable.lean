import IronStack.Common
import Mathlib.Data.List.Basic
import Std.Data.ExtTreeMap

/-!
# `arp_table`

The stations of one VLAN: slots for pairs of addresses, and two maps that index
them. An entry that is looked up too late is dropped on the way.
-/

namespace IronStack

open Std

/-- `arp_entry`; the defaults are those of its constructor, but for the clock. -/
structure ArpEntry where
  valid : Bool := false
  persistent : Bool := false
  dlAddress : MacAddress := MacAddress.nil
  nwAddress : IpAddress := IpAddress.nil
  lookupCount : UInt32 := 0
  lastLookup : Timer := ⟨0⟩
  updateCount : UInt32 := 0
  lastUpdated : Timer := ⟨0⟩
deriving DecidableEq

/-- `arp_entry()`. -/
def ArpEntry.empty (now : Nat) : ArpEntry :=
  { lastLookup := Timer.reset now, lastUpdated := Timer.reset now }

/-- `arp_entry(dl, nw)`. -/
def ArpEntry.learned (now : Nat) (dl : MacAddress) (nw : IpAddress) : ArpEntry where
  valid := true
  dlAddress := dl
  nwAddress := nw
  lastLookup := Timer.reset now
  lastUpdated := Timer.reset now

/-- `arp_table`. -/
structure ArpTable where
  maxCapacity : UInt32
  timeoutSec : UInt32
  lastSearchSlot : UInt32
  macToIdxMapping : ExtTreeMap MacAddress UInt32 := ∅
  ipToIdxMapping : ExtTreeMap IpAddress UInt32 := ∅
  arpMappings : List ArpEntry

namespace ArpTable

/-- The constructor. -/
def new (now : Nat) : ArpTable where
  maxCapacity := 16384
  timeoutSec := 14400
  lastSearchSlot := 0
  arpMappings := List.replicate 16384 (ArpEntry.empty now)

/-- `arp_mappings[index]`; the indices that are used are in bounds. -/
def slot (t : ArpTable) (index : UInt32) : ArpEntry := t.arpMappings[index.toNat]?.getD {}

/-- `arp_mappings[index] = entry`. -/
def setSlot (t : ArpTable) (index : UInt32) (entry : ArpEntry) : ArpTable :=
  { t with arpMappings := t.arpMappings.set index.toNat entry }

/-- The age at which entries are dropped: `(int) timeout_sec*1000`. -/
def timeoutMs (t : ArpTable) : Int := (t.timeoutSec.toInt32 * 1000).toInt

/-- `entry.last_updated.get_time_elapsed_ms() >= (int) timeout_sec*1000`. -/
def isStale (t : ArpTable) (now : Nat) (entry : ArpEntry) : Bool :=
  decide (entry.lastUpdated.getTimeElapsedMs now ≥ t.timeoutMs)

/-- One turn of `do_garbage_collection`: a stale slot is freed, and both mappings to it go. -/
def collectSlot (t : ArpTable) (now : Nat) (dlAddr : MacAddress) (index : UInt32) : ArpTable :=
  let entry := t.slot index
  if t.isStale now entry then
    { t.setSlot index { entry with valid := false } with
      ipToIdxMapping := t.ipToIdxMapping.erase entry.nwAddress
      macToIdxMapping := t.macToIdxMapping.erase dlAddr }
  else t

/-- `arp_table::do_garbage_collection`; the clock is read for every entry. -/
def doGarbageCollection (t : ArpTable) (clock : MacAddress → Nat) : ArpTable :=
  t.macToIdxMapping.toList.foldl (fun t mapping =>
    t.collectSlot (clock mapping.1) mapping.1 mapping.2) t

/-- `arp_table::set_max_capacity`. The slots beyond a lower capacity stay. -/
def setMaxCapacity (t : ArpTable) (clock : MacAddress → Nat) (now : Nat) (max : UInt32) : ArpTable :=
  if max < t.maxCapacity then { t with maxCapacity := max }.doGarbageCollection clock
  else
    let difference := max - t.maxCapacity
    { t with
      maxCapacity := max
      arpMappings := t.arpMappings ++ List.replicate difference.toNat (ArpEntry.empty now) }

/-- `arp_table::get_available_capacity`, counted by the MAC addresses that are mapped. -/
def getAvailableCapacity (t : ArpTable) : UInt32 :=
  if t.maxCapacity.toNat ≤ t.macToIdxMapping.size then 0
  else t.maxCapacity - UInt32.ofNat t.macToIdxMapping.size

/-- `arp_table::set_timeout`, which compares `timeout_sec` with itself. -/
def setTimeout (t : ArpTable) (clock : MacAddress → Nat) (timeout : UInt32) : ArpTable :=
  if t.timeoutSec ≥ t.timeoutSec then { t with timeoutSec := timeout }
  else { t with timeoutSec := timeout }.doGarbageCollection clock

/-- One turn of `clear`: the mappings to a slot go, unless it is persistent. -/
def clearSlot (t : ArpTable) (dlAddr : MacAddress) (index : UInt32) : ArpTable :=
  if !(t.slot index).persistent then
    { t with
      ipToIdxMapping := t.ipToIdxMapping.erase (t.slot index).nwAddress
      macToIdxMapping := t.macToIdxMapping.erase dlAddr }
  else t

/-- `arp_table::clear`. -/
def clear (t : ArpTable) : ArpTable :=
  t.macToIdxMapping.toList.foldl (fun t mapping => t.clearSlot mapping.1 mapping.2) t

/-- `arp_table::clear_all`. -/
def clearAll (t : ArpTable) : ArpTable :=
  { t with
    macToIdxMapping := ∅
    ipToIdxMapping := ∅
    arpMappings := t.arpMappings.map fun entry => { entry with valid := false } }

/-- `arp_table::is_entry_usable` for a slot. -/
def isEntryUsable (t : ArpTable) (now : Nat) (index : UInt32) : Bool × ArpTable :=
  let entry := t.slot index
  if !entry.valid then (false, t)
  else if entry.persistent then (true, t)
  else if t.isStale now entry then
    (false, { t.setSlot index { entry with valid := false } with
      macToIdxMapping := t.macToIdxMapping.erase entry.dlAddress
      ipToIdxMapping := t.ipToIdxMapping.erase entry.nwAddress })
  else (true, t)

/-- A lookup that finds a usable slot is counted in it. -/
def countLookup (t : ArpTable) (now : Nat) (index : UInt32) : ArpTable :=
  t.setSlot index
    { t.slot index with lookupCount := (t.slot index).lookupCount + 1, lastLookup := Timer.reset now }

/-- `arp_table::lookup_mac_for`. -/
def lookupMacFor (t : ArpTable) (now : Nat) (dest : IpAddress) : MacAddress × ArpTable :=
  match t.ipToIdxMapping[dest]? with
  | none => (MacAddress.nil, t)
  | some index =>
      let (usable, t) := t.isEntryUsable now index
      if !usable then (MacAddress.nil, t)
      else ((t.slot index).dlAddress, t.countLookup now index)

/-- `arp_table::lookup_ip_for`. -/
def lookupIpFor (t : ArpTable) (now : Nat) (dest : MacAddress) : IpAddress × ArpTable :=
  match t.macToIdxMapping[dest]? with
  | none => (IpAddress.nil, t)
  | some index =>
      let (usable, t) := t.isEntryUsable now index
      if !usable then (IpAddress.nil, t)
      else ((t.slot index).nwAddress, t.countLookup now index)

/-- `arp_table::remove` for a MAC address. -/
def removeMac (t : ArpTable) (dlAddr : MacAddress) : ArpTable :=
  match t.macToIdxMapping[dlAddr]? with
  | none => t
  | some index =>
      { t.setSlot index { t.slot index with valid := false } with
        ipToIdxMapping := t.ipToIdxMapping.erase (t.slot index).nwAddress
        macToIdxMapping := t.macToIdxMapping.erase dlAddr }

/-- `arp_table::remove` for an IP address. -/
def removeIp (t : ArpTable) (nwAddr : IpAddress) : ArpTable :=
  match t.ipToIdxMapping[nwAddr]? with
  | none => t
  | some index =>
      { t.setSlot index { t.slot index with valid := false } with
        macToIdxMapping := t.macToIdxMapping.erase (t.slot index).dlAddress
        ipToIdxMapping := t.ipToIdxMapping.erase nwAddr }

/--
The loop of `get_free_index`. It goes round the slots below the capacity for ever if
all of them are valid, since no index is the capacity.
-/
def freeIndexLoop (t : ArpTable) : Nat → UInt32 → Option UInt32
  | 0, _ => none
  | fuel + 1, index =>
      if (t.slot index).valid && index != t.maxCapacity then
        t.freeIndexLoop fuel ((index + 1) % t.maxCapacity)
      else some index

/-- `arp_table::get_free_index`. With no capacity the remainder is undefined. -/
def getFreeIndex (t : ArpTable) (fuel : Nat) : Option (Option UInt32) :=
  if t.maxCapacity = 0 then none
  else (t.freeIndexLoop fuel ((t.lastSearchSlot + 1) % t.maxCapacity)).map fun index =>
    if (t.slot index).valid then none else some index

/-- `arp_table::is_mapping_correct`. -/
def isMappingCorrect (t : ArpTable) (dlAddr : MacAddress) (nwAddr : IpAddress) : Bool :=
  match t.macToIdxMapping[dlAddr]?, t.ipToIdxMapping[nwAddr]? with
  | some index₁, some index₂ => index₁ == index₂
  | _, _ => false

/-- Both `insert`s end so: the entry goes to a free slot, and both addresses are mapped to it. -/
def addEntry (t : ArpTable) (fuel : Nat) (entry : ArpEntry) : Option (Bool × ArpTable) :=
  (t.getFreeIndex fuel).map fun
    | none => (false, t)
    | some index =>
        (true, { t.setSlot index entry with
          lastSearchSlot := index
          macToIdxMapping := t.macToIdxMapping.insert entry.dlAddress index
          ipToIdxMapping := t.ipToIdxMapping.insert entry.nwAddress index })

/-- `arp_table::insert`. The addresses that end in 1 are those of gateways. -/
def insert (t : ArpTable) (fuel now : Nat) (dlAddr : MacAddress) (nwAddr : IpAddress) :
    Option (Bool × ArpTable) :=
  if dlAddr.isNil || nwAddr.isNil then some (false, t)
  else if nwAddr.octets.get (Fin.last 3) == 1 then
    if t.ipToIdxMapping.contains nwAddr then some (true, t)
    else t.addEntry fuel (ArpEntry.learned now dlAddr nwAddr)
  else if t.isMappingCorrect dlAddr nwAddr then some (true, t)
  else ((t.removeMac dlAddr).removeIp nwAddr).addEntry fuel (ArpEntry.learned now dlAddr nwAddr)

/-- `arp_table::insert_persistent`. -/
def insertPersistent (t : ArpTable) (fuel now : Nat) (dlAddr : MacAddress) (nwAddr : IpAddress) :
    Option (Bool × ArpTable) :=
  if dlAddr.isNil || dlAddr.isBroadcast || nwAddr.isNil || nwAddr.isBroadcast then some (false, t)
  else ((t.removeMac dlAddr).removeIp nwAddr).addEntry fuel
    { ArpEntry.learned now dlAddr nwAddr with persistent := true }

/-- The operations on a table, with the readings of the clock that they make. -/
inductive Input where
  | insert (fuel now : Nat) (dlAddr : MacAddress) (nwAddr : IpAddress)
  | insertPersistent (fuel now : Nat) (dlAddr : MacAddress) (nwAddr : IpAddress)
  | removeMac (dlAddr : MacAddress)
  | removeIp (nwAddr : IpAddress)
  | lookupMacFor (now : Nat) (dest : IpAddress)
  | lookupIpFor (now : Nat) (dest : MacAddress)
  | clear
  | clearAll
  | setMaxCapacity (clock : MacAddress → Nat) (now : Nat) (max : UInt32)
  | setTimeout (clock : MacAddress → Nat) (timeout : UInt32)
  | doGarbageCollection (clock : MacAddress → Nat)

/-- What an operation leaves of the table, if it returns. -/
def step (t : ArpTable) : Input → Option ArpTable
  | .insert fuel now dlAddr nwAddr => (t.insert fuel now dlAddr nwAddr).map Prod.snd
  | .insertPersistent fuel now dlAddr nwAddr => (t.insertPersistent fuel now dlAddr nwAddr).map Prod.snd
  | .removeMac dlAddr => some (t.removeMac dlAddr)
  | .removeIp nwAddr => some (t.removeIp nwAddr)
  | .lookupMacFor now dest => some (t.lookupMacFor now dest).2
  | .lookupIpFor now dest => some (t.lookupIpFor now dest).2
  | .clear => some t.clear
  | .clearAll => some t.clearAll
  | .setMaxCapacity clock now max => some (t.setMaxCapacity clock now max)
  | .setTimeout clock timeout => some (t.setTimeout clock timeout)
  | .doGarbageCollection clock => some (t.doGarbageCollection clock)

end ArpTable

end IronStack
