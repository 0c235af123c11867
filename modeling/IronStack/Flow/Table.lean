import IronStack.Hal.Transaction

/-!
# `flow_table`

The controller's copy of one table of the switch: a map from cookies to entries.
The tables are storage only, they never talk to the switch. Each operation here
is one critical section of `table_lock`; where the code reads or restarts a timer
the operation takes the `steady_clock` reading `now`.
-/

namespace IronStack

open Std

/-- `map<uint64_t, openflow_flow_entry>`. -/
abbrev FlowMap := ExtTreeMap UInt64 FlowEntry

/-- `flow_table`, with the virtual `check_table_fit` of the derived class. -/
structure FlowTable where
  checkFit : OfMatch → OpenflowActionList → Bool
  maxCapacity : UInt32
  flows : FlowMap

namespace FlowTable

/-- `DELETED_ENTRY_TIMEOUT`, in milliseconds. -/
def deletedEntryTimeout : Int := 5000

/-- `flow_table::clear_table`. -/
def clearTable (t : FlowTable) (includeStatic : Bool) : FlowTable :=
  if !includeStatic then
    { t with flows := ∅ }
  else
    { t with flows := t.flows.filter fun _ e => e.isStatic }

/-- `flow_table::check_table_fit`: criteria and actions only. -/
def checkTableFit (t : FlowTable) (flow : FlowDescription) : Bool :=
  t.checkFit flow.criteria flow.actionList

/-- `flow_table::is_cookie_used`. -/
def isCookieUsed (t : FlowTable) (cookie : UInt64) : Bool :=
  t.flows.contains cookie

/-- `flow_table::get_flow_entry_by_cookie`. -/
def getFlowEntryByCookie (t : FlowTable) (cookie : UInt64) : Option FlowEntry :=
  t.flows[cookie]?

/-- One turn of the loop of `get_cookie_for_flow`: `acc` is `(found, result)`. -/
def latestCookie (flow : FlowDescription) (acc : Bool × UInt64) (e : FlowEntry) : Bool × UInt64 :=
  if e.description == flow then
    if !acc.1 then (true, e.description.cookie)
    else if e.description.cookie > acc.2 then (acc.1, e.description.cookie)
    else acc
  else acc

/-- `flow_table::get_cookie_for_flow`: the largest cookie of an entry matching the description. -/
def getCookieForFlow (t : FlowTable) (flow : FlowDescription) : UInt64 :=
  (t.flows.toList.foldl (fun acc p => latestCookie flow acc p.2) (false, noCookie)).2

/-- `flow_table::add_entry`; `none` is the abort on an unassigned cookie. -/
def addEntry (t : FlowTable) (entry : FlowEntry) : Option (Bool × FlowTable) :=
  if entry.description.cookie = 0 ∨ entry.description.cookie = noCookie then none
  else if t.flows.size ≥ t.maxCapacity.toNat then some (false, t)
  else some (true, { t with flows := t.flows.insert entry.description.cookie entry })

/-! ## Refreshing -/

/-- What a refresh does to an entry whose cookie the switch reported. -/
def refreshEntry (now : Nat) (e : FlowEntry) : FlowEntry :=
  match e.state with
  | .unknown | .pendingInstallation => { e.setState now .active with isUpdated := true }
  | .active | .pendingDeletion | .deleted => { e with isUpdated := true }

/-- The entry a refresh makes for a reported flow that was never in the table. -/
def inheritedEntry (now : Nat) (f : FlowDescriptionAndStats) : FlowEntry where
  state := .active
  idleTimeout := f.durationToIdleTimeout.toUInt32
  hardTimeout := f.durationToHardTimeout.toUInt32
  lastUpdated := Timer.reset now
  installReason := "inherited"
  description := f.flowDescription
  isUpdated := true

/-- The body of the first loop of `update_entries`. -/
def absorb (now : Nat) (flows : FlowMap) (f : FlowDescriptionAndStats) : FlowMap :=
  match flows[f.cookie]? with
  | some e => flows.insert f.cookie (refreshEntry now e)
  | none => flows.insert f.cookie (inheritedEntry now f)

/--
The first loop of `update_entries`: absorb reported flows off the front of the
list, up to the first one that does not fit. Returns what is left of the list,
the entries, and the number absorbed.
-/
def absorbWhile (now : Nat) (fits : FlowDescription → Bool) :
    List FlowDescriptionAndStats → FlowMap → UInt32 →
      List FlowDescriptionAndStats × FlowMap × UInt32
  | [], flows, result => ([], flows, result)
  | f :: fs, flows, result =>
      if fits f.flowDescription then absorbWhile now fits fs (absorb now flows f) (result + 1)
      else (f :: fs, flows, result)

/-- The body of the second loop of `update_entries`; `none` erases the entry. -/
def sweepEntry (now : Nat) (e : FlowEntry) : Option FlowEntry :=
  if !e.isUpdated then
    if e.state = .pendingDeletion then some (e.setState now .deleted)
    else if e.state = .deleted ∧ e.lastUpdated.getTimeElapsedMs now > deletedEntryTimeout then none
    -- not designated for removal, but it disappeared
    else none
  else some { e with isUpdated := false }

/--
`flow_table::update_entries`: what is left of the reported list, the number of
flows installed, and the table.
-/
def updateEntries (now : Nat) (t : FlowTable) (updatedFlows : List FlowDescriptionAndStats) :
    List FlowDescriptionAndStats × UInt32 × FlowTable :=
  let (rest, flows, result) := absorbWhile now t.checkTableFit updatedFlows t.flows 0
  (rest, result, { t with flows := flows.filterMap fun _ e => sweepEntry now e })

/-! ## The life cycle -/

/-- `flow_table::mark_entry_as_installed`. -/
def markEntryAsInstalled (now : Nat) (t : FlowTable) (cookieId : UInt64) : Bool × FlowTable :=
  match t.flows[cookieId]? with
  | none => (false, t)
  | some e =>
      match e.state with
      | .pendingInstallation =>
          (true, { t with flows := t.flows.insert cookieId (e.setState now .active) })
      | .active | .pendingDeletion => (true, t)
      | .unknown | .deleted => (false, t)

/-- `flow_table::mark_entry_as_pending_deletion`. -/
def markEntryAsPendingDeletion (now : Nat) (t : FlowTable) (cookieId : UInt64) :
    Bool × FlowTable :=
  match t.flows[cookieId]? with
  | none => (false, t)
  | some e =>
      if e.state = .deleted then (false, t)
      else (true, { t with flows := t.flows.insert cookieId (e.setState now .pendingDeletion) })

/-- `flow_table::mark_entry_as_deleted`. -/
def markEntryAsDeleted (now : Nat) (t : FlowTable) (cookieId : UInt64) : Bool × FlowTable :=
  match t.flows[cookieId]? with
  | none => (false, t)
  | some e => (true, { t with flows := t.flows.insert cookieId (e.setState now .deleted) })

/-- Does `mark_all_flows_as_pending_delete` mark this entry? -/
def slatedForDeletion (includeStatic : Bool) (e : FlowEntry) : Bool :=
  !(!includeStatic && e.isStatic) && e.state.isStanding

/-- `flow_table::mark_all_flows_as_pending_delete`: the entries it marked, and the table. -/
def markAllFlowsAsPendingDelete (now : Nat) (t : FlowTable) (includeStatic : Bool) :
    List FlowEntry × FlowTable :=
  (t.flows.toList.filterMap fun p =>
      if slatedForDeletion includeStatic p.2 then some (p.2.setState now .pendingDeletion)
      else none,
    { t with
      flows := t.flows.map fun _ e =>
        if slatedForDeletion includeStatic e then e.setState now .pendingDeletion else e })

/-- `flow_table::get_all_flows`. -/
def getAllFlows (t : FlowTable) (includeStatic : Bool) : List FlowEntry :=
  (t.flows.toList.map Prod.snd).filter fun e => includeStatic || !e.isStatic

/--
`flow_table::hal_callback`: a transaction of this table completed, with the
reply's type if there was one. The status is not looked at. `none` is the abort
on a request that is not a flow-mod.
-/
def halCallback (now : Nat) (t : FlowTable) (request : FlowRequest) (reply : Option OfpType)
    (_status : Bool) : Option FlowTable :=
  match request with
  | .flowMod msg =>
      match msg.command with
      | .add | .modify | .modifyStrict =>
          match reply with
          | none => some (t.markEntryAsInstalled now msg.flowDescription.cookie).2
          | some .error => some (t.markEntryAsDeleted now msg.flowDescription.cookie).2
          -- unexpected reply type: only logged
          | some _ => some t
      | .delete | .deleteStrict =>
          match reply with
          | none | some .flowRemoved =>
              some (t.markEntryAsDeleted now msg.flowDescription.cookie).2
          | some _ => some t
  | .statsRequestFlowStats => none

end FlowTable

/-! ## The Dell tables -/

/--
`dell_s48xx_l2_table::check_table_fit`: matched on VLAN and destination address
alone, with a single action that outputs to a port.
-/
def dellS48xxL2CheckTableFit (criteria : OfMatch) (actionList : OpenflowActionList) : Bool :=
  if criteria.wildcardInPort
      && criteria.wildcardEthernetSrc
      && !criteria.wildcardEthernetDest
      && !criteria.ethernetDest.isBroadcast
      && !criteria.wildcardVlanId
      && criteria.wildcardVlanPcp
      && criteria.wildcardEthernetFrameType
      && criteria.wildcardIpTypeOfService
      && criteria.wildcardIpProtocol
      && criteria.wildcardIpSrcLsbCount == 32
      && criteria.wildcardIpDestLsbCount == 32
      && criteria.wildcardTcpudpSrcPort
      && criteria.wildcardTcpudpDestPort then
    match actionList.actions with
    | [.outputToPort _ _] => true
    | _ => false
  else
    false

/-- `dell_s48xx_acl_table::check_table_fit` accepts all flows. -/
def dellS48xxAclCheckTableFit (_criteria : OfMatch) (_actionList : OpenflowActionList) : Bool :=
  true

/-- `dell_s48xx_l2_table`. -/
def dellS48xxL2Table : FlowTable := ⟨dellS48xxL2CheckTableFit, 48000, ∅⟩

/-- `dell_s48xx_acl_table`. -/
def dellS48xxAclTable : FlowTable := ⟨dellS48xxAclCheckTableFit, 100, ∅⟩

end IronStack
