import IronStack.Flow.Table
import IronStack.OpenFlow.Commands

/-!
# `flow_service`

The service owns the attached tables, decides which of them a flow goes to, and
hands flow-mods to the controller. A call that waits for the switch is cut in two
where it blocks: the first half ends with the transaction enqueued, the second
half is what it does when the wait returns.
-/

namespace IronStack

open Std Lib

/-- `flow_service`, with the static cookie counter of `flow_table`. -/
structure FlowService where
  initialized : Bool
  initializing : Bool
  flowTables : List FlowTable
  /-- Flows of statistics replies still being downloaded. -/
  pendingFlows : List FlowDescriptionAndStats
  /-- `flow_table::next_available_cookie_id`. -/
  nextAvailableCookieId : UInt64
  /-- Everything handed to `controller->enqueue_transaction`, oldest first. -/
  enqueued : List FlowTransaction

namespace FlowService

def defaultPriority : UInt16 := 100
def defaultIdleTimeout : UInt16 := 0
def defaultHardTimeout : UInt16 := 0

/-- `controller->enqueue_transaction`. A transaction is known by its place in the list. -/
def enqueueTransaction (svc : FlowService) (transaction : FlowTransaction) : FlowService :=
  { svc with enqueued := svc.enqueued ++ [transaction] }

/-- Replace the attached table with this index. -/
def setTable (svc : FlowService) (index : Nat) (t : FlowTable) : FlowService :=
  { svc with flowTables := svc.flowTables.set index t }

/-! ## Starting up -/

/-- `flow_service::init`; `none` is the abort without tables. -/
def init (svc : FlowService) : Option FlowService :=
  if svc.initialized || svc.initializing then some svc
  else if svc.flowTables.isEmpty then none
  else some { svc with initializing := true }

/-- `flow_service::init2` up to its barrier: ask for all flows. -/
def init2 (svc : FlowService) : FlowService :=
  svc.enqueueTransaction (.unacknowledged .statsRequestFlowStats)

/-- `flow_service::init2` once the barrier came back. -/
def init2Finish (svc : FlowService) : FlowService :=
  { svc with initialized := true, initializing := false }

/-- `flow_service::shutdown`; `none` while it spins on an initialization under way. -/
def shutdown (svc : FlowService) : Option FlowService :=
  if !svc.initialized && !svc.initializing then some svc
  else if !svc.initialized && svc.initializing then none
  else some { svc with initialized := false }

/-! ## Cookies -/

/-- `flow_table::set_next_available_cookie_id`. -/
def setNextAvailableCookieId (svc : FlowService) (nextCookie : UInt64) : FlowService :=
  { svc with nextAvailableCookieId := nextCookie }

/--
`flow_table::get_next_available_cookie_id`: the cookie issued, and the service
after. When the counter stands at the all-ones value a number `random` is read
from `/dev/random` (or from `rand`), and becomes both the result and the counter.
-/
def getNextAvailableCookieId (svc : FlowService) (random : UInt64) : UInt64 × FlowService :=
  if svc.nextAvailableCookieId = noCookie then
    (random, svc.setNextAvailableCookieId random)
  else
    (svc.nextAvailableCookieId, svc.setNextAvailableCookieId (svc.nextAvailableCookieId + 1))

/-- The loop of `flow_update_handler` that looks for the next free cookie. -/
def nextFreeId (flows : List FlowDescriptionAndStats) : UInt64 :=
  flows.foldl (fun next f => if f.cookie ≥ next then f.cookie + 1 else next) 1

/-! ## Adding and removing flows -/

/-- The arguments of `add_flow`. -/
structure AddFlowArgs where
  description : FlowDescription
  reason : String := ""
  idleTimeout : UInt16 := 0
  hardTimeout : UInt16 := 0
  isStatic : Bool := false
  installTimeoutMs : Int32 := -1
deriving DecidableEq

/-- How the first half of `add_flow` ends. -/
inductive AddFlowResult where
  | returned (cookie : UInt64)
  /-- Blocked on its transaction, for the entry under `cookie` of the table with this index. -/
  | waiting (transaction table : Nat) (cookie : UInt64)
deriving DecidableEq, Repr

/-- The entry `add_flow` synthesizes. -/
def newEntry (now : Nat) (a : AddFlowArgs) : FlowEntry where
  state := .pendingInstallation
  idleTimeout := if a.isStatic then 0 else a.idleTimeout.toUInt32
  hardTimeout := if a.isStatic then 0 else a.hardTimeout.toUInt32
  lastUpdated := Timer.reset now
  installReason := a.reason
  description := a.description
  isUpdated := false

@[simp] theorem newEntry_description (now : Nat) (a : AddFlowArgs) :
    (newEntry now a).description = a.description := rfl

@[simp] theorem newEntry_state (now : Nat) (a : AddFlowArgs) :
    (newEntry now a).state = .pendingInstallation := rfl

/-- The flow-mod `add_flow` sends. -/
def addRequest (a : AddFlowArgs) : ModifyFlow where
  flowDescription := a.description
  command := .modifyStrict
  idleTimeout := a.idleTimeout
  hardTimeout := a.hardTimeout
  bufferId := 0xffffffff
  useOutPort := false
  flagSendFlowRemovalMessage := true
  flagCheckOverlap := true
  flagEmergencyFlow := false

/-- "Check if the flow is already alive and well": the cookie under which `add_flow` finds it. -/
def liveCookie (t : FlowTable) (description : FlowDescription) : Option UInt64 :=
  let cookie := t.getCookieForFlow description
  if cookie ≠ noCookie then
    match t.getFlowEntryByCookie cookie with
    | some e => if e.state.isStanding then some cookie else none
    | none => none
  else none

/--
`assign_and_serialize`, which the constructor of a `hal_transaction` calls: what the
request is on the wire, under the xid it is given.
-/
def assignAndSerialize (request : ModifyFlow) (xid : UInt32) : Read Bytes :=
  OfMessageModifyFlow.serialize { request with version := 1, msgSize := 0, xid := xid }

/--
Make the transaction for a new entry of the table with this index, enqueue it, and
perhaps wait; `none` where the flow-mod cannot be serialized, which does not depend on
the xid.
-/
def sendAddRequest (svc : FlowService) (index : Nat) (a : AddFlowArgs) :
    Option (AddFlowResult × FlowService) :=
  match assignAndSerialize (addRequest a) 0 with
  | .error _ => none
  | .ok _ =>
      if a.installTimeoutMs ≠ 0 then
        some (.waiting svc.enqueued.length index a.description.cookie,
          svc.enqueueTransaction (.acknowledged (.flowMod (addRequest a)) .blocking))
      else
        some (.returned a.description.cookie,
          svc.enqueueTransaction (.unacknowledged (.flowMod (addRequest a))))

/--
`flow_service::add_flow` up to its wait; `none` is the abort in `add_entry`, or the one
behind it, of a flow-mod that cannot be serialized.
-/
def addFlow (now : Nat) (svc : FlowService) (a : AddFlowArgs) :
    Option (AddFlowResult × FlowService) :=
  if !svc.initialized then
    -- `return false`
    some (.returned 0, svc)
  else
    match svc.flowTables.findIdx? (·.checkTableFit a.description) with
    | none => some (.returned noCookie, svc)
    | some index =>
        match svc.flowTables[index]? with
        | none => none
        | some table =>
            match liveCookie table a.description with
            | some cookie => some (.returned cookie, svc)
            | none =>
                match table.addEntry (newEntry now a) with
                | none => none
                | some (false, _) => some (.returned noCookie, svc)
                | some (true, table') => sendAddRequest (svc.setTable index table') index a

/--
The end of `add_flow`, when the wait has returned `status`: the table's
`hal_callback` is called with a null reply.
-/
def addFlowFinish (now : Nat) (svc : FlowService) (request : FlowRequest) (index : Nat)
    (status : Bool) : Option FlowService :=
  match svc.flowTables[index]? with
  | none => none
  | some table => (table.halCallback now request none status).map (svc.setTable index)

/-- The arguments of `add_flow_auto`. -/
structure AddFlowAutoArgs where
  criteria : OfMatch
  actionList : OpenflowActionList
  reason : String := ""
  priority : UInt16 := defaultPriority
  isStatic : Bool := false
  installTimeoutMs : Int32 := -1
deriving DecidableEq

/-- What `add_flow_auto` passes on to `add_flow`, with the cookie it drew. -/
def AddFlowAutoArgs.withCookie (a : AddFlowAutoArgs) (cookie : UInt64) : AddFlowArgs where
  description := ⟨a.criteria, a.actionList, cookie, a.priority⟩
  reason := a.reason
  idleTimeout := defaultIdleTimeout
  hardTimeout := defaultHardTimeout
  isStatic := a.isStatic
  installTimeoutMs := a.installTimeoutMs

/-- `flow_service::add_flow_auto` up to the wait. -/
def addFlowAuto (now : Nat) (svc : FlowService) (random : UInt64) (a : AddFlowAutoArgs) :
    Option (AddFlowResult × FlowService) :=
  let (cookie, svc') := svc.getNextAvailableCookieId random
  svc'.addFlow now (a.withCookie cookie)

/-- The flow-mod that takes a flow off the switch, by criteria and priority. -/
def deleteStrictRequest (description : FlowDescription) : ModifyFlow where
  flowDescription := description
  command := .deleteStrict
  useOutPort := false

/--
The search of `remove_flow`: the first table that holds the cookie and lets it be
marked, with the entry as it was before.
-/
def markForRemoval (now : Nat) (cookieId : UInt64) :
    List FlowTable → Option (Nat × FlowEntry × FlowTable)
  | [] => none
  | t :: ts =>
      match t.getFlowEntryByCookie cookieId, t.markEntryAsPendingDeletion now cookieId with
      | some e, (true, t') => some (0, e, t')
      | _, _ => (markForRemoval now cookieId ts).map fun r => (r.1 + 1, r.2)

/--
`flow_service::remove_flow`. The actions of an entry have been on the wire before, to the
switch or from it, so the flow-mod for it can be serialized.
-/
def removeFlow (now : Nat) (svc : FlowService) (cookieId : UInt64) : UInt64 × FlowService :=
  if !svc.initialized then (noCookie, svc)
  else
    match markForRemoval now cookieId svc.flowTables with
    | none => (noCookie, svc)
    | some (index, e, t') =>
        (cookieId, (svc.setTable index t').enqueueTransaction
          (.acknowledged (.flowMod (deleteStrictRequest e.description)) (.table index)))

/-- `flow_service::remove_flow_strict`. -/
def removeFlowStrict (now : Nat) (svc : FlowService) (flow : FlowDescription) :
    UInt64 × FlowService :=
  svc.removeFlow now flow.cookie

/-- `flow_service::does_flow_exist`. -/
def doesFlowExist (svc : FlowService) (cookieId : UInt64) : UInt64 :=
  if !svc.initialized then noCookie
  else if svc.flowTables.any (·.isCookieUsed cookieId) then cookieId
  else noCookie

/-- `flow_service::does_flow_exist_strict`. -/
def doesFlowExistStrict (svc : FlowService) (flow : FlowDescription) : UInt64 :=
  if !svc.initialized then noCookie
  else
    match svc.flowTables.find? (·.getCookieForFlow flow != noCookie) with
    | some t => t.getCookieForFlow flow
    | none => noCookie

/-- `flow_service::get_flows`. -/
def getFlows (svc : FlowService) : List FlowEntry :=
  if !svc.initialized then [] else svc.flowTables.flatMap (·.getAllFlows true)

/-! ## Clearing all flows -/

/-- How the first half of `clear_all_flows` ends. -/
inductive ClearResult where
  | returned (status : Bool)
  | waiting (transaction : Nat)
deriving DecidableEq, Repr

/-- The generic flow-mod that takes every flow off the switch. -/
def deleteAllRequest : ModifyFlow where
  flowDescription := ⟨OfMatch.clear.wildcardAll, OpenflowActionList.clear, 0, 0⟩
  command := .delete
  useOutPort := false

/-- The strict delete of one flow, without its actions. -/
def clearRequest (description : FlowDescription) : ModifyFlow :=
  deleteStrictRequest { description with actionList := OpenflowActionList.clear }

/-- Mark the flows of all attached tables; returns the flows marked, and the service. -/
def markAllTables (now : Nat) (svc : FlowService) (includeStatic : Bool) :
    List FlowEntry × FlowService :=
  (svc.flowTables.flatMap fun t => (t.markAllFlowsAsPendingDelete now includeStatic).1,
    { svc with
      flowTables := svc.flowTables.map fun t => (t.markAllFlowsAsPendingDelete now includeStatic).2 })

/-- Send the last request of `clear_all_flows`, and perhaps wait for it. -/
def sendLastClear (svc : FlowService) (timeoutMs : Int32) (request : ModifyFlow) :
    ClearResult × FlowService :=
  if timeoutMs ≠ 0 then
    (.waiting svc.enqueued.length,
      svc.enqueueTransaction (.acknowledged (.flowMod request) .blocking))
  else
    (.returned true, svc.enqueueTransaction (.unacknowledged (.flowMod request)))

/-- `flow_service::clear_all_flows` up to its wait. -/
def clearAllFlows (now : Nat) (svc : FlowService) (timeoutMs : Int32) (keepStaticFlows : Bool) :
    ClearResult × FlowService :=
  if !svc.initialized then (.returned false, svc)
  else if keepStaticFlows then
    let (flowsToRemove, svc) := svc.markAllTables now false
    match flowsToRemove.getLast? with
    | none => (.returned true, svc)
    | some last =>
        -- all but the last flow are removed without waiting
        let svc := flowsToRemove.dropLast.foldl (fun svc e =>
          svc.enqueueTransaction (.unacknowledged (.flowMod (clearRequest e.description)))) svc
        svc.sendLastClear timeoutMs (clearRequest last.description)
  else
    let (_, svc) := svc.markAllTables now true
    svc.sendLastClear timeoutMs deleteAllRequest

/-- The end of `clear_all_flows`, when the wait has returned `status`. -/
def clearAllFlowsFinish (svc : FlowService) (status : Bool) : FlowService :=
  if status then { svc with flowTables := svc.flowTables.map (·.clearTable false) } else svc

/--
`flow_service::clear_all_flows` from call to return, when nothing else runs while
it waits: `status` is what the wait returns.
-/
def clearAllFlowsCall (now : Nat) (svc : FlowService) (timeoutMs : Int32) (keepStaticFlows : Bool)
    (status : Bool) : Bool × FlowService :=
  match svc.clearAllFlows now timeoutMs keepStaticFlows with
  | (.returned result, svc') => (result, svc')
  | (.waiting _, svc') => (status, svc'.clearAllFlowsFinish status)

/-! ## Refreshing -/

/-- `flow_service::refresh_flows` up to its wait: was the request issued, and for whom? -/
def refreshFlows (svc : FlowService) (timeoutMs : Int32) : Bool × FlowService :=
  if !svc.initialized then (false, svc)
  else if timeoutMs ≠ 0 then
    (true, svc.enqueueTransaction (.acknowledged .statsRequestFlowStats .blocking))
  else (true, svc.enqueueTransaction (.unacknowledged .statsRequestFlowStats))

/--
Offer the reported flows to one table after the other: what no table took, the
tables, and the number of flows installed (a `uint32_t`).
-/
def updateTables (now : Nat) :
    List FlowTable → List FlowDescriptionAndStats →
      List FlowDescriptionAndStats × List FlowTable × UInt32
  | [], flows => (flows, [], 0)
  | t :: ts, flows =>
      let (rest, installed, t') := t.updateEntries now flows
      let (rest', ts', total) := updateTables now ts rest
      (rest', t' :: ts', installed + total)

/--
`flow_service::flow_update_handler` for a statistics reply; `none` is the abort on
a table install disparity.
-/
def flowUpdateHandler (now : Nat) (svc : FlowService) (flowStats : List FlowDescriptionAndStats)
    (moreToFollow : Bool) : Option FlowService :=
  let pending := svc.pendingFlows ++ flowStats
  if moreToFollow then some { svc with pendingFlows := pending }
  else
    let svc :=
      if !svc.initialized && svc.initializing then
        svc.setNextAvailableCookieId (nextFreeId pending)
      else svc
    let (_, tables, totalFlowsInstalled) := updateTables now svc.flowTables pending
    if totalFlowsInstalled ≠ UInt32.ofNat pending.length then none
    else some { svc with flowTables := tables, pendingFlows := [] }

/-- `flow_service::flow_update_handler` for a flow-removed message. -/
def flowRemovedHandler (now : Nat) (svc : FlowService) (cookie : UInt64) : FlowService :=
  { svc with
    flowTables := svc.flowTables.map fun t =>
      if t.isCookieUsed cookie then (t.markEntryAsDeleted now cookie).2 else t }

end FlowService

end IronStack
