import IronStack.Flow.Service

/-!
# The flow service at work

`flow_service` shared by the threads that call it: callers that block in the
middle of a call, the HAL delivering completions, statistics replies and
flow-removed messages. Every input is one atomic step, so a run is one
interleaving of the threads.

The last three fields of the world are ghosts. They record what the state of an
entry is supposed to follow from: which transaction was to install it, whether a
refresh reported it since, and which transactions an `add_flow` call saw
acknowledged before its wait was over. No step reads them.
-/

namespace IronStack

/-- What a blocked call does when its wait is over. -/
inductive BlockedCall where
  /-- `add_flow`, for an entry of the table with this index. -/
  | addFlow (table : Nat)
  | clearAllFlows
  | refreshFlows
deriving DecidableEq, Repr

/-- A call that waits on the `blocking_hal_callback` of a transaction. -/
structure Waiter where
  transaction : Nat
  /-- Negative for `wait`, positive for `timed_wait`. -/
  timeoutMs : Int32
  call : BlockedCall
deriving DecidableEq, Repr

/-- The service, the clock, and what the HAL and the callers are in the middle of. -/
structure FlowWorld where
  /-- The `steady_clock`, in nanoseconds. -/
  now : Nat
  svc : FlowService
  /-- The transactions completed so far, each with the type of its reply if there was one. -/
  completed : List (Nat × Option OfpType)
  waiters : List Waiter
  /-- Ghost: the transaction sent for the entry under a cookie of a table. -/
  installer : Nat → UInt64 → Option Nat
  /-- Ghost: a refresh reported the entry since it was added. -/
  reported : Nat → UInt64 → Bool
  /-- Ghost: an `add_flow` call saw the transaction acknowledged without an error, in time. -/
  acknowledged : Nat → Bool

/-- What can happen next. -/
inductive FlowInput where
  | tick (ns : Nat)
  | init
  | init2
  | init2Finish
  | shutdown
  | addFlow (a : FlowService.AddFlowArgs)
  | addFlowAuto (random : UInt64) (a : FlowService.AddFlowAutoArgs)
  | removeFlow (cookieId : UInt64)
  | clearAllFlows (timeoutMs : Int32) (keepStaticFlows : Bool)
  | refreshFlows (timeoutMs : Int32)
  | statsReply (flowStats : List FlowDescriptionAndStats) (moreToFollow : Bool)
  | flowRemoved (cookie : UInt64)
  /-- The HAL completes a transaction, with the type of its reply if there was one. -/
  | complete (transaction : Nat) (reply : Option OfpType)
  /-- The wait on a transaction is over. -/
  | resume (transaction : Nat) (status : Bool)

namespace FlowWorld

/-- The controller before anything happened, with these tables attached, all empty. -/
def boot (tables : List FlowTable) : FlowWorld where
  now := 0
  svc :=
    { initialized := false
      initializing := false
      flowTables := tables.map fun t => { t with flows := ∅ }
      pendingFlows := []
      nextAvailableCookieId := 1
      enqueued := [] }
  completed := []
  waiters := []
  installer := fun _ _ => none
  reported := fun _ _ => false
  acknowledged := fun _ => false

/-- Change the ghosts of one entry: it was just added, and this transaction is to install it. -/
def recordInstall (w : FlowWorld) (index : Nat) (cookie : UInt64) (transaction : Nat) : FlowWorld :=
  { w with
    installer := fun i c => if i = index ∧ c = cookie then some transaction else w.installer i c
    reported := fun i c => if i = index ∧ c = cookie then false else w.reported i c }

/-- Put a call to sleep. -/
def sleep (w : FlowWorld) (transaction : Nat) (timeoutMs : Int32) (call : BlockedCall) :
    FlowWorld :=
  { w with waiters := w.waiters ++ [⟨transaction, timeoutMs, call⟩] }

/-- `add_flow`, on a service that may just have drawn the cookie. -/
def callAddFlow (w : FlowWorld) (a : FlowService.AddFlowArgs) : Option FlowWorld :=
  match w.svc.addFlow w.now a with
  | none => none
  | some (result, svc) =>
      let index := (w.svc.flowTables.findIdx? (·.checkTableFit a.description)).getD 0
      let w' :=
        if svc.enqueued.length = w.svc.enqueued.length then { w with svc := svc }
        else { w with svc := svc }.recordInstall index a.description.cookie w.svc.enqueued.length
      match result with
      | .returned _ => some w'
      | .waiting transaction table _ =>
          some (w'.sleep transaction a.installTimeoutMs (.addFlow table))

/-- `clear_all_flows`. -/
def clear (w : FlowWorld) (timeoutMs : Int32) (keepStaticFlows : Bool) : FlowWorld :=
  match w.svc.clearAllFlows w.now timeoutMs keepStaticFlows with
  | (.returned _, svc) => { w with svc := svc }
  | (.waiting transaction, svc) =>
      { w with svc := svc }.sleep transaction timeoutMs .clearAllFlows

/-- `refresh_flows`. -/
def refresh (w : FlowWorld) (timeoutMs : Int32) : FlowWorld :=
  match w.svc.refreshFlows timeoutMs with
  | (issued, svc) =>
      if issued && timeoutMs ≠ 0 then
        { w with svc := svc }.sleep w.svc.enqueued.length timeoutMs .refreshFlows
      else { w with svc := svc }

/-- A statistics reply. Only its last message refreshes the tables. -/
def update (w : FlowWorld) (flowStats : List FlowDescriptionAndStats) (moreToFollow : Bool) :
    Option FlowWorld :=
  (w.svc.flowUpdateHandler w.now flowStats moreToFollow).map fun svc =>
    { w with
      svc := svc
      reported :=
        if moreToFollow then w.reported
        else fun i c =>
          w.reported i c || (w.svc.pendingFlows ++ flowStats).any fun f => f.cookie == c }

/-- The type of the reply a transaction completed with; `none` if it did not complete yet. -/
def reply? (w : FlowWorld) (transaction : Nat) : Option (Option OfpType) :=
  w.completed.lookup transaction

/--
The HAL completes a transaction: it calls back, and forgets the transaction. Only
a transaction that asked for it is completed.
-/
def complete (w : FlowWorld) (transaction : Nat) (reply : Option OfpType) : Option FlowWorld :=
  match w.svc.enqueued[transaction]?, w.reply? transaction with
  | some tr, none =>
      let w' := { w with completed := (transaction, reply) :: w.completed }
      match tr.callback with
      | none => none
      | some .blocking => some w'
      | some (.table index) =>
          match w.svc.flowTables[index]? with
          | none => none
          | some table =>
              (table.halCallback w.now tr.request reply (reply != some .error)).map fun t =>
                { w' with svc := w.svc.setTable index t }
  | _, _ => none

/-- Was the transaction acknowledged, and not with an error? -/
def succeeded (w : FlowWorld) (transaction : Nat) : Bool :=
  match w.reply? transaction with
  | some reply => reply != some .error
  | none => false

/--
A wait ends with `status`. `wait` only ends once the transaction completed;
`timed_wait` may end by a wakeup or by the timeout at any time.
-/
def resume (w : FlowWorld) (transaction : Nat) (status : Bool) : Option FlowWorld :=
  match w.waiters.find? (·.transaction = transaction), w.svc.enqueued[transaction]? with
  | some waiter, some tr =>
      if waiter.timeoutMs < 0 ∧ ¬ (status = true ∧ (w.reply? transaction).isSome = true) then none
      else
        let w' := { w with waiters := w.waiters.filter (·.transaction ≠ transaction) }
        match waiter.call with
        | .addFlow index =>
            (w.svc.addFlowFinish w.now tr.request index status).map fun svc =>
              { w' with
                svc := svc
                acknowledged := fun tid =>
                  w.acknowledged tid ||
                    (tid == transaction && status && w.succeeded transaction) }
        | .clearAllFlows => some { w' with svc := w.svc.clearAllFlowsFinish status }
        | .refreshFlows => some w'
  | _, _ => none

/-- One step of the world; `none` where the input cannot happen, or the controller aborts. -/
def step (w : FlowWorld) : FlowInput → Option FlowWorld
  | .tick ns => some { w with now := w.now + ns }
  | .init => w.svc.init.map fun svc => { w with svc := svc }
  | .init2 => some { w with svc := w.svc.init2 }
  | .init2Finish => some { w with svc := w.svc.init2Finish }
  | .shutdown => w.svc.shutdown.map fun svc => { w with svc := svc }
  | .addFlow a => w.callAddFlow a
  | .addFlowAuto random a =>
      let (cookie, svc) := w.svc.getNextAvailableCookieId random
      { w with svc := svc }.callAddFlow (a.withCookie cookie)
  | .removeFlow cookieId => some { w with svc := (w.svc.removeFlow w.now cookieId).2 }
  | .clearAllFlows timeoutMs keepStaticFlows => some (w.clear timeoutMs keepStaticFlows)
  | .refreshFlows timeoutMs => some (w.refresh timeoutMs)
  | .statsReply flowStats moreToFollow => w.update flowStats moreToFollow
  | .flowRemoved cookie => some { w with svc := w.svc.flowRemovedHandler w.now cookie }
  | .complete transaction reply => w.complete transaction reply
  | .resume transaction status => w.resume transaction status

end FlowWorld

end IronStack
