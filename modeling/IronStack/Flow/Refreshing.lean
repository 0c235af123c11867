import IronStack.Flow.System
import IronStack.Hal.System

/-!
# A refresh, from the call to the tables

`refresh_flows` over the HAL: the caller has a request for the statistics of all
flows enqueued and waits for the HAL to complete it, while the switch answers in
as many messages as it likes, and the HAL hands each of them to `flow_service`
before it makes its callbacks.

The messages of the HAL carry headers only, so what a message says about flows is
kept beside them. The other callers of the service and of the HAL go on as they
please.
-/

namespace IronStack

/-- One message of the reply to a request for flow statistics. -/
structure StatsFragment where
  /-- The number of the transaction with the request. -/
  number : Nat
  /-- Its place in the reply. -/
  part : Nat
  flowStats : List FlowDescriptionAndStats
  moreToFollow : Bool
deriving DecidableEq

/-- One update of the flow tables. -/
structure TableUpdate where
  /-- The messages whose flows were pending. -/
  fragments : List StatsFragment
  /-- The flows the tables were given. -/
  flows : List FlowDescriptionAndStats
deriving DecidableEq

/-- A call of `refresh_flows` that waits for a transaction. -/
structure RefreshCall where
  number : Nat
  /-- Negative for `wait`, positive for `timed_wait`. -/
  timeoutMs : Int32
deriving DecidableEq

/-- The flow service, the HAL and the switch, with the callers of `refresh_flows`. -/
structure RefreshWorld where
  flows : FlowWorld
  hal : HalWorld FlowCallback
  /-- The flow statistics in each of the messages on the way. -/
  contents : List (Option StatsFragment)
  /-- The transactions that carry the request of a `refresh_flows`. -/
  requests : List Nat
  calls : List RefreshCall
  /-- The fragments of replies the switch has sent, in order. -/
  sent : List StatsFragment
  /-- Ghost: those that the HAL has processed. -/
  received : List StatsFragment
  /-- Ghost: those whose flows are in `pending_flows`. -/
  pendingFragments : List StatsFragment
  /-- Ghost: the updates of the tables so far. -/
  updates : List TableUpdate
  /-- Ghost: the calls that have returned, with what they returned. -/
  returned : List (RefreshCall × Bool)

/-- What can happen next. -/
inductive RefreshInput where
  /-- Something else happens to the flow service. -/
  | flows (input : FlowInput)
  | hal (input : HalInput FlowCallback)
  | refreshFlows (timeoutMs : Int32)
  /-- The switch sends the next part of the reply to the request sent as the `index`-th. -/
  | switchReplies (index : Nat) (flowStats : List FlowDescriptionAndStats) (moreToFollow : Bool)
  /-- The wait for a transaction is over. -/
  | resume (number : Nat) (status : Bool)

namespace RefreshWorld

/-- Just connected, with these tables attached. -/
def boot (tables : List FlowTable) : RefreshWorld where
  flows := FlowWorld.boot tables
  hal := HalWorld.boot FlowCallback
  contents := []
  requests := []
  calls := []
  sent := []
  received := []
  pendingFragments := []
  updates := []
  returned := []

/-- Flow statistics reach the service through the HAL, and refreshes are calls of their own. -/
def isElsewhere : FlowInput → Bool
  | .statsReply _ _ | .refreshFlows _ => false
  | _ => true

/-- Something else happens to the flow service. -/
def runFlows (w : RefreshWorld) (input : FlowInput) : Option RefreshWorld :=
  if isElsewhere input then (w.flows.step input).map fun flows => { w with flows := flows }
  else none

/-- The HAL after a step in which the switch sent no flow statistics. -/
def adopt (w : RefreshWorld) (hal : HalWorld FlowCallback) : RefreshWorld :=
  { w with
    hal := hal
    contents := w.contents ++ List.replicate
      (hal.asynchronousMessages.length - w.hal.asynchronousMessages.length) none }

/-- The switch has sent the last part of the reply to this request. -/
def answered (w : RefreshWorld) (number : Nat) : Bool :=
  w.sent.any fun f => f.number == number && !f.moreToFollow

/--
A barrier request is only handled once the refreshes the switch handled before it
are answered. It answers them all.
-/
def readyToHandle (w : RefreshWorld) : Bool :=
  match w.hal.wire[w.hal.handled]? with
  | some o =>
      !o.isBarrierRequest || (w.hal.wire.take w.hal.handled).all fun o' =>
        !w.requests.contains o'.number || w.answered o'.number
  | none => false

/-- The switch sends the next part of a reply. -/
def reply (w : RefreshWorld) (index : Nat) (flowStats : List FlowDescriptionAndStats)
    (moreToFollow : Bool) : Option RefreshWorld :=
  match w.hal.wire[index]? with
  | some o =>
      if index < w.hal.handled ∧ o.transaction.request.msgType = .statsRequest ∧
          w.answered o.number = false then
        let f : StatsFragment :=
          { number := o.number
            part := w.sent.countP fun f => f.number == o.number
            flowStats := flowStats
            moreToFollow := moreToFollow }
        (w.hal.switchSends ⟨o.xid, .statsReply⟩).map fun hal =>
          { w with
            hal := hal
            contents := w.contents ++ [some f]
            sent := w.sent ++ [f] }
      else none
  | none => none

/-- `flow_update_handler` is given a fragment. -/
def deliver (w : RefreshWorld) (f : StatsFragment) : Option RefreshWorld :=
  (w.flows.update f.flowStats f.moreToFollow).map fun flows =>
    { w with
      flows := flows
      received := w.received ++ [f]
      pendingFragments := if f.moreToFollow then w.pendingFragments ++ [f] else []
      updates :=
        if f.moreToFollow then w.updates
        else w.updates ++ [⟨w.pendingFragments ++ [f], w.flows.svc.pendingFlows ++ f.flowStats⟩] }

/--
`process_message_loop_entrypoint`, for one message: the flow service is informed
first, then the callbacks are made.
-/
def process (w : RefreshWorld) : Option RefreshWorld :=
  match w.contents, w.hal.process with
  | content :: rest, some hal =>
      match content with
      | none => some { w with hal := hal, contents := rest }
      | some f => { w with hal := hal, contents := rest }.deliver f
  | _, _ => none

/-- A step of the HAL or of the switch. -/
def runHal (w : RefreshWorld) : HalInput FlowCallback → Option RefreshWorld
  | .process => w.process
  | .switchHandles => if w.readyToHandle then w.hal.switchHandles.map w.adopt else none
  | input => (w.hal.step input).map w.adopt

/-- `refresh_flows` up to its wait; the transaction is constructed, but not enqueued yet. -/
def refreshFlows (w : RefreshWorld) (timeoutMs : Int32) : RefreshWorld :=
  match w.flows.svc.refreshFlows timeoutMs with
  | (issued, svc) =>
      let w' := { w with flows := { w.flows with svc := svc } }
      if issued then
        if timeoutMs ≠ 0 then
          { w' with
            hal := w.hal.construct .statsRequest (some .blocking)
            requests := w.requests ++ [w.hal.nextNumber]
            calls := w.calls ++ [⟨w.hal.nextNumber, timeoutMs⟩] }
        else
          { w' with
            hal := w.hal.construct .statsRequest none
            requests := w.requests ++ [w.hal.nextNumber] }
      else w'

/-- Was the transaction completed? -/
def isDone (w : RefreshWorld) (number : Nat) : Bool :=
  w.hal.completions.any fun c => c.object.number == number

/--
A wait ends with `status`, and so does the call. `wait` only ends once the
transaction is completed; `timed_wait` may end by any wakeup, or by the timeout.
-/
def resume (w : RefreshWorld) (number : Nat) (status : Bool) : Option RefreshWorld :=
  match w.calls.find? (·.number = number) with
  | none => none
  | some call =>
      if call.timeoutMs < 0 ∧ ¬ (status = true ∧ w.isDone number = true) then none
      else
        some { w with
          calls := w.calls.filter (·.number ≠ number)
          returned := w.returned ++ [(call, status)] }

/-- One step of the world; `none` where the input cannot happen, or the controller aborts. -/
def step (w : RefreshWorld) : RefreshInput → Option RefreshWorld
  | .flows input => w.runFlows input
  | .hal input => w.runHal input
  | .refreshFlows timeoutMs => some (w.refreshFlows timeoutMs)
  | .switchReplies index flowStats moreToFollow => w.reply index flowStats moreToFollow
  | .resume number status => w.resume number status

end RefreshWorld

end IronStack
