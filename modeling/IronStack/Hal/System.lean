import IronStack.Hal.Transaction

/-!
# The HAL and an in-order switch

The threads of `hal` around one connection: callers that construct transactions
and enqueue them, the send loop, the loop that processes the messages of the
switch. The switch handles what it is sent in order, and answers a barrier request
once it gets there; whatever else it sends, and when, is left open.

A transaction is an object, told from others by its number and not by its xid:
the xids come from a 32-bit counter that wraps.
-/

namespace IronStack

/-- The header of an OpenFlow message. -/
structure HalHeader where
  xid : UInt32
  msgType : OfpType
deriving DecidableEq

/-- One transaction object. -/
structure HalObject (γ : Type) where
  /-- Which object it is. The code has its address. -/
  number : Nat
  transaction : HalTransaction HalHeader γ
deriving DecidableEq

namespace HalObject

variable {γ : Type}

/-- `get_request()->xid`. -/
abbrev xid (o : HalObject γ) : UInt32 := o.transaction.request.xid

/-- `has_completion_acknowledgement`. -/
abbrev hasCompletionAcknowledgement (o : HalObject γ) : Bool :=
  o.transaction.needsCompletionAcknowledgement

def isBarrierRequest (o : HalObject γ) : Bool := o.transaction.request.msgType == .barrierRequest

end HalObject

/-- A transaction in the callback list: one that asked for an acknowledgement. -/
abbrev CallbackTransaction (γ : Type) := { o : HalObject γ // o.hasCompletionAcknowledgement = true }

/-- The callback of a transaction in the callback list. There is one. -/
def CallbackTransaction.getCallback {γ : Type} (o : CallbackTransaction γ) : γ :=
  o.1.transaction.callback.get (o.1.transaction.callback_of_acknowledgement o.2)

/-- A message from the switch. -/
inductive SwitchMessage (γ : Type) where
  /-- The reply to a barrier request. It carries the xid of the request, and nothing else of it. -/
  | barrierReply (request : HalObject γ)
  | other (header : HalHeader) (not_barrierReply : header.msgType ≠ .barrierReply)
deriving DecidableEq

/-- The header of a message; all the HAL looks at. -/
def SwitchMessage.header {γ : Type} : SwitchMessage γ → HalHeader
  | .barrierReply request => ⟨request.xid, .barrierReply⟩
  | .other header _ => header

/-- The barrier request a message answers. -/
def SwitchMessage.answers? {γ : Type} : SwitchMessage γ → Option (HalObject γ)
  | .barrierReply request => some request
  | .other _ _ => none

/-- One call of `hal_callback`. -/
structure HalCompletion (γ : Type) where
  object : HalObject γ
  callback : γ
  reply : Option HalHeader
  status : Bool
  /-- Ghost: the message that was being processed. -/
  cause : SwitchMessage γ

/-- The HAL, the connection and the switch. -/
structure HalWorld (γ : Type) where
  /-- `hal_transaction::xid_counter`. -/
  xidCounter : UInt32
  /-- The number of the next object. -/
  nextNumber : Nat
  /-- Constructed by a caller, not enqueued yet. -/
  constructed : List (HalObject γ)
  pendingTransactions : List (HalObject γ)
  callbackTransactions : List (CallbackTransaction γ)
  /-- What the send loop dequeued and has not sent yet. -/
  sending : Option (HalObject γ)
  /-- The send loop has ended on a broken connection. -/
  sendLoopEnded : Bool
  /-- All that was sent, in order. -/
  wire : List (HalObject γ)
  /-- How much of it the switch has handled. -/
  handled : Nat
  /-- On the way back, or in `asynchronous_messages`. -/
  asynchronousMessages : List (SwitchMessage γ)
  /-- The callbacks made so far. -/
  completions : List (HalCompletion γ)

/-- What can happen next. -/
inductive HalInput (γ : Type) where
  /-- A caller constructs a transaction, and thereby reserves an xid. -/
  | construct (msgType : OfpType) (callback : Option γ)
  /-- A caller enqueues a transaction it constructed. -/
  | enqueue (index : Nat)
  /-- The send loop dequeues a transaction and registers it for its callback. -/
  | dequeue
  /-- The send loop sends what it dequeued; this may fail. -/
  | send (ok : Bool)
  /-- The switch handles the next request. -/
  | switchHandles
  /-- The switch sends a message that is not a barrier reply. -/
  | switchSends (header : HalHeader)
  /-- The HAL processes the next message of the switch. -/
  | process

namespace HalWorld

variable {γ : Type}

/-- Just connected. -/
def boot (γ : Type) : HalWorld γ where
  xidCounter := 1
  nextNumber := 0
  constructed := []
  pendingTransactions := []
  callbackTransactions := []
  sending := none
  sendLoopEnded := false
  wire := []
  handled := 0
  asynchronousMessages := []
  completions := []

/-- A new transaction object. A completion is asked for exactly when there is a callback. -/
def newObject (w : HalWorld γ) (header : HalHeader) (callback : Option γ) : HalObject γ where
  number := w.nextNumber
  transaction :=
    match callback with
    | some cob => .acknowledged header cob
    | none => .unacknowledged header

/-- `hal_transaction(request, …)`: `assign_and_serialize` takes the xid from `reserve_xid`. -/
def construct (w : HalWorld γ) (msgType : OfpType) (callback : Option γ) : HalWorld γ :=
  { w with
    xidCounter := w.xidCounter + 1
    nextNumber := w.nextNumber + 1
    constructed := w.constructed ++ [w.newObject ⟨w.xidCounter, msgType⟩ callback] }

/-- `enqueue_transaction`. -/
def enqueue (w : HalWorld γ) (index : Nat) : Option (HalWorld γ) :=
  w.constructed[index]?.map fun o =>
    { w with
      constructed := w.constructed.eraseIdx index
      pendingTransactions := w.pendingTransactions ++ [o] }

/-- `send_loop_entrypoint`, up to the release of `callback_transactions_lock`. -/
def dequeue (w : HalWorld γ) : Option (HalWorld γ) :=
  match w.sending, w.pendingTransactions with
  | none, o :: rest =>
      some { w with
        pendingTransactions := rest
        sending := some o
        callbackTransactions :=
          if h : o.hasCompletionAcknowledgement = true then w.callbackTransactions ++ [⟨o, h⟩]
          else w.callbackTransactions }
  | _, _ => none

/-- `send_loop_entrypoint`, from `send_raw` on. A failure ends the loop. -/
def send (w : HalWorld γ) (ok : Bool) : Option (HalWorld γ) :=
  if w.sendLoopEnded then none
  else w.sending.map fun o =>
    if ok then { w with sending := none, wire := w.wire ++ [o] }
    else { w with sendLoopEnded := true }

/-- The switch handles the next request; a barrier request is answered. -/
def switchHandles (w : HalWorld γ) : Option (HalWorld γ) :=
  w.wire[w.handled]?.map fun o =>
    { w with
      handled := w.handled + 1
      asynchronousMessages :=
        if o.isBarrierRequest then w.asynchronousMessages ++ [.barrierReply o]
        else w.asynchronousMessages }

/-- The switch sends a message of its own accord, or some other reply. -/
def switchSends (w : HalWorld γ) (header : HalHeader) : Option (HalWorld γ) :=
  if h : header.msgType ≠ .barrierReply then
    some { w with asynchronousMessages := w.asynchronousMessages ++ [.other header h] }
  else none

/--
`perform_callbacks` and `callback_status` for a message of this type; `none` where
no callbacks are performed.
-/
def callbackStatus? : OfpType → Option Bool
  | .error => some false
  | .echoReply | .barrierReply | .statsReply => some true
  | _ => none

/-- The completion of a transaction by a message. -/
def complete (o : CallbackTransaction γ) (reply : Option HalHeader) (status : Bool)
    (m : SwitchMessage γ) : HalCompletion γ :=
  ⟨o.1, o.getCallback, reply, status, m⟩

/--
The callbacks for a barrier reply: every registered transaction with an xid up to
that of the reply is completed as successful. The barrier itself takes the reply.
-/
def completeBarrier (w : HalWorld γ) (m : SwitchMessage γ) : HalWorld γ :=
  { w with
    callbackTransactions := w.callbackTransactions.filter fun o => !decide (o.1.xid ≤ m.header.xid)
    completions := w.completions ++
      (w.callbackTransactions.filter fun o => o.1.xid ≤ m.header.xid).map fun o =>
        complete o (if o.1.xid = m.header.xid then some m.header else none) true m }

/-- The callback for any other message: to the first registered transaction with its xid. -/
def completeOne (w : HalWorld γ) (status : Bool) (m : SwitchMessage γ) : HalWorld γ :=
  { w with
    callbackTransactions := w.callbackTransactions.eraseP fun o => o.1.xid == m.header.xid
    completions := w.completions ++
      ((w.callbackTransactions.find? fun o => o.1.xid == m.header.xid).map fun o =>
        complete o (some m.header) status m).toList }

/-- An echo request is answered by a transaction that keeps its xid. -/
def answerEcho (w : HalWorld γ) (header : HalHeader) : HalWorld γ :=
  { w with
    nextNumber := w.nextNumber + 1
    pendingTransactions :=
      w.pendingTransactions ++ [w.newObject ⟨header.xid, .echoReply⟩ none] }

/-- `process_message_loop_entrypoint`, for one message; the services it informs are left out. -/
def process (w : HalWorld γ) : Option (HalWorld γ) :=
  match w.asynchronousMessages with
  | [] => none
  | m :: rest =>
      let w' := { w with asynchronousMessages := rest }
      if m.header.msgType = .echoRequest then some (w'.answerEcho m.header)
      else
        match callbackStatus? m.header.msgType with
        | none => some w'
        | some status =>
            if m.header.msgType = .barrierReply then some (w'.completeBarrier m)
            else some (w'.completeOne status m)

/-- One step of the world; `none` where the input cannot happen. -/
def step (w : HalWorld γ) : HalInput γ → Option (HalWorld γ)
  | .construct msgType callback => some (w.construct msgType callback)
  | .enqueue index => w.enqueue index
  | .dequeue => w.dequeue
  | .send ok => w.send ok
  | .switchHandles => w.switchHandles
  | .switchSends header => w.switchSends header
  | .process => w.process

end HalWorld

end IronStack
