import IronStack.Hal.System
import Mathlib.Logic.Function.Basic

/-!
# `hal::init` and `hal::shutdown`

Any number of callers start the controller and shut it down, each in the middle of its
own call, while the four loops of `hal` run. A step is one access to what they share: a
flag, a queue, the callback list, the connection, a thread object. What the switch sends,
and whether the socket works, is left open.

`none` is a step that cannot be taken: of a caller or a loop that is blocked, and of a
caller that would take the process down, because it assigns to a thread object that is
joinable, or joins one that is not.
-/

namespace IronStack

/-- `std::thread`, with what its function is in the middle of. -/
inductive LoopThread (P : Type) where
  /-- Not joinable: it was never started, or it was joined. -/
  | absent
  | running (point : P)
  /-- The function has returned; nobody has joined the thread yet. -/
  | returned

def LoopThread.isAbsent {P : Type} : LoopThread P → Bool
  | .absent => true
  | .running _ | .returned => false

/-- Assigning a new thread to the object. -/
def LoopThread.start {P : Type} (t : LoopThread P) (entry : P) : Option (LoopThread P) :=
  if t.isAbsent then some (.running entry) else none

/-- `thread::join`. -/
def LoopThread.join {P : Type} : LoopThread P → Option (LoopThread P)
  | .returned => some .absent
  | .running _ | .absent => none

/-- Where `send_loop_entrypoint` is; `test` is the head of its loop. -/
inductive SendPoint (γ : Type) where
  | test
  | dequeue
  | send (o : HalObject γ)

/-- Where `recv_loop_entrypoint` is. -/
inductive RecvPoint where
  | test
  | receive

/-- Where `process_message_loop_entrypoint` is. -/
inductive ProcessPoint where
  | test
  | dequeue

/-- Where `maintenance_thread_entrypoint` is, and the `send_barrier_request` that it calls. -/
inductive MaintenancePoint (γ : Type) where
  | test
  | look
  | construct
  | enqueue (o : HalObject γ)
  | wait (o : HalObject γ)
  | sleep

/-- Where a call of `hal::init` is, behind its `compare_exchange_strong`. -/
inductive InitPoint where
  | checkReady
  | checkShutdown
  | listen
  | accept
  | sendHello
  | awaitHello
  | sendSetConfig
  | sendEcho
  | awaitEcho
  | storeReady
  | storeShutdown
  | storeInitialization
  | startRecv
  | startSend
  | startProcess
  | startMaintenance
  /-- The services are initialized, and the packet processor is. -/
  | initServices
deriving DecidableEq

/-- Where a call of `hal::shutdown` is, behind its first `compare_exchange_strong`. -/
inductive ShutdownPoint where
  | raiseFlag
  | clearReady
  | wakeSend
  | wakeProcess
  | close
  | joinSend
  | joinRecv
  | joinProcess
  | joinMaintenance
  | clearCallbacks
  | clearPending
  | clearMessages
  | resetReady
  | resetFlag
deriving DecidableEq

/-- A call under way. -/
inductive HalCall where
  | init (point : InitPoint)
  | shutdown (point : ShutdownPoint)
deriving DecidableEq

/-- What becomes of a call of `init`. -/
inductive InitResult where
  /-- `false`, as another call has the controller under initialization. -/
  | refused
  /-- `true`, as the controller is initialized. -/
  | alreadyInitialized
  /-- `false`, as there is no listening, or the handshake fails. -/
  | failed
  | started
deriving DecidableEq

/-- How a step of `init` goes, as far as that is not up to the controller. -/
inductive InitEvent where
  | proceeds
  | fails
  | receives (m : HalHeader)

/-- `hal`, with callers `κ`. -/
structure HalState (κ γ : Type) where
  switchReady : Bool := false
  underInitialization : Bool := false
  shutdownFlag : Bool := false
  /-- `connection.get_connection_info().is_connected()`. -/
  connected : Bool := false
  /-- `hal_transaction::xid_counter`. -/
  xidCounter : UInt32 := 1
  /-- The number of the next transaction object. -/
  nextNumber : Nat := 0
  /-- Constructed by a caller, not enqueued yet. -/
  constructed : List (HalObject γ) := []
  /-- `none` is a null pointer. -/
  pendingTransactions : List (Option (HalObject γ)) := []
  asynchronousMessages : List (Option HalHeader) := []
  callbackTransactions : List (CallbackTransaction γ) := []
  sendLoopThread : LoopThread (SendPoint γ) := .absent
  recvLoopThread : LoopThread RecvPoint := .absent
  processLoopThread : LoopThread ProcessPoint := .absent
  maintenanceThread : LoopThread (MaintenancePoint γ) := .absent
  /-- The callers, each with the call it is in the middle of. -/
  callers : κ → Option HalCall := fun _ => none
  /-- The transactions whose callbacks were made, by their numbers. -/
  completed : List Nat := []
  /-- Ghost: what became of the calls of `init` so far, in the order in which that was settled. -/
  outcomes : List InitResult := []

/-- What can happen next. -/
inductive LifecycleInput (κ γ : Type) where
  | callInit (caller : κ)
  | callShutdown (caller : κ)
  /-- A call of `init` goes on. -/
  | init (caller : κ) (event : InitEvent)
  /-- A call of `shutdown` goes on. -/
  | shutdown (caller : κ)
  | sendLoop (ok : Bool)
  | recvLoop (message : Option HalHeader)
  | processLoop
  /-- The maintenance thread goes on; the callback is what a barrier request of it is made with. -/
  | maintenance (callback : γ)
  /-- Somebody constructs a transaction, and thereby reserves an xid. -/
  | construct (msgType : OfpType) (callback : Option γ)
  | enqueue (index : Nat)

namespace HalState

variable {κ γ : Type} [DecidableEq κ]

/-- `hal::hal`. -/
def boot (κ γ : Type) : HalState κ γ := {}

/-- The caller goes on to a point of its call. -/
def goTo (s : HalState κ γ) (caller : κ) (call : HalCall) : HalState κ γ :=
  { s with callers := Function.update s.callers caller (some call) }

/-- The call returns. -/
def leave (s : HalState κ γ) (caller : κ) : HalState κ γ :=
  { s with callers := Function.update s.callers caller none }

/-- It is settled what becomes of a call of `init`. -/
def settle (s : HalState κ γ) (outcome : InitResult) : HalState κ γ :=
  { s with outcomes := s.outcomes ++ [outcome] }

/-- `init` closes the connection and returns `false`. -/
def giveUp (s : HalState κ γ) (caller : κ) : HalState κ γ :=
  ({ s with connected := false }.leave caller).settle .failed

/-- A new transaction object. -/
def newObject (s : HalState κ γ) (header : HalHeader) (callback : Option γ) : HalObject γ where
  number := s.nextNumber
  transaction :=
    match callback with
    | some cob => .acknowledged header cob
    | none => .unacknowledged header

/-- `hal_transaction(request, …)`, with an xid from `reserve_xid`. -/
def construct (s : HalState κ γ) (msgType : OfpType) (callback : Option γ) :
    HalObject γ × HalState κ γ :=
  (s.newObject ⟨s.xidCounter, msgType⟩ callback,
    { s with xidCounter := s.xidCounter + 1, nextNumber := s.nextNumber + 1 })

/-- `init` sends a message of its own, with an xid from `reserve_xid`. -/
def sendOwn (s : HalState κ γ) (caller : κ) (next : InitPoint) : InitEvent → Option (HalState κ γ)
  | .proceeds =>
      if s.connected then some ({ s with xidCounter := s.xidCounter + 1 }.goTo caller (.init next)) else none
  | .fails => some ({ s with xidCounter := s.xidCounter + 1 }.giveUp caller)
  | .receives _ => none

/-- `init` waits for a message of a type; others are put by. -/
def awaitMessage (s : HalState κ γ) (caller : κ) (msgType : OfpType) (next : InitPoint) :
    InitEvent → Option (HalState κ γ)
  | .receives m =>
      if m.msgType = msgType then some (s.goTo caller (.init next))
      else some { s with asynchronousMessages := s.asynchronousMessages ++ [some m] }
  | .fails => some (s.giveUp caller)
  | .proceeds => none

/-- A step of `hal::init`, behind its `compare_exchange_strong`. -/
def initStep (s : HalState κ γ) (caller : κ) (event : InitEvent) : InitPoint → Option (HalState κ γ)
  | .checkReady => some (s.goTo caller (.init (if s.switchReady then .checkShutdown else .listen)))
  | .checkShutdown =>
      if s.shutdownFlag then some (s.goTo caller (.init .listen))
      else some ((s.leave caller).settle .alreadyInitialized)
  | .listen =>
      match event with
      | .proceeds => some (s.goTo caller (.init .accept))
      | .fails => some ((s.leave caller).settle .failed)
      | .receives _ => none
  | .accept =>
      match event with
      | .proceeds => some ({ s with connected := true }.goTo caller (.init .sendHello))
      -- not accepted, or not from an address that is allowed
      | .fails => some { s with connected := false }
      | .receives _ => none
  | .sendHello => s.sendOwn caller .awaitHello event
  | .awaitHello => s.awaitMessage caller .hello .sendSetConfig event
  | .sendSetConfig => s.sendOwn caller .sendEcho event
  | .sendEcho => s.sendOwn caller .awaitEcho event
  | .awaitEcho => s.awaitMessage caller .echoReply .storeReady event
  | .storeReady => some ({ s with switchReady := true }.goTo caller (.init .storeShutdown))
  | .storeShutdown => some ({ s with shutdownFlag := false }.goTo caller (.init .storeInitialization))
  | .storeInitialization =>
      some (({ s with underInitialization := false }.goTo caller (.init .startRecv)).settle .started)
  | .startRecv =>
      (s.recvLoopThread.start .test).map fun t =>
        { s with recvLoopThread := t }.goTo caller (.init .startSend)
  | .startSend =>
      (s.sendLoopThread.start .test).map fun t =>
        { s with sendLoopThread := t }.goTo caller (.init .startProcess)
  | .startProcess =>
      (s.processLoopThread.start .test).map fun t =>
        { s with processLoopThread := t }.goTo caller (.init .startMaintenance)
  | .startMaintenance =>
      (s.maintenanceThread.start .test).map fun t =>
        { s with maintenanceThread := t }.goTo caller (.init .initServices)
  | .initServices => some (s.leave caller)

/-- A step of `hal::shutdown`, behind its first `compare_exchange_strong`. -/
def shutdownStep (s : HalState κ γ) (caller : κ) : ShutdownPoint → Option (HalState κ γ)
  | .raiseFlag =>
      if s.shutdownFlag then some (s.leave caller)
      else some ({ s with shutdownFlag := true }.goTo caller (.shutdown .clearReady))
  | .clearReady => some ({ s with switchReady := false }.goTo caller (.shutdown .wakeSend))
  | .wakeSend =>
      some ({ s with pendingTransactions := s.pendingTransactions ++ [none] }.goTo caller
        (.shutdown .wakeProcess))
  | .wakeProcess =>
      some ({ s with asynchronousMessages := s.asynchronousMessages ++ [none] }.goTo caller
        (.shutdown .close))
  | .close => some ({ s with connected := false }.goTo caller (.shutdown .joinSend))
  | .joinSend =>
      s.sendLoopThread.join.map fun t =>
        { s with sendLoopThread := t }.goTo caller (.shutdown .joinRecv)
  | .joinRecv =>
      s.recvLoopThread.join.map fun t =>
        { s with recvLoopThread := t }.goTo caller (.shutdown .joinProcess)
  | .joinProcess =>
      s.processLoopThread.join.map fun t =>
        { s with processLoopThread := t }.goTo caller (.shutdown .joinMaintenance)
  | .joinMaintenance =>
      s.maintenanceThread.join.map fun t =>
        { s with maintenanceThread := t }.goTo caller (.shutdown .clearCallbacks)
  | .clearCallbacks => some ({ s with callbackTransactions := [] }.goTo caller (.shutdown .clearPending))
  | .clearPending => some ({ s with pendingTransactions := [] }.goTo caller (.shutdown .clearMessages))
  | .clearMessages => some ({ s with asynchronousMessages := [] }.goTo caller (.shutdown .resetReady))
  | .resetReady => some ({ s with switchReady := false }.goTo caller (.shutdown .resetFlag))
  | .resetFlag => some ({ s with shutdownFlag := false }.leave caller)

/-! ## The loops -/

/-- `send_loop_entrypoint`; `ok` is whether the socket takes the message. -/
def sendLoopStep (s : HalState κ γ) (ok : Bool) : Option (HalState κ γ) :=
  match s.sendLoopThread with
  | .absent | .returned => none
  | .running .test =>
      some { s with sendLoopThread := if s.shutdownFlag then .returned else .running .dequeue }
  | .running .dequeue =>
      match s.pendingTransactions with
      | [] => none
      | none :: rest => some { s with pendingTransactions := rest, sendLoopThread := .running .test }
      | some o :: rest =>
          some { s with
            pendingTransactions := rest
            sendLoopThread := .running (.send o)
            callbackTransactions :=
              if h : o.hasCompletionAcknowledgement = true then s.callbackTransactions ++ [⟨o, h⟩]
              else s.callbackTransactions }
  | .running (.send _) =>
      if ok && s.connected then some { s with sendLoopThread := .running .test }
      else some { s with sendLoopThread := .returned, connected := false }

/-- `recv_loop_entrypoint`; `none` is that no message can be read. -/
def recvLoopStep (s : HalState κ γ) (message : Option HalHeader) : Option (HalState κ γ) :=
  match s.recvLoopThread with
  | .absent | .returned => none
  | .running .test =>
      some { s with recvLoopThread := if s.shutdownFlag then .returned else .running .receive }
  | .running .receive =>
      match message with
      | none => some { s with recvLoopThread := .returned, connected := false }
      | some m =>
          some { s with
            recvLoopThread := .running .test
            asynchronousMessages := s.asynchronousMessages ++ [some m] }

/-- The callbacks for a message. -/
def performCallbacks (s : HalState κ γ) (m : HalHeader) : HalState κ γ :=
  match HalWorld.callbackStatus? m.msgType with
  | none => s
  | some _ =>
      if m.msgType = .barrierReply then
        { s with
          callbackTransactions := s.callbackTransactions.filter fun o => !decide (o.1.xid ≤ m.xid)
          completed := s.completed ++
            (s.callbackTransactions.filter fun o => o.1.xid ≤ m.xid).map fun o => o.1.number }
      else
        { s with
          callbackTransactions := s.callbackTransactions.eraseP fun o => o.1.xid == m.xid
          completed := s.completed ++
            ((s.callbackTransactions.find? fun o => o.1.xid == m.xid).map fun o => o.1.number).toList }

/-- An echo request is answered by a transaction that keeps its xid. -/
def answerEcho (s : HalState κ γ) (header : HalHeader) : HalState κ γ :=
  { s with
    nextNumber := s.nextNumber + 1
    pendingTransactions := s.pendingTransactions ++ [some (s.newObject ⟨header.xid, .echoReply⟩ none)] }

/-- `process_message_loop_entrypoint`; the services it informs are left out. -/
def processLoopStep (s : HalState κ γ) : Option (HalState κ γ) :=
  match s.processLoopThread with
  | .absent | .returned => none
  | .running .test =>
      some { s with processLoopThread := if s.shutdownFlag then .returned else .running .dequeue }
  | .running .dequeue =>
      match s.asynchronousMessages with
      | [] => none
      | none :: rest => some { s with asynchronousMessages := rest, processLoopThread := .running .test }
      | some m :: rest =>
          let s := { s with asynchronousMessages := rest, processLoopThread := .running .test }
          some (if m.msgType = .echoRequest then s.answerEcho m else s.performCallbacks m)

/-- `maintenance_thread_entrypoint`, which waits for its barriers without looking at the flag. -/
def maintenanceStep (s : HalState κ γ) (callback : γ) : Option (HalState κ γ) :=
  match s.maintenanceThread with
  | .absent | .returned => none
  | .running .test =>
      some { s with maintenanceThread := if s.shutdownFlag then .returned else .running .look }
  | .running .look =>
      some { s with
        maintenanceThread := if s.callbackTransactions.isEmpty then .running .sleep else .running .construct }
  | .running .construct =>
      let (o, s) := s.construct .barrierRequest (some callback)
      some { s with maintenanceThread := .running (.enqueue o) }
  | .running (.enqueue o) =>
      some { s with
        pendingTransactions := s.pendingTransactions ++ [some o]
        maintenanceThread := .running (.wait o) }
  | .running (.wait o) =>
      if s.completed.contains o.number then some { s with maintenanceThread := .running .sleep } else none
  | .running .sleep => some { s with maintenanceThread := .running .test }

/-! ## All of it -/

/-- `hal::init`, up to its `compare_exchange_strong`. -/
def callInit (s : HalState κ γ) (caller : κ) : Option (HalState κ γ) :=
  if (s.callers caller).isSome then none
  else if s.underInitialization then some (s.settle .refused)
  else some ({ s with underInitialization := true }.goTo caller (.init .checkReady))

/-- `hal::shutdown`, up to its first `compare_exchange_strong`. -/
def callShutdown (s : HalState κ γ) (caller : κ) : Option (HalState κ γ) :=
  if (s.callers caller).isSome then none
  else if s.switchReady then some ({ s with switchReady := false }.goTo caller (.shutdown .raiseFlag))
  else some s

def step (s : HalState κ γ) : LifecycleInput κ γ → Option (HalState κ γ)
  | .callInit caller => s.callInit caller
  | .callShutdown caller => s.callShutdown caller
  | .init caller event =>
      match s.callers caller with
      | some (.init point) => s.initStep caller event point
      | _ => none
  | .shutdown caller =>
      match s.callers caller with
      | some (.shutdown point) => s.shutdownStep caller point
      | _ => none
  | .sendLoop ok => s.sendLoopStep ok
  | .recvLoop message => s.recvLoopStep message
  | .processLoop => s.processLoopStep
  | .maintenance callback => s.maintenanceStep callback
  | .construct msgType callback =>
      let (o, s) := s.construct msgType callback
      some { s with constructed := s.constructed ++ [o] }
  | .enqueue index =>
      s.constructed[index]?.map fun o =>
        { s with
          constructed := s.constructed.eraseIdx index
          pendingTransactions := s.pendingTransactions ++ [some o] }

end HalState

end IronStack
