import IronStack.Net.NetUtils
import IronStack.OpenFlow.Requests

/-!
# A session of the HAL with its switch

`hal::init` from the accepted connection on, and the loops that receive, send and
process messages once it has started them. What init reads while it waits for a
hello, or for the reply to its echo request, is kept for later. Services and
callbacks are left out, but for the answer to an echo request.
-/

namespace IronStack

open Lib

/-! ## `tcp::send_raw` -/

/-- What a call of `send` comes back with: `EINTR`, an error, or how much it took. -/
inductive SendOutcome where
  | interrupted
  | failed
  | bytes (n : Nat)

namespace Tcp

/--
The loop of `tcp::send_raw` over the bytes that are left, at most 1024 of which are
offered at a time, and the bytes it got rid of. Behind the last outcome `send` fails.
-/
def sendLoop : List SendOutcome → Bytes → Bool × Bytes
  | [], payload => (payload.isEmpty, [])
  | outcome :: outcomes, payload =>
      if payload.isEmpty then (true, [])
      else
        match outcome with
        | .interrupted => sendLoop outcomes payload
        | .failed => (false, [])
        | .bytes n =>
            let taken := (payload.take 1024).take n
            -- none, as if the other side had gone
            if taken.isEmpty then (false, [])
            else
              let later := sendLoop outcomes (payload.drop taken.length)
              (later.1, taken ++ later.2)

/-- `tcp::send_raw`, whose length is an `int`; the counters of bytes that were sent are left out. -/
def sendRaw (outcomes : List SendOutcome) (connection : Tcp) (payload : Bytes) : Bool × Bytes × Tcp :=
  if connection.connected then
    let result := sendLoop outcomes (payload.take (asInt payload.length).toNat)
    (result.1, result.2, if result.1 then connection else connection.close)
  else (false, [], connection)

end Tcp

/-! ## Messages -/

namespace OfMessage

/-- The header of a message of any class. -/
def header : OfMessage → MessageHeader
  | hello header | error header .. | echoRequest header _ | echoReply header _ | vendor header ..
  | featuresReply header .. | getConfigReply header _ | packetIn header .. | flowRemoved header ..
  | portStatus header .. | switchDescription header .. | flowStats header .. | aggregateStats header ..
  | tableStats header .. | portStats header .. | queueStats header .. | barrierReply header => header

/-- `msg_type`. -/
abbrev msgType (m : OfMessage) : UInt8 := m.header.msgType

end OfMessage

/-- The hello of `hal::init`. -/
def helloMessage (xid : UInt32) : SerializedMessage where
  message := .hello 1 xid
  junk := fun _ => 0
  bytes := messageHeader 1 Ofpt.hello 8 xid
  payload_lt := Nat.two_pow_pos 32
  serialize_eq := rfl

/-- The `set_config` of `hal::init`. -/
def setConfigMessage (xid : UInt32) : SerializedMessage where
  message := .setConfig 1 xid { fragNormal := true, maxMsgSendLen := 65535 }
  junk := fun _ => 0
  bytes := SwitchConfig.serialize 1 xid { fragNormal := true, maxMsgSendLen := 65535 }
  payload_lt := Nat.two_pow_pos 32
  serialize_eq := rfl

/-- The echo request of `hal::init`. -/
def echoRequestMessage (xid : UInt32) : SerializedMessage where
  message := .echoRequest 1 xid []
  junk := fun _ => 0
  bytes := messageHeader 1 Ofpt.echoRequest 8 xid ++ []
  payload_lt := Nat.two_pow_pos 32
  serialize_eq := rfl

/--
`set_request_and_serialize` for the reply to an echo request, which keeps its xid.
There is none where serializing ends the program.
-/
def echoReplyMessage? (xid : UInt32) (data : Bytes) : Option SerializedMessage :=
  match hbytes : serializeEcho 1 Ofpt.echoReply xid data with
  | .error _ => none
  | .ok bytes =>
      if hdata : data.length < 2 ^ 32 then
        some {
          message := .echoReply 1 xid data
          junk := fun _ => 0
          bytes := bytes
          payload_lt := hdata
          serialize_eq := hbytes }
      else none

def ControllerMessage.isEchoReply : ControllerMessage → Bool
  | .echoReply .. => true
  | _ => false

/-! ## The session -/

/-- Where `hal::init` is, by what it does next. -/
inductive SessionPhase where
  | sayHello
  | awaitHello
  | configure
  | requestEcho
  | awaitEcho
  | failed
  /-- Its threads have been started. -/
  | running
deriving DecidableEq, Repr

/-- The HAL with one connection. -/
structure HalSession where
  phase : SessionPhase := .sayHello
  connection : Tcp
  /-- `socket_buf` of `hal::init`, then `sock_buf` of the receive loop. -/
  socketBuf : OwnedAutobuf := {}
  recvLoopEnded : Bool := false
  sendLoopEnded : Bool := false
  asynchronousMessages : List OfMessage := []
  pendingTransactions : List SerializedMessage := []
  /-- What the send loop dequeued and has not sent yet. -/
  sending : Option SerializedMessage := none
  /-- Ghost: the messages that went out whole, in order. -/
  sent : List SerializedMessage := []
  /-- Ghost: all the bytes that went out. -/
  output : Bytes := []
  /-- Ghost: whatever was put into `pending_transactions`, in order. -/
  enqueued : List SerializedMessage := []
  /-- Ghost: the messages of the switch that were processed, in order. -/
  processed : List OfMessage := []

/-- What can happen next. -/
inductive SessionInput where
  /-- `hal::init` sends its next message, with what `reserve_xid` came to. -/
  | sendNext (xid : UInt32) (outcomes : List SendOutcome)
  /-- A message is read, by `hal::init` or by the receive loop. -/
  | receive (junk : Nat → UInt8)
  /-- A service enqueues a transaction. -/
  | enqueue (m : SerializedMessage)
  /-- The send loop dequeues a transaction. -/
  | dequeue
  /-- The send loop sends what it dequeued. -/
  | send (outcomes : List SendOutcome)
  /-- The next message of the switch is processed. -/
  | process

namespace HalSession

/-- `send_raw` for a message, and the history of what went out. -/
def sendRaw (s : HalSession) (outcomes : List SendOutcome) (m : SerializedMessage) : Bool × HalSession :=
  let (status, bytes, connection) := s.connection.sendRaw outcomes m.bytes
  (status, { s with
    connection := connection
    sent := if status then s.sent ++ [m] else s.sent
    output := s.output ++ bytes })

/-- `hal::init` gives up: the connection is closed. -/
def fail (s : HalSession) : HalSession :=
  { s with phase := .failed, connection := s.connection.close }

/-- A send of `hal::init`, and what it does next if that works. -/
def sendOr (s : HalSession) (outcomes : List SendOutcome) (m : SerializedMessage) (next : SessionPhase) :
    HalSession :=
  let (status, s) := s.sendRaw outcomes m
  if status then { s with phase := next } else s.fail

/-- The three sends of `hal::init`. -/
def sendNext (s : HalSession) (xid : UInt32) (outcomes : List SendOutcome) : Option HalSession :=
  match s.phase with
  | .sayHello => some (s.sendOr outcomes (helloMessage xid) .awaitHello)
  | .configure => some (s.sendOr outcomes (setConfigMessage xid) .requestEcho)
  | .requestEcho => some (s.sendOr outcomes (echoRequestMessage xid) .awaitEcho)
  | _ => none

/-- The message is kept for the loop that processes messages. -/
def keep (s : HalSession) (m : OfMessage) : HalSession :=
  { s with asynchronousMessages := s.asynchronousMessages ++ [m] }

/-- What is done with a message that was read. -/
def take (s : HalSession) (m : OfMessage) : HalSession :=
  match s.phase with
  | .awaitHello => if m.msgType = Ofpt.hello then { s with phase := .configure } else s.keep m
  -- the receive loop begins with a buffer of its own
  | .awaitEcho =>
      if m.msgType = Ofpt.echoReply then { s with phase := .running, socketBuf := {} } else s.keep m
  | _ => s.keep m

/-- No message could be read, or none was recognised. -/
def receiveNone (s : HalSession) : HalSession :=
  match s.phase with
  | .running => { s with recvLoopEnded := true }
  | _ => s.fail

/-- Messages are being waited for. -/
def receiving (s : HalSession) : Bool :=
  match s.phase with
  | .awaitHello | .awaitEcho => true
  | .running => !s.recvLoopEnded
  | _ => false

/--
A turn of one of the loops around `get_next_openflow_message`. There is no state
behind a fault, which ends the program.
-/
def receive (s : HalSession) (junk : Nat → UInt8) : Option HalSession :=
  if s.receiving then
    let call := NetUtils.getNextOpenflowMessage junk s.connection s.socketBuf
    let s := { s with connection := call.connection, socketBuf := call.buf }
    match call.returned with
    | .error _ => none
    | .ok none => some s.receiveNone
    | .ok (some m) => some (s.take m)
  else none

/-- `pending_transactions.enqueue`. -/
def enqueue (s : HalSession) (m : SerializedMessage) : HalSession :=
  { s with
    pendingTransactions := s.pendingTransactions ++ [m]
    enqueued := s.enqueued ++ [m] }

/-- `send_loop_entrypoint`, up to `send_raw`. -/
def dequeue (s : HalSession) : Option HalSession :=
  match s.phase, s.sending, s.pendingTransactions with
  | .running, none, m :: rest => some { s with pendingTransactions := rest, sending := some m }
  | _, _, _ => none

/-- `send_loop_entrypoint`, from `send_raw` on. A failure ends the loop. -/
def send (s : HalSession) (outcomes : List SendOutcome) : Option HalSession :=
  if s.sendLoopEnded then none
  else s.sending.map fun m =>
    let (status, s) := s.sendRaw outcomes m
    if status then { s with sending := none } else { s with sendLoopEnded := true }

/--
`process_message_loop_entrypoint`, as far as it answers the switch. The callbacks of the other
messages, some of which can end the program, are left out.
-/
def process (s : HalSession) : Option HalSession :=
  match s.phase, s.asynchronousMessages with
  | .running, m :: rest =>
      let s := { s with asynchronousMessages := rest, processed := s.processed ++ [m] }
      match m with
      | .echoRequest header data => (echoReplyMessage? header.xid data).map s.enqueue
      | _ => some s
  | _, _ => none

/-- One step of the session; `none` where the input cannot happen, or ends the program. -/
def step (s : HalSession) : SessionInput → Option HalSession
  | .sendNext xid outcomes => s.sendNext xid outcomes
  | .receive junk => s.receive junk
  -- no service answers echo requests
  | .enqueue m => if m.message.isEchoReply then none else some (s.enqueue m)
  | .dequeue => s.dequeue
  | .send outcomes => s.send outcomes
  | .process => s.process

end HalSession

end IronStack
