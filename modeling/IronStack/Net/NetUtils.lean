import IronStack.Net.Tcp
import IronStack.OpenFlow.Message

/-!
# `net_utils::get_next_openflow_message`

A message is read in two parts, its header and the balance, into a buffer that is
used again for the next message.
-/

namespace IronStack

open Lib

/-- A call of `get_next_openflow_message`: what the decoder was handed, and what came of it. -/
structure MessageCall where
  handed : Option Bytes
  returned : Read (Option OfMessage)
  connection : Tcp
  buf : OwnedAutobuf

namespace NetUtils

/-- The balance of the message, behind the header that is in the buffer. -/
def receiveBalance (junk : Nat → UInt8) (connection : Tcp) (buf : OwnedAutobuf) (bytesToRead : Nat) :
    Read (Option Bytes × Tcp × OwnedAutobuf) := do
  if bytesToRead = 0 then return (some buf.content, connection, buf)
  else
    let buf ← buf.createEmptyBuffer junk ((bytesToRead + 8) % 2 ^ 32) false
    ptrOffsetMutable buf.contentSize 8
    let (status, connection, memory) ←
      connection.recvFixedBytes buf.writeableBuf (buf.beginOffset + 8) (asInt bytesToRead)
    let buf := { buf with writeableBuf := memory }
    if status then return (some buf.content, connection, buf) else return (none, connection, buf)

/-- `get_next_openflow_message` up to the decoder, and the content that the decoder is handed. -/
def receiveMessage (junk : Nat → UInt8) (connection : Tcp) (buf : OwnedAutobuf) :
    Read (Option Bytes × Tcp × OwnedAutobuf) := do
  let (status, connection, buf) ← connection.recvFixedBytesInto junk buf 8
  if status then
    let length ← readU16 (buf.writeableBuf.drop buf.beginOffset) 2
    -- a difference in `size_t`, cut down to a `uint32_t`
    receiveBalance junk connection buf (subU32 length.toNat 8)
  else return (none, connection, buf)

/-- `ironstack::net_utils::get_next_openflow_message`. -/
def getNextOpenflowMessage (junk : Nat → UInt8) (connection : Tcp) (buf : OwnedAutobuf) :
    MessageCall :=
  match receiveMessage junk connection buf with
  | .error fault => ⟨none, .error fault, connection, buf⟩
  | .ok (none, connection, buf) => ⟨none, .ok none, connection, buf⟩
  | .ok (some content, connection, buf) =>
      ⟨some content, OfMessage.deserializeMessage content, connection, buf⟩

/-- Calls one after the other with the same buffer, until the last of `n` or a fault. -/
def calls (junk : Nat → UInt8) : Nat → Tcp → OwnedAutobuf → List MessageCall
  | 0, _, _ => []
  | n + 1, connection, buf =>
      let call := getNextOpenflowMessage junk connection buf
      match call.returned with
      | .error _ => [call]
      | .ok _ => call :: calls junk n call.connection call.buf

end NetUtils

end IronStack
