import IronStack.WriteableAutobuf
import IronStack.Lib.HaltingMonitor

/-!
# `bounded_buffer`

Bytes that are passed on from writers to readers. A writer waits as long as the buffer is
full with what he brings, a reader until there are as many bytes as he wants, each on a
condition variable of their own. The buffer underneath aborts where it lacks memory.
-/

namespace IronStack

open Lib

/-- `bounded_buffer`, as it is made with no other maximum. -/
structure BoundedBuffer where
  maxSize : UInt32 := 32768
  buf : WriteableAutobuf := {}

/-- A call of one of the methods. -/
inductive BufferCall where
  | enqueue (incomingBuf : Chunk)
  | forceEnqueue (incomingBuf : Chunk)
  | dequeue (maxReadSize : UInt32)
  | dequeueExact (readSize : UInt32)
  | setMax (max : UInt32)

/-- A call, and whether there is memory to be found when it gets past the wait. -/
structure BufferRequest where
  call : BufferCall
  found : Bool

/-- The condition variables. -/
inductive BufferCond where
  | full
  | empty
deriving DecidableEq

namespace BoundedBuffer

/-- The condition of the loop in `enqueue`, whose sum is one of 32 bits. -/
def isFull (b : BoundedBuffer) (incoming : Nat) : Bool :=
  b.maxSize > 0 && (b.buf.contentSize + incoming) % 2 ^ 32 ≥ b.maxSize.toNat

/-- The conditions of the loops. -/
def mustWait (b : BoundedBuffer) : BufferCall → Bool
  | .enqueue incomingBuf => b.isFull incomingBuf.bytes.length
  | .dequeue _ => b.buf.contentSize == 0
  | .dequeueExact readSize => b.buf.contentSize < readSize.toNat
  | .forceEnqueue _ | .setMax _ => false

/-- `bounded_buffer::force_enqueue`, and `enqueue` behind its wait. -/
def put (junk : Nat → UInt8) (found : Bool) (b : BoundedBuffer) (incomingBuf : Bytes) :
    Read (BoundedBuffer × Bytes) := do
  let buf ← b.buf.plusOther junk found incomingBuf
  return ({ b with buf := buf }, [])

/-- What `dequeue` and `dequeue_exact` do behind their waits: so many bytes are read and trimmed. -/
def take (junk : Nat → UInt8) (found : Bool) (b : BoundedBuffer) (readSize : Nat) :
    Read (BoundedBuffer × Bytes) := do
  let bytes ← b.buf.toOwnedAutobuf.readFront readSize
  let result ← ({} : WriteableAutobuf).setContent junk found bytes
  let trimmed := { b.buf with toOwnedAutobuf := b.buf.toOwnedAutobuf.trimFront readSize }
  return ({ b with buf := trimmed }, result.content)

/-- A method behind its wait. Nothing is returned but by the readers. -/
def perform (junk : Nat → UInt8) (b : BoundedBuffer) (r : BufferRequest) :
    Read (BoundedBuffer × Bytes) :=
  match r.call with
  | .enqueue incomingBuf | .forceEnqueue incomingBuf => b.put junk r.found incomingBuf.bytes
  | .dequeue maxReadSize =>
      let readSize :=
        if b.buf.contentSize ≥ maxReadSize.toNat then maxReadSize.toNat else b.buf.contentSize
      b.take junk r.found readSize
  | .dequeueExact readSize => b.take junk r.found readSize.toNat
  | .setMax max => return ({ b with maxSize := max }, [])

/-- What a method notifies. The readers notify nobody. -/
def notifies (b : BoundedBuffer) (r : BufferRequest) (cond : BufferCond) : Bool :=
  match r.call with
  | .enqueue _ | .forceEnqueue _ => cond == .empty
  | .dequeue _ | .dequeueExact _ => false
  | .setMax max => b.maxSize != max && cond == .full

end BoundedBuffer

/-- `bounded_buffer` as a monitor. -/
def boundedBuffer (junk : Nat → UInt8) :
    HaltingMonitor BoundedBuffer BufferRequest Bytes BufferCond Fault where
  mustWait b r := b.mustWait r.call
  perform := BoundedBuffer.perform junk
  waitsOn r :=
    match r.call with
    | .enqueue _ => .full
    | .dequeue _ | .dequeueExact _ => .empty
    -- these two do not wait
    | .forceEnqueue _ | .setMax _ => .full
  notifies := BoundedBuffer.notifies

end IronStack
