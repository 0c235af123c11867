import IronStack.Autobuf

/-!
# `autobuf`: trimming, concatenating, reading

The methods that change an owned buffer in place or move it, and those that read a part
of it into plain memory or into another buffer.
-/

namespace IronStack

open Lib

namespace OwnedAutobuf

/-- `memcpy` to `get_content_ptr() + off`. -/
def store (buf : OwnedAutobuf) (off : Nat) (bytes : Bytes) : Read OwnedAutobuf := do
  let memory ← overwrite buf.writeableBuf (buf.beginOffset + off) bytes
  return { buf with writeableBuf := memory }

/-- `memcpy` from `get_content_ptr() + off`. -/
def load (buf : OwnedAutobuf) (off len : Nat) : Read Bytes :=
    slice buf.writeableBuf (buf.beginOffset + off) len

/-- `autobuf::ptr_offset_const`, which only refuses what is negative as an `int`. -/
def ptrOffsetConst (offset : Nat) : Read Unit :=
  if asInt offset < 0 then .error .aborted else .ok ()

/-- `autobuf::operator[]`, whose offset is an `int`, as the size is then. -/
def byteAt (buf : OwnedAutobuf) (offset : Int) : Read UInt8 :=
  if offset < 0 ∨ offset ≥ asInt buf.contentSize then .error .aborted
  else readU8 buf.writeableBuf (buf.beginOffset + offset.toNat)

/-- `autobuf::trim_front`. -/
def trimFront (buf : OwnedAutobuf) (len : Nat) : OwnedAutobuf :=
  if len ≥ buf.contentSize then { buf with beginOffset := buf.contentSize, contentSize := 0 }
  else { buf with
    beginOffset := (buf.beginOffset + len) % 2 ^ 32
    contentSize := buf.contentSize - len }

/-- `autobuf::trim_rear`. -/
def trimRear (buf : OwnedAutobuf) (len : Nat) : OwnedAutobuf :=
  if len ≥ buf.contentSize then { buf with contentSize := 0 }
  else { buf with contentSize := buf.contentSize - len }

/-- `autobuf::append`, which does not look at what `alloc` says. -/
def append (junk : Nat → UInt8) (buf : OwnedAutobuf) (bytes : Bytes) : Read OwnedAutobuf :=
  if bytes.length = 0 then .ok buf
  else do
    let buf := (buf.alloc junk ((buf.contentSize + bytes.length) % 2 ^ 32)).1
    let buf ← buf.store buf.contentSize bytes
    return { buf with contentSize := (buf.contentSize + bytes.length) % 2 ^ 32 }

theorem contentSize_alloc (junk : Nat → UInt8) (buf : OwnedAutobuf) (size : Nat) :
    (buf.alloc junk size).1.contentSize = buf.contentSize := by
  have hmoved : buf.moved.contentSize = buf.contentSize := by
    unfold moved
    split
    · rfl
    · rfl
  unfold alloc
  dsimp only
  split
  · exact hmoved
  · split
    · exact hmoved
    · exact hmoved

theorem contentSize_store {buf stored : OwnedAutobuf} {off : Nat} {bytes : Bytes}
    (h : buf.store off bytes = .ok stored) : stored.contentSize = buf.contentSize := by
  obtain ⟨memory, _, h⟩ := bind_eq_ok.mp h
  cases h
  rfl

theorem contentSize_append {junk : Nat → UInt8} {buf grown : OwnedAutobuf} {bytes : Bytes}
    (hsome : bytes ≠ []) (h : buf.append junk bytes = .ok grown) :
    grown.contentSize = (buf.contentSize + bytes.length) % 2 ^ 32 := by
  rw [append, if_neg (by rwa [List.length_eq_zero_iff])] at h
  obtain ⟨stored, hstored, h⟩ := bind_eq_ok.mp h
  cases h
  dsimp only
  rw [contentSize_store hstored, contentSize_alloc]

/-- `autobuf::prepend`, into what a trim has left in front or into room made for it. -/
def prepend (junk : Nat → UInt8) (buf : OwnedAutobuf) (bytes : Bytes) : Read OwnedAutobuf :=
  if bytes.length = 0 then .ok buf
  else if buf.beginOffset ≥ bytes.length then do
    let buf ← { buf with beginOffset := buf.beginOffset - bytes.length }.store 0 bytes
    return { buf with contentSize := (buf.contentSize + bytes.length) % 2 ^ 32 }
  else
    match buf.alloc junk ((buf.contentSize + bytes.length) % 2 ^ 32) with
    | (_, false) => .error .aborted
    | (buf, true) => do
        -- the offset is checked against the size before the prepending
        ptrOffsetMutable buf.contentSize bytes.length
        let old ← buf.load 0 buf.contentSize
        let buf ← buf.store bytes.length old
        let buf ← buf.store 0 bytes
        return { buf with contentSize := (buf.contentSize + bytes.length) % 2 ^ 32 }

/-- `autobuf::operator+=`, with the buffer itself. -/
def plusSelf (junk : Nat → UInt8) (buf : OwnedAutobuf) : Read OwnedAutobuf :=
  if buf.contentSize > 0 then
    match buf.alloc junk (buf.contentSize * 2 % 2 ^ 32) with
    | (_, false) => .error .aborted
    | (buf, true) => do
        let bytes ← buf.load 0 buf.contentSize
        let buf ← buf.store buf.contentSize bytes
        return { buf with contentSize := buf.contentSize * 2 % 2 ^ 32 }
  else .ok buf

/-- `autobuf::operator+=`, with the content of another buffer. -/
def plusOther (junk : Nat → UInt8) (buf : OwnedAutobuf) (other : Bytes) : Read OwnedAutobuf :=
  if other.length = 0 then .ok buf
  else if buf.contentSize = 0 then buf.setContent junk other
  else
    let totalSize := (buf.contentSize + other.length) % 2 ^ 32
    match buf.alloc junk totalSize with
    | (_, false) => .error .aborted
    | (buf, true) => do
        let buf ← buf.store buf.contentSize other
        return { buf with contentSize := totalSize }

/-- `autobuf::grow_buffer`. -/
def growBuffer (junk : Nat → UInt8) (buf : OwnedAutobuf) (size : Nat) (zero : Bool) : Read OwnedAutobuf := do
  let oldSize := buf.contentSize
  let buf ← buf.createEmptyBuffer junk size false
  if zero && decide (size > oldSize) then
    ptrOffsetMutable buf.contentSize oldSize
    buf.store oldSize (List.replicate (size - oldSize) 0)
  else return buf

/-- `autobuf::read_front`, into plain memory. -/
def readFront (buf : OwnedAutobuf) (len : Nat) : Read Bytes :=
  if len > buf.contentSize then .error .aborted else buf.load 0 len

/-- `autobuf::read_rear`, into plain memory. -/
def readRear (buf : OwnedAutobuf) (len : Nat) : Read Bytes :=
  if len > buf.contentSize then .error .aborted
  else do
    ptrOffsetConst (buf.contentSize - len)
    buf.load (buf.contentSize - len) len

/-- `autobuf::read`, into plain memory. -/
def read (buf : OwnedAutobuf) (offset len : Nat) : Read Bytes :=
  if (offset + len) % 2 ^ 32 > buf.contentSize then .error .aborted
  else do
    ptrOffsetConst offset
    buf.load offset len

/-- `autobuf::read_front`, into another buffer. -/
def readFrontTo (junk : Nat → UInt8) (buf dest : OwnedAutobuf) (len : Nat) : Read OwnedAutobuf :=
  if len > buf.contentSize then .error .aborted
  else do
    let bytes ← buf.load 0 len
    dest.setContent junk bytes

/-- `autobuf::read_rear`, into another buffer: from the end of the content back. -/
def readRearTo (junk : Nat → UInt8) (buf dest : OwnedAutobuf) (len : Nat) : Read OwnedAutobuf :=
  if len > buf.contentSize then .error .aborted
  else do
    ptrOffsetConst buf.contentSize
    let bytes ← buf.load (buf.contentSize - len) len
    dest.setContent junk bytes

/-- `autobuf::read`, into another buffer. -/
def readTo (junk : Nat → UInt8) (buf dest : OwnedAutobuf) (offset len : Nat) : Read OwnedAutobuf :=
  if (offset + len) % 2 ^ 32 > buf.contentSize then .error .aborted
  else do
    ptrOffsetConst offset
    let bytes ← buf.load offset len
    dest.setContent junk bytes

end OwnedAutobuf

/-- What can be asked of a buffer. -/
inductive AutobufOp
  | setContent (src : Bytes)
  | append (bytes : Bytes)
  | prepend (bytes : Bytes)
  | plusSelf
  | plusOther (other : Bytes)
  | trimFront (len : Nat)
  | trimRear (len : Nat)
  | growBuffer (size : Nat)
  | readFront (len : Nat)
  | readRear (len : Nat)
  | read (offset len : Nat)
  | readFrontTo (dest : OwnedAutobuf) (len : Nat)
  | readRearTo (dest : OwnedAutobuf) (len : Nat)
  | readTo (dest : OwnedAutobuf) (offset len : Nat)

namespace AutobufOp

/-- The buffer after an operation, and the bytes that were read. -/
def step (junk : Nat → UInt8) (buf : OwnedAutobuf) : AutobufOp → Read (OwnedAutobuf × Bytes)
  | setContent src => (buf.setContent junk src).map (·, [])
  | append bytes => (buf.append junk bytes).map (·, [])
  | prepend bytes => (buf.prepend junk bytes).map (·, [])
  | plusSelf => (buf.plusSelf junk).map (·, [])
  | plusOther other => (buf.plusOther junk other).map (·, [])
  | trimFront len => .ok (buf.trimFront len, [])
  | trimRear len => .ok (buf.trimRear len, [])
  | growBuffer size => (buf.growBuffer junk size true).map (·, [])
  | readFront len => (buf.readFront len).map (buf, ·)
  | readRear len => (buf.readRear len).map (buf, ·)
  | read offset len => (buf.read offset len).map (buf, ·)
  | readFrontTo dest len => (buf.readFrontTo junk dest len).map fun dest => (buf, dest.content)
  | readRearTo dest len => (buf.readRearTo junk dest len).map fun dest => (buf, dest.content)
  | readTo dest offset len => (buf.readTo junk dest offset len).map fun dest => (buf, dest.content)

end AutobufOp

end IronStack
