import IronStack.AutobufEdits

/-!
# `autobuf`, owned or shared

The methods of a buffer that may be written, whether the region that it writes to is its own
or somebody else's. Memory may be lacking, and the arguments are any words. The bytes of
another buffer come in as they are, and those that are read go out.
-/

namespace IronStack

open Lib

/-- What `writeable_buf` points to. -/
inductive Pointer where
  | null
  | region
  /-- A region that `realloc` has freed. -/
  | freed
deriving DecidableEq

/-- An `autobuf` that is not read-only. -/
structure WriteableAutobuf extends OwnedAutobuf where
  ownsMemory : Bool := true
  pointer : Pointer := .null

/-- The content lies within the region, and the size on record is that of the region. -/
structure Bounded (buf : WriteableAutobuf) : Prop where
  within : buf.beginOffset + buf.contentSize ≤ buf.writeableBuf.length
  bufSize_eq : buf.bufSize = buf.writeableBuf.length
  bufSize_lt : buf.bufSize < 2 ^ 32
  live : buf.pointer ≠ .freed
  null : buf.pointer = .null → buf.writeableBuf = []

structure BoundedAutobuf extends WriteableAutobuf where
  bounded : Bounded toWriteableAutobuf

/-- Bytes whose number is a word. -/
structure Chunk where
  bytes : Bytes
  lt : bytes.length < 2 ^ 32

/-- The arguments of `inherit_shared`, and a region as large as they say. -/
structure SharedRegion where
  memory : Bytes
  size : UInt32
  maxSize : UInt32
  length_eq : memory.length = if maxSize = 0 then size.toNat else maxSize.toNat

namespace WriteableAutobuf

/-- `memcpy` to `get_content_ptr() + off`. -/
def store (buf : WriteableAutobuf) (off : Nat) (bytes : Bytes) : Read WriteableAutobuf := do
  let memory ← overwrite buf.writeableBuf (buf.beginOffset + off) bytes
  return { buf with writeableBuf := memory }

/-- The content moved to the front of the region. -/
def realign (buf : WriteableAutobuf) : Read WriteableAutobuf :=
  if buf.beginOffset > 0 then do
    let content ← buf.toOwnedAutobuf.load 0 buf.contentSize
    let memory ← overwrite buf.writeableBuf 0 content
    return { buf with writeableBuf := memory, beginOffset := 0 }
  else return buf

/--
`autobuf::alloc`. A region that is asked for is found or not. If it has no bytes, a region that
was there is freed instead.
-/
def alloc (junk : Nat → UInt8) (found : Bool) (buf : WriteableAutobuf) (size : Nat) :
    Read (WriteableAutobuf × Bool) :=
  if buf.ownsMemory then do
    let buf ← buf.realign
    if (buf.beginOffset + size) % 2 ^ 32 ≤ buf.bufSize then return (buf, true)
    else if buf.pointer = .freed then .error .outOfBounds
    else if buf.pointer = .region ∧ OwnedAutobuf.requiredSize size = 0 then
      return ({ buf with writeableBuf := [], pointer := .freed }, false)
    else if found then
      return ({ buf with
        writeableBuf := realloc junk buf.writeableBuf (OwnedAutobuf.requiredSize size)
        bufSize := OwnedAutobuf.requiredSize size
        pointer := .region }, true)
    else return (buf, false)
  else return (buf, decide ((buf.beginOffset + size) % 2 ^ 32 ≤ buf.bufSize))

/-- `autobuf::clear`. -/
def clear (buf : WriteableAutobuf) : WriteableAutobuf := { buf with contentSize := 0 }

/-- `autobuf::reset`, which frees a region of its own. -/
def reset (buf : WriteableAutobuf) : Read WriteableAutobuf :=
  if buf.ownsMemory ∧ buf.pointer = .freed then .error .outOfBounds else .ok {}

/-- `autobuf::set_content`. -/
def setContent (junk : Nat → UInt8) (found : Bool) (buf : WriteableAutobuf) (srcBuf : Bytes) :
    Read WriteableAutobuf := do
  let (buf, status) ← buf.alloc junk found srcBuf.length
  if status then
    let buf ← buf.store 0 srcBuf
    return { buf with contentSize := srcBuf.length, beginOffset := 0 }
  else .error .aborted

/-- `autobuf::inherit_shared`. -/
def inheritShared (buf : WriteableAutobuf) (src : SharedRegion) : Read WriteableAutobuf := do
  let buf ← buf.reset
  return { buf with
    ownsMemory := false
    writeableBuf := src.memory
    pointer := .region
    contentSize := src.size.toNat
    bufSize := if src.maxSize = 0 then src.size.toNat else src.maxSize.toNat }

/-- `autobuf::memcpy_from`, whose check adds to a pointer of 64 bits. -/
def memcpyFrom (buf : WriteableAutobuf) (srcBuf : Bytes) (offset : Nat) : Read WriteableAutobuf :=
  if srcBuf.length + buf.beginOffset + offset > buf.bufSize then .error .aborted
  else do
    ptrOffsetMutable buf.contentSize offset
    buf.store offset srcBuf

/-- `autobuf::memcpy_to`. -/
def memcpyTo (buf : WriteableAutobuf) (size offset : Nat) : Read Bytes :=
  if (offset + size) % 2 ^ 32 > buf.contentSize then .error .aborted
  else if buf.pointer = .null then .error .aborted
  else do
    OwnedAutobuf.ptrOffsetConst offset
    buf.toOwnedAutobuf.load offset size

/-- `autobuf::read_rear`, as it reads for another buffer: from the end of the content back. -/
def readRearTo (buf : WriteableAutobuf) (len : Nat) : Read Bytes :=
  if len > buf.contentSize then .error .aborted
  else do
    OwnedAutobuf.ptrOffsetConst buf.contentSize
    buf.toOwnedAutobuf.load (buf.contentSize - len) len

/-- `autobuf::operator+=`, with the buffer itself. -/
def plusSelf (junk : Nat → UInt8) (found : Bool) (buf : WriteableAutobuf) : Read WriteableAutobuf :=
  if buf.contentSize > 0 then do
    let (buf, status) ← buf.alloc junk found (buf.contentSize * 2 % 2 ^ 32)
    if status then
      let bytes ← buf.toOwnedAutobuf.load 0 buf.contentSize
      let buf ← buf.store buf.contentSize bytes
      return { buf with contentSize := buf.contentSize * 2 % 2 ^ 32 }
    else .error .aborted
  else return buf

/-- `autobuf::operator+=`, with the content of another buffer. -/
def plusOther (junk : Nat → UInt8) (found : Bool) (buf : WriteableAutobuf) (other : Bytes) :
    Read WriteableAutobuf :=
  if other.length = 0 then return buf
  else if buf.contentSize = 0 then buf.setContent junk found other
  else do
    let totalSize := (buf.contentSize + other.length) % 2 ^ 32
    let (buf, status) ← buf.alloc junk found totalSize
    if status then
      let buf ← buf.store buf.contentSize other
      return { buf with contentSize := totalSize }
    else .error .aborted

/-- `autobuf::append`, which does not look at what `alloc` says. -/
def append (junk : Nat → UInt8) (found : Bool) (buf : WriteableAutobuf) (bytes : Bytes) :
    Read WriteableAutobuf :=
  if bytes.length = 0 then return buf
  else do
    let (buf, _) ← buf.alloc junk found ((buf.contentSize + bytes.length) % 2 ^ 32)
    let buf ← buf.store buf.contentSize bytes
    return { buf with contentSize := (buf.contentSize + bytes.length) % 2 ^ 32 }

/-- `autobuf::prepend`, into what a trim has left in front or into room made for it. -/
def prepend (junk : Nat → UInt8) (found : Bool) (buf : WriteableAutobuf) (bytes : Bytes) :
    Read WriteableAutobuf :=
  if bytes.length = 0 then return buf
  else if buf.beginOffset ≥ bytes.length then do
    let buf ← { buf with beginOffset := buf.beginOffset - bytes.length }.store 0 bytes
    return { buf with contentSize := (buf.contentSize + bytes.length) % 2 ^ 32 }
  else do
    let (buf, status) ← buf.alloc junk found ((buf.contentSize + bytes.length) % 2 ^ 32)
    if status then
      ptrOffsetMutable buf.contentSize bytes.length
      let old ← buf.toOwnedAutobuf.load 0 buf.contentSize
      let buf ← buf.store bytes.length old
      let buf ← buf.store 0 bytes
      return { buf with contentSize := (buf.contentSize + bytes.length) % 2 ^ 32 }
    else .error .aborted

/--
`autobuf::load`, from no file or one of which `fread` reads so many bytes. The size of the file
is cut off to 32 bits where memory is asked for.
-/
def load (junk : Nat → UInt8) (found : Bool) (buf : WriteableAutobuf) (file : Option Bytes) (got : Nat) :
    Read WriteableAutobuf := do
  let buf ← buf.reset
  match file with
  | none => return buf
  | some bytes =>
      if bytes.length = 0 then return buf
      else
        let (buf, status) ← buf.alloc junk found (bytes.length % 2 ^ 32)
        if status then
          let buf ← buf.store 0 (bytes.take got)
          if got < bytes.length then buf.reset
          else return { buf with contentSize := bytes.length % 2 ^ 32 }
        else .error .aborted

/-- `autobuf::reserve`. -/
def reserve (junk : Nat → UInt8) (found : Bool) (buf : WriteableAutobuf) (size : Nat) :
    Read WriteableAutobuf := do
  let (buf, _) ← buf.alloc junk found size
  return buf

/-- `autobuf::create_empty_buffer`, which does not look at what `alloc` says. -/
def createEmptyBuffer (junk : Nat → UInt8) (found : Bool) (buf : WriteableAutobuf) (size : Nat)
    (zero : Bool) : Read WriteableAutobuf := do
  let (buf, _) ← buf.alloc junk found size
  let buf := { buf with contentSize := size }
  if zero then buf.store 0 (List.replicate size 0) else return buf

/-- `autobuf::grow_buffer`. -/
def growBuffer (junk : Nat → UInt8) (found : Bool) (buf : WriteableAutobuf) (size : Nat)
    (zero : Bool) : Read WriteableAutobuf := do
  let oldSize := buf.contentSize
  let buf ← buf.createEmptyBuffer junk found size false
  if zero && decide (size > oldSize) then
    ptrOffsetMutable buf.contentSize oldSize
    buf.store oldSize (List.replicate (size - oldSize) 0)
  else return buf

/-- The pages that a number of bytes takes. -/
def pages (size : Nat) : Nat := size / 4096 + if size % 4096 > 0 then 1 else 0

/-- `autobuf::shrink`, which drops the pointer to the new region. -/
def shrink (found : Bool) (buf : WriteableAutobuf) : Read WriteableAutobuf :=
  if ¬ buf.ownsMemory then .error .aborted
  else if buf.contentSize = 0 then buf.reset
  else
    let numberOfPages := pages buf.contentSize
    let actualPages := pages buf.bufSize
    if numberOfPages > actualPages then do
      let buf ← buf.realign
      let totalBytes := numberOfPages * 4096 % 2 ^ 32
      if ¬ found ∨ totalBytes = 0 then .error .aborted
      else return { buf with writeableBuf := [], pointer := .freed, bufSize := totalBytes }
    else return buf

/-- `autobuf::operator=`, from another buffer: a copy of an owned one, or a share in what it shares. -/
def assign (junk : Nat → UInt8) (found : Bool) (buf original : WriteableAutobuf) :
    Read WriteableAutobuf := do
  let buf ← buf.reset
  if original.ownsMemory then
    let (buf, _) ← buf.alloc junk found original.contentSize
    let bytes ← original.toOwnedAutobuf.load 0 original.contentSize
    let memory ← overwrite buf.writeableBuf 0 bytes
    return { buf with writeableBuf := memory, contentSize := original.contentSize }
  else return original

/-- `autobuf::copy_as_shared`, of which the size of the region is that of the whole. -/
def copyAsShared (original : WriteableAutobuf) : WriteableAutobuf where
  ownsMemory := false
  writeableBuf := original.writeableBuf.drop original.beginOffset
  pointer := original.pointer
  contentSize := original.contentSize
  bufSize := original.bufSize

end WriteableAutobuf

/-- A call of a method, with any arguments. -/
inductive AutobufCall where
  | clear
  | reset
  | setContent (srcBuf : Chunk)
  | inheritShared (src : SharedRegion)
  | memcpyFrom (srcBuf : Chunk) (offset : UInt32)
  | memcpyTo (size offset : UInt32)
  | byteAt (offset : Int32)
  | readFront (len : UInt32)
  | readRear (len : UInt32)
  | readRearTo (len : UInt32)
  | read (offset len : UInt32)
  | trimFront (len : UInt32)
  | trimRear (len : UInt32)
  | plusSelf
  | plusOther (other : Chunk)
  | append (buf : Chunk)
  | prepend (buf : Chunk)
  | load (file : Option Bytes) (got : Nat)
  | reserve (size : UInt32)
  | createEmptyBuffer (size : UInt32) (zero : Bool)
  | growBuffer (size : UInt32) (zero : Bool)
  | shrink
  | assign (original : BoundedAutobuf)
  | copyAsShared (original : BoundedAutobuf)

namespace AutobufCall

variable (junk : Nat → UInt8) (found : Bool) (buf : WriteableAutobuf)

/-- The buffer after a call. -/
def apply : AutobufCall → Read WriteableAutobuf
  | clear => return buf.clear
  | reset => buf.reset
  | setContent srcBuf => buf.setContent junk found srcBuf.bytes
  | inheritShared src => buf.inheritShared src
  | memcpyFrom srcBuf offset => buf.memcpyFrom srcBuf.bytes offset.toNat
  | memcpyTo size offset => (buf.memcpyTo size.toNat offset.toNat).map fun _ => buf
  | byteAt offset => (buf.toOwnedAutobuf.byteAt offset.toInt).map fun _ => buf
  | readFront len => (buf.toOwnedAutobuf.readFront len.toNat).map fun _ => buf
  | readRear len => (buf.toOwnedAutobuf.readRear len.toNat).map fun _ => buf
  | readRearTo len => (buf.readRearTo len.toNat).map fun _ => buf
  | read offset len => (buf.toOwnedAutobuf.read offset.toNat len.toNat).map fun _ => buf
  | trimFront len => return { buf with toOwnedAutobuf := buf.toOwnedAutobuf.trimFront len.toNat }
  | trimRear len => return { buf with toOwnedAutobuf := buf.toOwnedAutobuf.trimRear len.toNat }
  | plusSelf => buf.plusSelf junk found
  | plusOther other => buf.plusOther junk found other.bytes
  | append bytes => buf.append junk found bytes.bytes
  | prepend bytes => buf.prepend junk found bytes.bytes
  | load file got => buf.load junk found file got
  | reserve size => buf.reserve junk found size.toNat
  | createEmptyBuffer size zero => buf.createEmptyBuffer junk found size.toNat zero
  | growBuffer size zero => buf.growBuffer junk found size.toNat zero
  | shrink => buf.shrink found
  | assign original => buf.assign junk found original.toWriteableAutobuf
  | copyAsShared original => do
      let _ ← buf.reset
      return original.toWriteableAutobuf.copyAsShared

end AutobufCall

/-- A call, and whether there is memory to be found for it. -/
structure AutobufInput where
  call : AutobufCall
  found : Bool

/-- One call on a buffer. There are none after an abort or an access to what is not there. -/
def autobufStep (junk : Nat → UInt8) (buf : Read WriteableAutobuf) (i : AutobufInput) :
    Option (Read WriteableAutobuf) :=
  match buf with
  | .ok buf => some (i.call.apply junk i.found buf)
  | .error _ => none

end IronStack
