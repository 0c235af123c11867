import IronStack.Lib.Wire

/-!
# `autobuf`

The buffer class every codec reads and writes through. Its sizes and offsets are
32-bit words, which two of its methods take for signed ones.
-/

namespace IronStack

open Lib

/-- A `uint32_t` where an `int` is expected. -/
def asInt (v : Nat) : Int := Int.bmod v (2 ^ 32)

theorem asInt_of_lt {v : Nat} (h : v < 2 ^ 31) : asInt v = v := by
  dsimp only [asInt, Int.bmod]
  split
  · omega
  · omega

theorem asInt_neg {v : Nat} (h : 2 ^ 31 ≤ v) (hlt : v < 2 ^ 32) : asInt v < 0 := by
  dsimp only [asInt, Int.bmod]
  split
  · omega
  · omega

/-- A subtraction in `uint32_t`, which wraps around below 0. -/
def subU32 (a b : Nat) : Nat := (2 ^ 32 + a - b) % 2 ^ 32

theorem subU32_of_le {a b : Nat} (h : b ≤ a) (ha : a < 2 ^ 32) : subU32 a b = a - b := by
  have hsum : 2 ^ 32 + a - b = (a - b) + 2 ^ 32 := by omega
  rw [subU32, hsum, Nat.add_mod_right, Nat.mod_eq_of_lt (by omega)]

/--
An `autobuf` set up by `inherit_read_only`: the memory from its content on, as far
as there is any to read, and the size that was announced.
-/
structure Autobuf where
  memory : Bytes
  size : Nat

namespace Autobuf

/-- The whole of some bytes. -/
def ofBytes (b : Bytes) : Autobuf := ⟨b, b.length⟩

/-- `autobuf::ptr_offset_const`: the memory from an offset on. Only a negative offset is refused. -/
def ptrOffsetConst (buf : Autobuf) (offset : Nat) : Read Bytes :=
  if asInt offset < 0 then .error .aborted else .ok (buf.memory.drop offset)

end Autobuf

/-- `autobuf::ptr_offset_mutable`, for a buffer whose content has a given size. -/
def ptrOffsetMutable (contentSize offset : Nat) : Read Unit :=
  if asInt offset < 0 ∨ asInt offset ≥ asInt contentSize then .error .aborted else .ok ()

theorem ptrOffsetMutable_of_lt {size off : Nat} (h : off < size) (hsize : size < 2 ^ 31) :
    ptrOffsetMutable size off = .ok () := by
  rw [ptrOffsetMutable, asInt_of_lt (by omega), asInt_of_lt hsize, if_neg (by omega)]

theorem ptrOffsetMutable_of_le {size off : Nat} (h : size ≤ off) (hoff : off < 2 ^ 31) :
    ptrOffsetMutable size off = .error .aborted := by
  rw [ptrOffsetMutable, asInt_of_lt (by omega), asInt_of_lt (by omega), if_pos (by omega)]

theorem ptrOffsetMutable_eq_ok {size off : Nat} (hoff : off < 2 ^ 31) (hsize : size < 2 ^ 32)
    (h : ptrOffsetMutable size off = .ok ()) : off < size ∧ size < 2 ^ 31 := by
  rw [ptrOffsetMutable] at h
  split at h
  · cases h
  · rename_i hin
    rw [asInt_of_lt hoff] at hin
    by_cases hsmall : size < 2 ^ 31
    · rw [asInt_of_lt hsmall] at hin
      omega
    · have hneg := asInt_neg (Nat.not_lt.mp hsmall) hsize
      omega

/-! ## Buffers that own their memory -/

/-- `memcpy` and its like into memory, which faults past its end. -/
def overwrite (memory : Bytes) (off : Nat) (bytes : Bytes) : Read Bytes :=
  if off + bytes.length ≤ memory.length then
    .ok (memory.take off ++ bytes ++ memory.drop (off + bytes.length))
  else .error .outOfBounds

/-- `realloc`: what fits of the old memory, then whatever was there before. -/
def realloc (junk : Nat → UInt8) (memory : Bytes) (size : Nat) : Bytes :=
  memory.take size ++ (List.range (size - memory.length)).map junk

/-- An `autobuf` with memory of its own, `buf_size` bytes of it. -/
structure OwnedAutobuf where
  writeableBuf : Bytes := []
  bufSize : Nat := 0
  contentSize : Nat := 0
  beginOffset : Nat := 0

namespace OwnedAutobuf

/-- The bytes a reader of the buffer is given. -/
def content (buf : OwnedAutobuf) : Bytes := (buf.writeableBuf.drop buf.beginOffset).take buf.contentSize

/-- `autobuf::clear`. -/
def clear (buf : OwnedAutobuf) : OwnedAutobuf := { buf with contentSize := 0 }

/-- The contents at the front of the memory, where `alloc` moves them. -/
def moved (buf : OwnedAutobuf) : OwnedAutobuf :=
  if buf.beginOffset > 0 then
    { buf with
      writeableBuf := buf.content ++ buf.writeableBuf.drop buf.contentSize
      beginOffset := 0 }
  else buf

/-- The bytes of memory that `alloc` asks for, in whole pages. -/
def requiredSize (size : Nat) : Nat :=
  (size / 4096 + if size % 4096 > 0 then 1 else 0) * 4096 % 2 ^ 32

/--
`autobuf::alloc`, for memory that is owned. A page more than the number of pages
wraps around to no memory at all; otherwise memory is found.
-/
def alloc (junk : Nat → UInt8) (buf : OwnedAutobuf) (size : Nat) : OwnedAutobuf × Bool :=
  let buf := buf.moved
  if buf.beginOffset + size ≤ buf.bufSize then (buf, true)
  else if requiredSize size = 0 then ({ buf with writeableBuf := [] }, false)
  else
    ({ buf with
        writeableBuf := realloc junk buf.writeableBuf (requiredSize size)
        bufSize := requiredSize size }, true)

/-- `autobuf::create_empty_buffer`, which does not ask whether there is any memory. -/
def createEmptyBuffer (junk : Nat → UInt8) (buf : OwnedAutobuf) (size : Nat) (zero : Bool) :
    Read OwnedAutobuf := do
  let buf := { (buf.alloc junk size).1 with contentSize := size }
  if zero then
    let memory ← overwrite buf.writeableBuf buf.beginOffset (List.replicate buf.contentSize 0)
    return { buf with writeableBuf := memory }
  else return buf

/-- `autobuf::set_content`, which gives up if there is no memory. -/
def setContent (junk : Nat → UInt8) (buf : OwnedAutobuf) (srcBuf : Bytes) : Read OwnedAutobuf :=
  match buf.alloc junk srcBuf.length with
  | (_, false) => .error .aborted
  | (buf, true) => do
      let memory ← overwrite buf.writeableBuf buf.beginOffset srcBuf
      return { buf with writeableBuf := memory, contentSize := srcBuf.length, beginOffset := 0 }

/-- `autobuf::full_copy_from`, into memory that is new. -/
def fullCopyFrom (junk : Nat → UInt8) (src : Bytes) : Read OwnedAutobuf := setContent junk {} src

end OwnedAutobuf

end IronStack
