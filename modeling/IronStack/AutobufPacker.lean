import IronStack.Autobuf

/-!
# `autobuf_packer`

A number of buffers in one. The records of the format end in a member
`uint8_t* packed_content`, a pointer of eight bytes, which the code follows as if it
were the place behind the record. Memory therefore has addresses here.
-/

namespace IronStack

open Lib

/-- Some memory, and the address that it starts at. -/
structure Located where
  base : Nat
  memory : Bytes

namespace Located

def load (m : Located) (addr n : Nat) : Read Bytes :=
  if m.base ≤ addr then slice m.memory (addr - m.base) n else .error .outOfBounds

/-- A pointer of a little-endian machine. -/
def loadPtr (m : Located) (addr : Nat) : Read Nat := (m.load addr 8).map fun b => ofBE b.reverse

/-- `memcpy`, which does nothing if there is nothing to copy. -/
def store (m : Located) (addr : Nat) (bytes : Bytes) : Read Located :=
  if bytes.isEmpty then .ok m
  else if m.base ≤ addr then do
    let memory ← overwrite m.memory (addr - m.base) bytes
    return { m with memory := memory }
  else .error .outOfBounds

/-- The first address behind the memory. -/
def endPtr (m : Located) : Nat := m.base + m.memory.length

/-- `ptr->packed_content` of the record that the memory starts with. -/
def packedContent (m : Located) : Read Nat := m.loadPtr (m.base + 8)

end Located

/-- `autobuf_packer`, with the contents of its buffers. -/
structure AutobufPacker where
  buffers : List Bytes := []

namespace AutobufPacker

/-- `sizeof(autobuf_packer_info_t)`: four bytes, the padding and the pointer. -/
def infoSize : Nat := 16

/-- `sizeof(autobuf_entry_t)`. -/
def entrySize : Nat := 16

/-- A sum of addresses. -/
def addPtr (ptr offset : Nat) : Nat := (ptr + offset) % 2 ^ 64

/-- The loop of `serialize`. What an entry holds behind its size was never set. -/
def serializeEntries (unset : Bytes) : Located → Nat → List Bytes → Read Located
  | m, _, [] => .ok m
  | m, offset, buf :: buffers => do
      let packedContent ← m.packedContent
      let m ← m.store (addPtr packedContent offset) (be32 (UInt32.ofNat buf.length) ++ unset)
      let offset := (offset + entrySize) % 2 ^ 32
      let packedContent ← m.packedContent
      let m ← m.store (addPtr packedContent offset) buf
      serializeEntries unset m ((offset + buf.length) % 2 ^ 32) buffers

/-- The size that `serialize` asks for. -/
def sizeNeeded (p : AutobufPacker) : Nat :=
  (infoSize + p.buffers.length * entrySize + (p.buffers.map List.length).sum) % 2 ^ 32

/-- `autobuf_packer::serialize`, into a buffer whose memory is at an address. -/
def serialize (junk : Nat → UInt8) (base : Nat) (dest : OwnedAutobuf) (p : AutobufPacker) : Read Bytes := do
  let dest ← dest.createEmptyBuffer junk p.sizeNeeded true
  let m : Located := ⟨base, dest.writeableBuf⟩
  -- the size, where the number of entries is looked for
  let m ← m.store base (be32 (UInt32.ofNat p.sizeNeeded))
  let m ← serializeEntries ((List.range 12).map junk) m 0 p.buffers
  return m.memory.take dest.contentSize

/--
The loop of `deserialize`: whether it succeeded, and the buffers so far. What is left
over at the end is printed, and no failure.
-/
def deserializeEntries (m : Located) : Nat → Nat → List Bytes → Read (Bool × List Bytes)
  | 0, _, buffers => .ok (true, buffers)
  | n + 1, offset, buffers => do
      let packedContent ← m.packedContent
      let entry := addPtr packedContent offset
      let content ← m.loadPtr (addPtr entry 8)
      if addPtr content (2 ^ 64 - 1) ≥ m.endPtr then
        return (false, buffers)
      let size ← (m.load entry 4).map ofBE
      if size = 0 then
        deserializeEntries m n ((offset + entrySize) % 2 ^ 32) (buffers ++ [[]])
      else if addPtr content size > m.endPtr then
        return (false, buffers)
      else
        let buf ← m.load content size
        deserializeEntries m n ((offset + entrySize + size) % 2 ^ 32) (buffers ++ [buf])

/-- `autobuf_packer::deserialize`, from a buffer whose content is all the memory there is. -/
def deserialize (m : Located) : Read (Bool × List Bytes) :=
  if m.memory.length < infoSize then .ok (false, [])
  else do
    let numEntries ← (m.load m.base 4).map ofBE
    deserializeEntries m numEntries 0 []

end AutobufPacker

end IronStack
