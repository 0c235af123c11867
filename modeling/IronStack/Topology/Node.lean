import IronStack.Stats.StatsCodec
import IronStack.Topology.Graph

/-!
# `network_node` on the wire

All that a node of the topology holds, and the buffer in which a switch tells the
others about its own.
-/

namespace IronStack

open Std Lib

/-- What `std::string::c_str` points to, without the terminator. -/
def toCString (s : String) : Bytes := (s.toList.map fun c => UInt8.ofNat c.toNat).takeWhile (· != 0)

/-- `memset` to 0, then `strncpy` of one character less than there is room for. -/
def nameField (s : String) : Bytes :=
  let name := (toCString s).take 39
  name ++ List.replicate (40 - name.length) 0

/-- `port_state`; the defaults are those of its constructor. -/
structure PortState where
  portNum : UInt16 := 0xffff
  online : Bool := false
  isStpPort : Bool := false
  isFloodPort : Bool := false
  name : String := ""
deriving DecidableEq, Repr

namespace PortState

/-- `port_state::update`, and whether anything changed. -/
def update (s : PortState) (p : OpenflowPort) : PortState × Bool :=
  if s.portNum ≠ p.portNumber ∨ s.online ≠ p.isUp ∨ s.name ≠ p.name then
    ({ s with portNum := p.portNumber, online := p.isUp, name := p.name }, true)
  else (s, false)

/-- `sizeof(port_state_hdr)` -/
def hdrSize : Nat := 45

/-- `port_state::pack`. -/
def pack (s : PortState) : Bytes :=
  be16 s.portNum ++ [s.online.toUInt8, s.isStpPort.toUInt8, s.isFloodPort.toUInt8] ++ nameField s.name

/-- `port_state::unpack`, from the memory that it is given. -/
def unpack (input : Bytes) : Read PortState := do
  let portNum ← readU16 input 0
  let online ← readU8 input 2
  let isStpPort ← readU8 input 3
  let isFloodPort ← readU8 input 4
  let name ← readCString input 5
  return {
    portNum := portNum
    online := online != 0
    isStpPort := isStpPort != 0
    isFloodPort := isFloodPort != 0
    name := name }

end PortState

/-- `network_node`; the defaults are those of its `clear`. -/
structure TopologyNode extends NetworkNode where
  localRefresh : UInt32 := 0
  lastRefresh : UInt32 := 0
  seqNum : UInt8 := 0
  ipAddr : IpAddress := IpAddress.nil
  blacklisted : Bool := false
  whitelisted : Bool := false
  name : String := ""
  ports : ExtTreeMap UInt16 PortState := ∅

namespace TopologyNode

/-- `sizeof(network_node_hdr)` -/
def hdrSize : Nat := 63

def portIncrement : Nat := 2 + PortState.hdrSize

def linkIncrement : Nat := 6 + 2

def serializePort (entry : UInt16 × PortState) : Bytes := be16 entry.1 ++ entry.2.pack

def serializeLink (entry : UInt16 × MacAddress × UInt32) : Bytes := be16 entry.1 ++ entry.2.1.addr.toList

/-- The header, with the number of ports and links that follow it. -/
def serializeHeader (n : TopologyNode) : Bytes :=
  be32 n.lastRefresh ++ [n.seqNum] ++ n.macAddr.addr.toList ++ n.ipAddr.octets.toList ++ nameField n.name ++
    be32 (UInt32.ofNat n.ports.size) ++ be32 (UInt32.ofNat n.links.size)

/-- `network_node::serialize`. -/
def serialize (n : TopologyNode) : Bytes :=
  n.serializeHeader ++ n.ports.toList.flatMap serializePort ++ n.links.toList.flatMap serializeLink

/-- The ports of `deserialize`: the rest of them, from an offset on. -/
def unpackPorts (input : Autobuf) :
    Nat → Nat → ExtTreeMap UInt16 PortState → Read (ExtTreeMap UInt16 PortState)
  | 0, _, ports => .ok ports
  | n + 1, nextItemIndex, ports => do
      let item ← input.ptrOffsetConst nextItemIndex
      let nextPortNum ← readU16 item 0
      let state ← input.ptrOffsetConst (nextItemIndex + 2)
      let port ← PortState.unpack state
      unpackPorts input n (nextItemIndex + portIncrement) (ports.insert nextPortNum port)

/-- The links of `deserialize`; when a link was refreshed is not sent. -/
def unpackLinks (input : Autobuf) :
    Nat → Nat → ExtTreeMap UInt16 (MacAddress × UInt32) → Read (ExtTreeMap UInt16 (MacAddress × UInt32))
  | 0, _, links => .ok links
  | n + 1, nextItemIndex, links => do
      let item ← input.ptrOffsetConst nextItemIndex
      let pNum ← readU16 item 0
      let addr ← input.ptrOffsetConst (nextItemIndex + 2)
      let mAddr ← readVec 6 addr 0
      unpackLinks input n (nextItemIndex + linkIncrement) (links.insert pNum (⟨mAddr⟩, 0))

/--
`network_node::deserialize`: whether it succeeded, and what the node holds then. The
sizes of the ports and of the links wrap around at 32 bits; their sum does not.
-/
def deserialize (input : Autobuf) : Read (Bool × TopologyNode) :=
  if input.size < hdrSize then .ok (false, {})
  else do
    let lastRefresh ← readU32 input.memory 0
    let seqNum ← readU8 input.memory 4
    let macAddr ← readVec 6 input.memory 5
    let ipAddr ← readVec 4 input.memory 11
    let name ← readCString input.memory 15
    let numPorts ← readU32 input.memory 55
    let numLinks ← readU32 input.memory 59
    let node : TopologyNode :=
      { lastRefresh := lastRefresh, seqNum := seqNum, macAddr := ⟨macAddr⟩, ipAddr := ⟨ipAddr⟩, name := name }
    if input.size < hdrSize + numPorts.toNat * portIncrement % 2 ^ 32 + numLinks.toNat * linkIncrement % 2 ^ 32 then
      return (false, node)
    else
      let ports ← unpackPorts input numPorts.toNat hdrSize ∅
      let links ← unpackLinks input numLinks.toNat (hdrSize + numPorts.toNat * portIncrement) ∅
      return (true, { node with ports := ports, links := links })

end TopologyNode

end IronStack
