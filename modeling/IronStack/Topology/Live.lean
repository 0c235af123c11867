import IronStack.Topology.Node

/-!
# `topology_graph` over time

The methods that change the graph, and its daemon. Each runs under the lock of what
it changes. The clock is that of `timer::ms_since_epoch`, which keeps 32 bits of it.
-/

namespace IronStack

open Std Lib

/-- `timer::ms_since_epoch`. -/
def msSinceEpoch (now : Nat) : UInt32 := UInt32.ofNat now

/-- `topology_graph`, with all that its nodes hold. -/
structure LiveTopology where
  me : TopologyNode := {}
  otherNodes : ExtTreeMap MacAddress TopologyNode := ∅

/-- `STALE_TIMEOUT`, in milliseconds. -/
def staleTimeout : Nat := 4000

/-- Whether something refreshed at a time has not been for too long. -/
def isStale (time refreshed : UInt32) : Bool := refreshed ≤ time && (time - refreshed).toNat > staleTimeout

/-- Whether an update is later than what is stored: the condition in `update_topology`. -/
def TopologyNode.isNewer (stored update : TopologyNode) : Bool :=
  stored.lastRefresh < update.lastRefresh ||
    (stored.lastRefresh == update.lastRefresh && stored.seqNum < update.seqNum)

namespace LiveTopology

/-- What paths are looked for in. -/
def toTopologyGraph (s : LiveTopology) : TopologyGraph where
  me := s.me.toNetworkNode
  otherNodes := s.otherNodes.map fun _ n => n.toNetworkNode

/-- `init`, with the ports of the switch. -/
def init (macAddr : MacAddress) (ipAddr : IpAddress) (name : String) (ports : List OpenflowPort) :
    LiveTopology where
  me := {
    macAddr := macAddr
    ipAddr := ipAddr
    name := name
    ports := ports.foldl (fun ports p =>
      ports.insert p.portNumber ((ports[p.portNumber]?.getD {}).update p).1) ∅ }

/-- `send_update`, and the buffer that it gives to `broadcast_data`. -/
def sendUpdate (s : LiveTopology) (now : Nat) : LiveTopology × Bytes :=
  let time := msSinceEpoch now
  let me :=
    if time > s.me.lastRefresh then { s.me with lastRefresh := time, seqNum := 0 }
    else { s.me with seqNum := s.me.seqNum + 1 }
  ({ s with me := me }, me.serialize)

/-- `update_local_port`; what is broadcast, if anything, is the second result. -/
def updateLocalPort (s : LiveTopology) (now : Nat) (modifiedPort : OpenflowPort) :
    LiveTopology × Option Bytes :=
  let (port, changed) := (s.me.ports[modifiedPort.portNumber]?.getD {}).update modifiedPort
  let s := { s with me := { s.me with ports := s.me.ports.insert modifiedPort.portNumber port } }
  if changed then
    let (s, data) := s.sendUpdate now
    (s, some data)
  else (s, none)

/--
`update_topology`. Whether the node could be deserialized is not looked at. Its name
stays what it was.
-/
def updateTopology (s : LiveTopology) (now : Nat) (macAddr : MacAddress)
    (data : Autobuf) : Read LiveTopology := do
  let (_, updateNode) ← TopologyNode.deserialize data
  let stored := s.otherNodes[macAddr]?
  if stored.all (·.isNewer updateNode) then
    return { s with
      otherNodes := s.otherNodes.insert macAddr { stored.getD {} with
        macAddr := updateNode.macAddr
        lastRefresh := updateNode.lastRefresh
        seqNum := updateNode.seqNum
        ipAddr := updateNode.ipAddr
        ports := updateNode.ports
        links := updateNode.links
        localRefresh := msSinceEpoch now } }
  else return s

/-- `update_neighbor`. The clock is read again by `update_topology`, and for the update that it sends. -/
def updateNeighbor (s : LiveTopology) (now refreshed sent : Nat) (phyPort : UInt16) (neighborMac : MacAddress)
    (data : Autobuf) : Read (LiveTopology × Option Bytes) := do
  let updateNeeded := s.me.links[phyPort]?.all (·.1 ≠ neighborMac)
  let s := { s with me := { s.me with links := s.me.links.insert phyPort (neighborMac, msSinceEpoch now) } }
  let s ← s.updateTopology refreshed neighborMac data
  if updateNeeded then
    let (s, data) := s.sendUpdate sent
    return (s, some data)
  else return (s, none)

/-- The daemon, under the lock of the local node: stale links go, and an update is sent in any case. -/
def heartbeat (s : LiveTopology) (now sent : Nat) : LiveTopology × Bytes :=
  let time := msSinceEpoch now
  let s := { s with me := { s.me with links := s.me.links.filter fun _ link => !isStale time link.2 } }
  s.sendUpdate sent

/-- The daemon, under the lock of the other nodes: those go that were not heard of for long. -/
def sweep (s : LiveTopology) (now : Nat) : LiveTopology :=
  { s with otherNodes := s.otherNodes.filter fun _ n => !isStale (msSinceEpoch now) n.localRefresh }

end LiveTopology

/-- A node of the topology, and the updates it has sent, each with the time on the clock. -/
structure TopologySystem where
  graph : LiveTopology
  broadcasts : List (Nat × Bytes) := []

/-- What a node of the topology does. -/
inductive TopologyInput where
  | updateLocalPort (now : Nat) (modifiedPort : OpenflowPort)
  | updateNeighbor (now refreshed sent : Nat) (phyPort : UInt16) (neighborMac : MacAddress) (data : Autobuf)
  | updateTopology (now : Nat) (macAddr : MacAddress) (data : Autobuf)
  | heartbeat (now sent : Nat)
  | sweep (now : Nat)

namespace TopologySystem

/-- A buffer that was given to `broadcast_data` is kept with the time at which it was. -/
def broadcast (s : TopologySystem) (graph : LiveTopology) (now : Nat) (data : Option Bytes) :
    TopologySystem where
  graph := graph
  broadcasts := s.broadcasts ++ (data.map fun data => (now, data)).toList

def step (s : TopologySystem) : TopologyInput → Option TopologySystem
  | .updateLocalPort now modifiedPort =>
      let (graph, data) := s.graph.updateLocalPort now modifiedPort
      some (s.broadcast graph now data)
  | .updateNeighbor now refreshed sent phyPort neighborMac data =>
      match s.graph.updateNeighbor now refreshed sent phyPort neighborMac data with
      | .error _ => none
      | .ok (graph, data) => some (s.broadcast graph sent data)
  | .updateTopology now macAddr data =>
      match s.graph.updateTopology now macAddr data with
      | .error _ => none
      | .ok graph => some { s with graph := graph }
  | .heartbeat now sent =>
      let (graph, data) := s.graph.heartbeat now sent
      some (s.broadcast graph sent (some data))
  | .sweep now => some { s with graph := s.graph.sweep now }

end TopologySystem

end IronStack
