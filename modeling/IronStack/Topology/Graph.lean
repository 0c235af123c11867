import IronStack.Common
import IronStack.Lib.OrdMap
import Std.Data.ExtTreeMap
import Std.Data.ExtTreeSet

/-!
# `topology_graph` and its `simple_graph`

What the controller knows of the switches and their links, and the graph in which
it looks for paths. The loops that need not end are given an amount of fuel, and
have no result when it runs out.
-/

namespace IronStack

open Std

/-- `network_node`, as far as the graph is made from it: its links, by port. -/
structure NetworkNode where
  macAddr : MacAddress := MacAddress.nil
  links : ExtTreeMap UInt16 (MacAddress × UInt32) := ∅

/-- `topology_graph`: the switch itself, and the nodes it has heard of. -/
structure TopologyGraph where
  me : NetworkNode := {}
  otherNodes : ExtTreeMap MacAddress NetworkNode := ∅

/--
`topology_graph::simple_graph`. Reading an entry of a map that is not there puts an
empty set or `false` there, which no reader tells from no entry.
-/
structure SimpleGraph where
  edges : ExtTreeMap MacAddress (ExtTreeSet MacAddress) := ∅
  flows : MacAddress → MacAddress → Bool := fun _ _ => false

/-- The local variables of `bfs`. -/
structure Search where
  visited : ExtTreeSet MacAddress := ∅
  frontier : List MacAddress
  parent : ExtTreeMap MacAddress MacAddress := ∅

namespace SimpleGraph

/-- `edges[x]`, in order. -/
def neighbors (g : SimpleGraph) (x : MacAddress) : List MacAddress := (g.edges[x]?.getD ∅).toList

/-- `simple_graph::add_edge`. -/
def addEdge (g : SimpleGraph) (source dest : MacAddress) : SimpleGraph :=
  { g with edges := g.edges.insert source ((g.edges[source]?.getD ∅).insert dest) }

/-- `flows[std::make_pair(source, dest)] = flow`. -/
def setFlow (g : SimpleGraph) (source dest : MacAddress) (flow : Bool) : SimpleGraph :=
  { g with flows := fun a b => if a = source ∧ b = dest then flow else g.flows a b }

/-- `simple_graph::true_flow`. -/
def trueFlow (g : SimpleGraph) (source dest : MacAddress) : SimpleGraph := g.setFlow source dest true

/-- `simple_graph::false_flow`. -/
def falseFlow (g : SimpleGraph) (source dest : MacAddress) : SimpleGraph := g.setFlow source dest false

/-- `simple_graph::get_flow`. -/
def getFlow (g : SimpleGraph) (source dest : MacAddress) : Bool := g.flows source dest

/-- The edges, in the order of two nested loops over the nodes and their neighbours. -/
def allEdges (g : SimpleGraph) : List (MacAddress × MacAddress) :=
  g.edges.toList.flatMap fun entry => entry.2.toList.map fun dest => (entry.1, dest)

/-- `simple_graph::false_all_flows`. -/
def falseAllFlows (g : SimpleGraph) : SimpleGraph :=
  g.allEdges.foldl (fun g edge => g.falseFlow edge.1 edge.2) g

/-! ## `bfs` -/

/-- The inner loop of `bfs` over the neighbours of `next`. -/
def visitNeighbor (g : SimpleGraph) (useFlows : Bool) (next : MacAddress) (search : Search)
    (neighbor : MacAddress) : Search :=
  if search.visited.contains neighbor then search
  else if !g.getFlow next neighbor || !useFlows then
    { search with
      parent := search.parent.insert neighbor next
      frontier := search.frontier ++ [neighbor] }
  else search

/-- A node that is not the destination is only visited once its neighbours are in the frontier. -/
def expand (g : SimpleGraph) (useFlows : Bool) (next : MacAddress) (search : Search) : Search :=
  let search := (g.neighbors next).foldl (g.visitNeighbor useFlows next) search
  { search with visited := search.visited.insert next }

/-- From parent to parent, until a node has none. -/
def traceBack (parent : ExtTreeMap MacAddress MacAddress) :
    Nat → MacAddress → List MacAddress → Option (List MacAddress)
  | 0, _, _ => none
  | fuel + 1, p, path =>
      match parent[p]? with
      | none => some path
      | some q => traceBack parent fuel q (path ++ [q])

/-- The loop of `bfs`. -/
def bfsLoop (g : SimpleGraph) (dest : MacAddress) (useFlows : Bool) :
    Nat → Search → Option (List MacAddress)
  | 0, _ => none
  | fuel + 1, search =>
      match search.frontier with
      | [] => some []
      | next :: frontier =>
          if next = dest then (traceBack search.parent fuel next [next]).map List.reverse
          else g.bfsLoop dest useFlows fuel (g.expand useFlows next { search with frontier := frontier })

/-- `simple_graph::bfs`. -/
def bfs (g : SimpleGraph) (fuel : Nat) (source dest : MacAddress) (useFlows : Bool) :
    Option (List MacAddress) :=
  g.bfsLoop dest useFlows fuel { frontier := [source] }

/-! ## `max_flow` -/

/-- The edges from each node of a path to the next one. -/
def pathEdges (path : List MacAddress) : List (MacAddress × MacAddress) := path.zip path.tail

/-- One flow sent along a path. -/
def sendFlow (g : SimpleGraph) (path : List MacAddress) : SimpleGraph :=
  (pathEdges path).foldl (fun g edge => g.trueFlow edge.1 edge.2) g

/-- The loop of `max_flow`: while there is a path of edges without flow, send flow along it. -/
def augment (source sink : MacAddress) : Nat → SimpleGraph → Option SimpleGraph
  | 0, _ => none
  | fuel + 1, g =>
      match g.bfs fuel source sink true with
      | none => none
      | some [] => some g
      | some path => augment source sink fuel (g.sendFlow path)

/-- Flows that go both ways are taken back. -/
def cancelOpposite (g : SimpleGraph) : SimpleGraph :=
  g.allEdges.foldl (fun g edge =>
    if g.getFlow edge.1 edge.2 && g.getFlow edge.2 edge.1 then
      (g.falseFlow edge.1 edge.2).falseFlow edge.2 edge.1
    else g) g

/-- The flow out of the source. -/
def flowValue (g : SimpleGraph) (source : MacAddress) : UInt32 :=
  (g.neighbors source).foldl (fun mflow node => if g.getFlow source node then mflow + 1 else mflow) 0

/-- `simple_graph::max_flow`. -/
def maxFlow (g : SimpleGraph) (fuel : Nat) (source sink : MacAddress) : Option UInt32 :=
  (augment source sink fuel g.falseAllFlows).map fun g => g.cancelOpposite.flowValue source

/-- The flows that `max_flow` leaves in the graph. -/
def maxFlowGraph (g : SimpleGraph) (fuel : Nat) (source sink : MacAddress) : Option SimpleGraph :=
  (augment source sink fuel g.falseAllFlows).map cancelOpposite

end SimpleGraph

/-! ## `get_disjoint_paths` -/

/-- The local variables of the walk along edges with flow, its path with the last node in front. -/
structure Trail where
  graph : SimpleGraph
  path : List MacAddress
  pathContents : ExtTreeSet MacAddress
  current : MacAddress

namespace Trail

/-- The first edge with flow is taken, and its flow with it. -/
def advance (trail : Trail) : Trail :=
  match (trail.graph.neighbors trail.current).find? (trail.graph.getFlow trail.current) with
  | some neighbor =>
      { trail with
        graph := trail.graph.falseFlow trail.current neighbor
        current := neighbor
        path := neighbor :: trail.path }
  | none => trail

/-- Nodes are taken off the path until `current` is its last one. There is no last one of an empty path. -/
def popUntil (current : MacAddress) :
    List MacAddress → ExtTreeSet MacAddress → Option (List MacAddress × ExtTreeSet MacAddress)
  | [], _ => none
  | back :: path, contents =>
      if back = current then some (back :: path, contents)
      else popUntil current path (contents.erase back)

/-- A path that has come back to one of its nodes loses what lies between. -/
def removeCycle (trail : Trail) : Option Trail :=
  if trail.pathContents.contains trail.current then
    match trail.path with
    | [] => none
    | _ :: path => (popUntil trail.current path trail.pathContents).map fun popped =>
        { trail with path := popped.1, pathContents := popped.2.insert trail.current }
  else some { trail with pathContents := trail.pathContents.insert trail.current }

/-- The walk from the source to the destination. -/
def walk (dest : MacAddress) : Nat → Trail → Option Trail
  | 0, _ => none
  | fuel + 1, trail =>
      if trail.current = dest then some trail
      else trail.advance.removeCycle.bind (walk dest fuel)

end Trail

/-- So many paths, one after the other. -/
def SimpleGraph.tracePaths (source dest : MacAddress) (fuel : Nat) :
    Nat → SimpleGraph → Option (List (List MacAddress))
  | 0, _ => some []
  | n + 1, g =>
      (Trail.walk dest fuel ⟨g, [source], (∅ : ExtTreeSet MacAddress).insert source, source⟩).bind fun trail =>
        (tracePaths source dest fuel n trail.graph).map (trail.path.reverse :: ·)

namespace TopologyGraph

/-- The links of a node, as edges from an address. -/
def addLinks (g : SimpleGraph) (source : MacAddress) (node : NetworkNode) : SimpleGraph :=
  node.links.toList.foldl (fun g link => g.addEdge source link.2.1) g

/-- `topology_graph::to_simple_graph`. -/
def toSimpleGraph (t : TopologyGraph) : SimpleGraph :=
  t.otherNodes.toList.foldl (fun g entry => addLinks g entry.1 entry.2) (addLinks {} t.me.macAddr t.me)

/-- `topology_graph::get_shortest_path`. -/
def getShortestPath (t : TopologyGraph) (fuel : Nat) (source dest : MacAddress) :
    Option (List MacAddress) :=
  t.toSimpleGraph.bfs fuel source dest false

/-- `topology_graph::get_disjoint_paths`. -/
def getDisjointPaths (t : TopologyGraph) (fuel : Nat) (source dest : MacAddress) :
    Option (List (List MacAddress)) :=
  let g := t.toSimpleGraph
  if !g.edges.contains source || !g.edges.contains dest then some []
  else (g.maxFlowGraph fuel source dest).bind fun g =>
    g.tracePaths source dest fuel (g.flowValue source).toNat

end TopologyGraph

end IronStack
