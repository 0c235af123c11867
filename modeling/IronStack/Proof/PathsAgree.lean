import IronStack.Proof.DisjointPaths
import IronStack.Proof.Topology

/-!
# When the two path queries agree

Between two distinct nodes with links `get_disjoint_paths` terminates if no path leads
from one to the other through a node with a link to itself, which would be its own parent
in a search, and then finds a path exactly if `get_shortest_path` does. A node that only
appears as the end of links has none of its own, and is given up before the first search;
and from a node to itself the path of one node is taken over and over, since it uses no
edge.
-/

namespace IronStack.Proof

open IronStack Lib IronStack.SimpleGraph TopologyGraph

/-- A node has links of its own. -/
def HasLinks (t : TopologyGraph) (u : MacAddress) : Prop := ∃ v, Linked t u v

/--
`get_disjoint_paths` terminates, and for distinct nodes returns a path if and only if
`get_shortest_path` does.
-/
def PathsAgree (t : TopologyGraph) (source dest : MacAddress) : Prop :=
  ∃ fuel paths, t.getDisjointPaths fuel source dest = some paths ∧
    (source ≠ dest → (paths ≠ [] ↔
      ∃ fuel path, t.getShortestPath fuel source dest = some path ∧ path ≠ []))

/-- No node on the path but the destination has a link to itself. -/
def Smooth (t : TopologyGraph) (dest : MacAddress) (path : List MacAddress) : Prop :=
  ∀ x ∈ path, x ≠ dest → ¬ Linked t x x

/-- Some path that visits no node twice keeps away from nodes with a link to themselves. -/
def SmoothlyReachable (t : TopologyGraph) (source dest : MacAddress) : Prop :=
  ∃ path, IsPath (Linked t) source dest path ∧ path.Nodup ∧ Smooth t dest path

/-- Every path that visits no node twice keeps away from nodes with a link to themselves, or none does. -/
def AllOrNone (t : TopologyGraph) (source dest : MacAddress) : Prop :=
  SmoothlyReachable t source dest → ∀ path, IsPath (Linked t) source dest path → path.Nodup → Smooth t dest path

/-! ## From a node to itself -/

/-- The path from a node to itself uses no edge, so the loop takes it for ever. -/
theorem augment_self (node : MacAddress) (fuel : Nat) (g : SimpleGraph) :
    augment node node fuel g = none := by
  induction fuel generalizing g with
  | zero => rfl
  | succ fuel ih =>
      rw [augment]
      split
      · rfl
      · rename_i hnil
        -- a search that finds nothing would say that the node cannot be reached from itself
        rcases (bfs_outcome hnil).sound (sorted_follows g true) with ⟨_, hno⟩ | ⟨hp, _⟩
        · exact absurd ⟨_, .singleton node⟩ hno
        · exact absurd rfl hp.ne_nil
      · exact ih _

section Topology

variable {t : TopologyGraph} {source dest : MacAddress}

/-- What `get_shortest_path` returns tells whether the destination can be reached. -/
theorem shortestPath_ne_nil_iff {fuel : Nat} {path : List MacAddress}
    (h : t.getShortestPath fuel source dest = some path) :
    path ≠ [] ↔ Reachable (Linked t) source dest := by
  rw [← hop_eq_linked]
  rcases (bfs_outcome h).sound (sorted_follows _ _) with ⟨hnil, hno⟩ | ⟨hp, _⟩
  · exact ⟨fun hne => absurd hnil hne, fun hreach => absurd hreach hno⟩
  · exact ⟨fun _ => ⟨path, hp⟩, fun _ => hp.ne_nil⟩

/-- Before anything flows, the search with regard to flows is the one without. -/
theorem bfs_start (t : TopologyGraph) (fuel : Nat) (source dest : MacAddress) :
    t.toSimpleGraph.falseAllFlows.bfs fuel source dest true = t.getShortestPath fuel source dest := by
  have hvisit : ∀ next, t.toSimpleGraph.falseAllFlows.visitNeighbor true next =
      t.toSimpleGraph.visitNeighbor false next := by
    intro next
    funext search neighbor
    rw [visitNeighbor, visitNeighbor, getFlow_falseAllFlows, Bool.not_false, Bool.or_true]
    rfl
  have hexpand : t.toSimpleGraph.falseAllFlows.expand true = t.toSimpleGraph.expand false := by
    funext next search
    rw [expand, expand, hvisit, neighbors_falseAllFlows]
  have hloop : ∀ fuel search, t.toSimpleGraph.falseAllFlows.bfsLoop dest true fuel search =
      t.toSimpleGraph.bfsLoop dest false fuel search := by
    intro fuel
    induction fuel with
    | zero => intro _; rfl
    | succ fuel ih =>
        intro search
        rw [bfsLoop, bfsLoop, hexpand]
        split
        · rfl
        · rw [ih]
  exact hloop fuel _

theorem augment_of_disjointPaths {fuel : Nat} {paths : List (List MacAddress)}
    (hsource : HasLinks t source) (hdest : HasLinks t dest)
    (h : t.getDisjointPaths fuel source dest = some paths) :
    ∃ g, augment source dest fuel t.toSimpleGraph.falseAllFlows = some g := by
  rw [getDisjointPaths, contains_edges_iff.mpr hsource, contains_edges_iff.mpr hdest] at h
  obtain ⟨g, hg, _⟩ := Option.bind_eq_some_iff.mp h
  obtain ⟨r, hr, _⟩ := Option.map_eq_some_iff.mp hg
  exact ⟨r, hr⟩

theorem disjointPaths_nil (fuel : Nat) (h : ¬ (HasLinks t source ∧ HasLinks t dest)) :
    t.getDisjointPaths fuel source dest = some [] := by
  refine if_pos ?_
  rw [Bool.or_eq_true, Bool.not_eq_true', Bool.not_eq_true', ← Bool.not_eq_true, ← Bool.not_eq_true,
    contains_edges_iff, contains_edges_iff, ← not_and_or]
  exact h

/-- A run that ends has made its first search. -/
theorem first_search_returned {fuel : Nat} {g : SimpleGraph}
    (h : augment source dest fuel t.toSimpleGraph.falseAllFlows = some g) :
    ∃ fuel path, t.getShortestPath fuel source dest = some path := by
  cases fuel with
  | zero => cases h
  | succ fuel =>
      refine ⟨fuel, ?_⟩
      rw [← bfs_start]
      rw [augment] at h
      split at h
      · cases h
      · exact ⟨_, ‹_›⟩
      · exact ⟨_, ‹_›⟩

/-! ## Links from a node to itself -/

/-- The path of a search that returns is smooth. -/
theorem smooth_of_shortestPath {fuel : Nat} {path : List MacAddress}
    (h : t.getShortestPath fuel source dest = some path) (hreach : Reachable (Linked t) source dest) :
    SmoothlyReachable t source dest := by
  have hsound := (bfs_outcome h).sound (sorted_follows _ _)
  rw [hop_eq_linked] at hsound
  rcases hsound with ⟨_, hno⟩ | ⟨hp, hnodup⟩
  · exact absurd hreach hno
  · refine ⟨path, hp, hnodup, fun x hx hne hloop => ?_⟩
    rw [← hop_eq_linked] at hloop
    exact (bfs_outcome h).no_loop hx hne hloop

/-- Where all paths are smooth, no search over links gets stuck. -/
theorem not_stuck_of_smooth {g : SimpleGraph} {useFlows : Bool}
    (hlinked : ∀ u v, Hop (follows g useFlows) u v → Linked t u v)
    (hall : ∀ path, IsPath (Linked t) source dest path → path.Nodup → Smooth t dest path) :
    ¬ Stuck g useFlows source dest := by
  intro hstuck
  obtain ⟨p, x, hp, hnodup, hx, hne, hloop⟩ := hstuck.exists_simple
  exact hall p (hp.mono hlinked) hnodup x hx hne (hlinked x x hloop)

/-- Between distinct nodes with links, `get_disjoint_paths` returns where all paths are smooth. -/
theorem pathsAgree_of_smooth (hsource : HasLinks t source) (hdest : HasLinks t dest) (hne : source ≠ dest)
    (hall : ∀ path, IsPath (Linked t) source dest path → path.Nodup → Smooth t dest path) :
    PathsAgree t source dest := by
  have hsearch : ∀ g, Augmented source dest t.toSimpleGraph.falseAllFlows g →
      ∃ fuel path, g.bfs fuel source dest true = some path := by
    intro g hg
    obtain ⟨ps, hps⟩ := hg.carries (carries_start t source dest)
    refine bfs_returns_iff.mpr (not_stuck_of_smooth (fun u v hop => ?_) hall)
    rw [hop_eq_unused] at hop
    exact (hps.edges u v).mp hop.1
  obtain ⟨fuel, _, paths, _, hpaths, _, hdisjoint, hsome⟩ :=
    disjointPaths_return hne hsource hdest hsearch
  -- the first search of `max_flow` is that of `get_shortest_path`
  obtain ⟨fuel', path, hpath⟩ := hsearch _ .start
  rw [bfs_start] at hpath
  refine ⟨fuel, paths, hpaths, fun _ => ⟨fun hpaths => ?_, fun ⟨_, path', hpath', hne'⟩ => ?_⟩⟩
  · obtain ⟨p, hp⟩ := List.exists_mem_of_ne_nil paths hpaths
    exact ⟨fuel', path, hpath, (shortestPath_ne_nil_iff hpath).mpr ⟨p, hdisjoint.path p hp⟩⟩
  · exact hsome ((shortestPath_ne_nil_iff hpath').mp hne')

/-- Between nodes with links it returns only if they are distinct, and the first search gets through. -/
theorem smooth_of_pathsAgree (hsource : HasLinks t source) (hdest : HasLinks t dest)
    (h : PathsAgree t source dest) :
    source ≠ dest ∧ (Reachable (Linked t) source dest → SmoothlyReachable t source dest) := by
  obtain ⟨fuel, paths, hpaths, _⟩ := h
  obtain ⟨g, hg⟩ := augment_of_disjointPaths hsource hdest hpaths
  refine ⟨?_, fun hreach => ?_⟩
  · rintro rfl
    rw [augment_self] at hg
    cases hg
  · obtain ⟨_, _, hpath⟩ := first_search_returned hg
    exact smooth_of_shortestPath hpath hreach

/-- If one of two distinct nodes has no links, `get_shortest_path` must not find a path. -/
theorem pathsAgree_iff_of_no_links (h : ¬ (HasLinks t source ∧ HasLinks t dest))
    (huniform : AllOrNone t source dest) :
    PathsAgree t source dest ↔ source = dest ∨ ¬ SmoothlyReachable t source dest := by
  refine ⟨?_, ?_⟩
  · intro ⟨fuel, paths, hpaths, hagree⟩
    rw [disjointPaths_nil fuel h] at hpaths
    obtain rfl := Option.some.inj hpaths
    by_cases hne : source = dest
    · exact .inl hne
    refine .inr fun hpass => ?_
    have hstuck : ¬ Stuck t.toSimpleGraph false source dest := by
      refine not_stuck_of_smooth (fun u v hop => ?_) (huniform hpass)
      rwa [hop_eq_linked] at hop
    obtain ⟨fuel', path, hpath⟩ := bfs_returns_iff.mpr hstuck
    obtain ⟨p, hp, _⟩ := hpass
    exact (hagree hne).mpr ⟨fuel', path, hpath, (shortestPath_ne_nil_iff hpath).mpr ⟨p, hp⟩⟩ rfl
  · intro hcase
    refine ⟨0, [], disjointPaths_nil 0 h, fun hne => ⟨fun hnil => absurd rfl hnil, ?_⟩⟩
    intro ⟨fuel, path, hpath, hfound⟩
    have hreach := (shortestPath_ne_nil_iff hpath).mp hfound
    exact absurd (smooth_of_shortestPath hpath hreach) (hcase.resolve_left hne)

/--
Where nodes with a link to themselves have none to another node with links, every path to a
node with links is smooth.
-/
theorem smooth_of_loops (hloops : ∀ x y, Linked t x x → Linked t x y → HasLinks t y → y = x)
    (hdest : HasLinks t dest) {path : List MacAddress} (hpath : IsPath (Linked t) source dest path)
    (hnodup : path.Nodup) : Smooth t dest path := by
  intro x hx hne hloop
  obtain ⟨y, hy, hyx, hxy⟩ := hpath.exists_next hnodup hx hne
  refine hyx (hloops x y hloop hxy ?_)
  by_cases hyd : y = dest
  · rw [hyd]
    exact hdest
  · obtain ⟨z, _, _, hyz⟩ := hpath.exists_next hnodup hy hyd
    exact ⟨z, hyz⟩

end Topology

/--
**When `get_disjoint_paths` terminates and agrees with `get_shortest_path`.** Where all
paths keep away from nodes with a link to themselves, or none does: if and only if the two
nodes are distinct, have links of their own, and some such path leads to what can be
reached; or one of them has no links, and they are the same node or no such path leads from
one to the other. It does so between all distinct nodes with links if and only if no node
with a link to itself has one to another node with links.
-/
theorem pathsAgree_iff (t : TopologyGraph) :
    (∀ source dest, AllOrNone t source dest → (PathsAgree t source dest ↔
      (HasLinks t source ∧ HasLinks t dest ∧ source ≠ dest ∧
        (Reachable (Linked t) source dest → SmoothlyReachable t source dest)) ∨
      ¬ (HasLinks t source ∧ HasLinks t dest) ∧ (source = dest ∨ ¬ SmoothlyReachable t source dest))) ∧
    ((∀ source dest, HasLinks t source → HasLinks t dest → source ≠ dest → PathsAgree t source dest) ↔
      ∀ x y, Linked t x x → Linked t x y → HasLinks t y → y = x) := by
  refine ⟨fun source dest huniform => ?_, ?_, ?_⟩
  · by_cases hlinks : HasLinks t source ∧ HasLinks t dest
    · obtain ⟨hsource, hdest⟩ := hlinks
      refine ⟨fun h => .inl ⟨hsource, hdest, smooth_of_pathsAgree hsource hdest h⟩, ?_⟩
      rintro (⟨_, _, hne, hpass⟩ | ⟨hno, _⟩)
      · exact pathsAgree_of_smooth hsource hdest hne fun path hpath =>
          huniform (hpass ⟨path, hpath⟩) path hpath
      · exact absurd ⟨hsource, hdest⟩ hno
    · rw [pathsAgree_iff_of_no_links hlinks huniform]
      refine ⟨fun hcase => .inr ⟨hlinks, hcase⟩, ?_⟩
      rintro (⟨hsource, hdest, _⟩ | ⟨_, hcase⟩)
      · exact absurd ⟨hsource, hdest⟩ hlinks
      · exact hcase
  · intro hall x y hloop hy hlinks
    by_contra hne
    have hx : HasLinks t x := ⟨x, hloop⟩
    have hagree := smooth_of_pathsAgree hx hlinks (hall x y hx hlinks (Ne.symm hne))
    -- the path from such a node to the other would begin at a node without such a link
    obtain ⟨p, hp, _, hsmooth⟩ := hagree.2 ⟨_, (IsPath.singleton x).snoc hy⟩
    exact hsmooth x (List.mem_of_head? hp.head) (Ne.symm hne) hloop
  · intro hloops source dest hsource hdest hne
    exact pathsAgree_of_smooth hsource hdest hne fun path => smooth_of_loops hloops hdest

/-! ## A link to a node that was not heard of -/

/-- The switch has a link to a neighbour, which has not told its own links. -/
def newNeighbor : TopologyGraph where
  me :=
    { macAddr := chordMac 1
      links := (∅ : Std.ExtTreeMap UInt16 (MacAddress × UInt32)).insert 1 (chordMac 2, 0) }

/-- The shortest path is the link, but there are no disjoint paths. -/
theorem newNeighbor_disagrees : ¬ PathsAgree newNeighbor (chordMac 1) (chordMac 2) := by
  intro ⟨fuel, paths, hpaths, hagree⟩
  have hlinks : ¬ (HasLinks newNeighbor (chordMac 1) ∧ HasLinks newNeighbor (chordMac 2)) := by
    intro ⟨_, hdest⟩
    exact absurd (contains_edges_iff.mpr hdest) (by decide +kernel)
  rw [disjointPaths_nil fuel hlinks] at hpaths
  have hfound : newNeighbor.getShortestPath 4 (chordMac 1) (chordMac 2) = some [chordMac 1, chordMac 2] := by
    decide +kernel
  exact (hagree (by decide)).mpr ⟨4, _, hfound, List.cons_ne_nil _ _⟩ (Option.some.inj hpaths).symm

end IronStack.Proof
