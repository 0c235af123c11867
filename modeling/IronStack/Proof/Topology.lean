import IronStack.Proof.Bfs

/-!
# The edges of a topology, and its shortest paths

`to_simple_graph` has an edge for every link that the switch or one of the nodes it
has heard of reports, and no other.

`bfs` visits a node only when it has expanded it, and lets every neighbour that it
expands before become the parent. So the path it returns is not a shortest one, or
it does not return at all, in topologies as small as a triangle.
-/

namespace IronStack.Proof

open IronStack Lib IronStack.SimpleGraph TopologyGraph Std

/-- A node reports a link to a neighbour, at some port. -/
def HasLink (node : NetworkNode) (v : MacAddress) : Prop :=
  ∃ (port : UInt16) (time : UInt32), node.links[port]? = some (v, time)

/-- The links of a topology, by the addresses they join. -/
def Linked (t : TopologyGraph) (u v : MacAddress) : Prop :=
  (u = t.me.macAddr ∧ HasLink t.me v) ∨ ∃ node, t.otherNodes[u]? = some node ∧ HasLink node v

theorem mem_neighbors_addEdge {g : SimpleGraph} {a b u v : MacAddress} :
    v ∈ (g.addEdge a b).neighbors u ↔ (u = a ∧ v = b) ∨ v ∈ g.neighbors u := by
  rw [mem_neighbors, mem_neighbors, addEdge, getElem?_insert]
  by_cases ha : a = u
  · subst ha
    rw [if_pos rfl, Option.getD_some, ExtTreeSet.mem_insert]
    refine ⟨fun h => h.imp_left fun heq => ⟨rfl, (eq_of_compare_eq heq).symm⟩, fun h => ?_⟩
    rcases h with ⟨_, rfl⟩ | h
    · exact .inl ReflCmp.compare_self
    · exact .inr h
  · rw [if_neg ha]
    exact ⟨.inr, fun h => h.elim (fun heq => absurd heq.1.symm ha) id⟩

/-- What a loop adds to the edges is what its turns add. -/
theorem mem_neighbors_foldl {β : Type} {f : SimpleGraph → β → SimpleGraph}
    {P : β → MacAddress → MacAddress → Prop}
    (hstep : ∀ g a u v, v ∈ (f g a).neighbors u ↔ P a u v ∨ v ∈ g.neighbors u) (l : List β)
    {g : SimpleGraph} {u v : MacAddress} :
    v ∈ (l.foldl f g).neighbors u ↔ (∃ a ∈ l, P a u v) ∨ v ∈ g.neighbors u := by
  induction l generalizing g with
  | nil => simp
  | cons a l ih =>
      rw [List.foldl_cons, ih, hstep, List.exists_mem_cons_iff, or_left_comm, or_assoc]

theorem mem_neighbors_addLinks {g : SimpleGraph} {source u v : MacAddress} {node : NetworkNode} :
    v ∈ (addLinks g source node).neighbors u ↔ (u = source ∧ HasLink node v) ∨ v ∈ g.neighbors u := by
  rw [addLinks, mem_neighbors_foldl (P := fun link u v => u = source ∧ v = link.2.1)
    fun _ _ _ _ => mem_neighbors_addEdge]
  refine or_congr_left ⟨?_, ?_⟩
  · intro ⟨⟨port, w, time⟩, hlink, hu, hv⟩
    obtain rfl : v = w := hv
    exact ⟨hu, port, time, ExtTreeMap.mem_toList_iff_getElem?_eq_some.mp hlink⟩
  · intro ⟨hu, port, time, hlink⟩
    exact ⟨(port, v, time), ExtTreeMap.mem_toList_iff_getElem?_eq_some.mpr hlink, hu, rfl⟩

theorem mem_neighbors_toSimpleGraph {t : TopologyGraph} {u v : MacAddress} :
    v ∈ t.toSimpleGraph.neighbors u ↔ Linked t u v := by
  have hempty : v ∉ ({} : SimpleGraph).neighbors u := by
    rw [mem_neighbors, ExtTreeMap.getElem?_empty]
    exact ExtTreeSet.not_mem_empty
  rw [toSimpleGraph, mem_neighbors_foldl (P := fun entry u v => u = entry.1 ∧ HasLink entry.2 v)
    fun _ _ _ _ => mem_neighbors_addLinks, mem_neighbors_addLinks, Linked]
  refine ⟨?_, ?_⟩
  · rintro (⟨⟨source, node⟩, hnode, hu, hlink⟩ | hme | h)
    · obtain rfl : u = source := hu
      exact .inr ⟨node, ExtTreeMap.mem_toList_iff_getElem?_eq_some.mp hnode, hlink⟩
    · exact .inl hme
    · exact absurd h hempty
  · rintro (hme | ⟨node, hnode, hlink⟩)
    · exact .inr (.inl hme)
    · exact .inl ⟨(u, node), ExtTreeMap.mem_toList_iff_getElem?_eq_some.mpr hnode, rfl, hlink⟩

/-- Nothing flows in the graph that is made. -/
theorem flows_toSimpleGraph (t : TopologyGraph) : t.toSimpleGraph.flows = fun _ _ => false := by
  have hlinks : ∀ (g : SimpleGraph) (source : MacAddress) (node : NetworkNode),
      (addLinks g source node).flows = g.flows := by
    intro g source node
    exact List.foldlRecOn (motive := fun g' : SimpleGraph => g'.flows = g.flows) _ _ rfl
      fun _ ih _ _ => ih
  refine List.foldlRecOn (motive := fun g : SimpleGraph => g.flows = fun _ _ => false) _ _ (hlinks _ _ _)
    fun g ih entry _ => ?_
  rw [hlinks, ih]

/-- A node has an entry in the map of edges if and only if it has a link. -/
theorem contains_edges_iff {t : TopologyGraph} {u : MacAddress} :
    t.toSimpleGraph.edges.contains u ↔ ∃ v, Linked t u v := by
  have hlinks : ∀ (g : SimpleGraph) (source : MacAddress) (node : NetworkNode),
      (∀ u, g.edges.contains u → ∃ v, v ∈ g.neighbors u) →
        ∀ u, (addLinks g source node).edges.contains u → ∃ v, v ∈ (addLinks g source node).neighbors u := by
    intro g source node hg
    refine List.foldlRecOn (motive := fun g : SimpleGraph =>
      ∀ u, g.edges.contains u → ∃ v, v ∈ g.neighbors u) _ _ hg fun g ih link _ u hu => ?_
    by_cases hsource : source = u
    · exact ⟨_, mem_neighbors_addEdge.mpr (.inl ⟨hsource.symm, rfl⟩)⟩
    · have hold : g.edges.contains u := by
        rw [addEdge, ExtTreeMap.contains_insert, Bool.or_eq_true, beq_iff_eq] at hu
        exact hu.resolve_left fun heq => hsource (eq_of_compare_eq heq)
      obtain ⟨v, hv⟩ := ih u hold
      exact ⟨v, mem_neighbors_addEdge.mpr (.inr hv)⟩
  have hall : ∀ u, t.toSimpleGraph.edges.contains u → ∃ v, v ∈ t.toSimpleGraph.neighbors u := by
    refine List.foldlRecOn (motive := fun g : SimpleGraph =>
      ∀ u, g.edges.contains u → ∃ v, v ∈ g.neighbors u) _ _ (hlinks {} _ _ ?_)
      fun g ih entry _ => hlinks g _ _ ih
    intro u hu
    rw [ExtTreeMap.contains_empty] at hu
    cases hu
  refine ⟨fun hu => ?_, fun ⟨v, hv⟩ => ?_⟩
  · obtain ⟨v, hv⟩ := hall u hu
    exact ⟨v, mem_neighbors_toSimpleGraph.mp hv⟩
  · have hmem := mem_neighbors.mp (mem_neighbors_toSimpleGraph.mpr hv)
    rw [ExtTreeMap.contains_eq_isSome_getElem?]
    cases hu : t.toSimpleGraph.edges[u]? with
    | none =>
        rw [hu] at hmem
        exact absurd hmem ExtTreeSet.not_mem_empty
    | some _ => rfl

/-- The neighbours of a node are no more than the ports of two switches. -/
theorem length_neighbors_le (t : TopologyGraph) (u : MacAddress) :
    (t.toSimpleGraph.neighbors u).length ≤ 131072 := by
  have hsub : t.toSimpleGraph.neighbors u ⊆ t.me.links.toList.map (fun link => link.2.1) ++
      ((t.otherNodes[u]?.getD {}).links.toList.map fun link => link.2.1) := by
    intro v hv
    refine List.mem_append.mpr ?_
    rcases mem_neighbors_toSimpleGraph.mp hv with ⟨_, port, time, hlink⟩ | ⟨node, hnode, port, time, hlink⟩
    · exact .inl (List.mem_map.mpr ⟨_, ExtTreeMap.mem_toList_iff_getElem?_eq_some.mpr hlink, rfl⟩)
    · refine .inr (List.mem_map.mpr ⟨(port, v, time), ?_, rfl⟩)
      rw [hnode]
      exact ExtTreeMap.mem_toList_iff_getElem?_eq_some.mpr hlink
  have hle := (nodup_neighbors t.toSimpleGraph u).length_le_of_subset hsub
  rw [List.length_append, List.length_map, List.length_map] at hle
  have hme := length_toList_le t.me.links
  have hother := length_toList_le (t.otherNodes[u]?.getD {}).links
  omega

/-! ## Shortest paths -/

/-- `get_shortest_path` terminates, with a path of the fewest hops or, if there is no path, none. -/
def FindsShortest (t : TopologyGraph) (source dest : MacAddress) : Prop :=
  ∃ fuel path, t.getShortestPath fuel source dest = some path ∧
    ShortestPath (Linked t) source dest path

theorem mem_follows {g : SimpleGraph} {u v : MacAddress} : v ∈ follows g false u ↔ v ∈ g.neighbors u := by
  rw [follows, List.mem_filter]
  exact ⟨fun h => h.1, fun h => ⟨h, Bool.or_true _⟩⟩

/-- Without regard to flows `bfs` follows the links. -/
theorem hop_eq_linked (t : TopologyGraph) : Hop (follows t.toSimpleGraph false) = Linked t := by
  funext u v
  exact propext (mem_follows.trans mem_neighbors_toSimpleGraph)

/-- A node with a link to itself has no other. -/
def LoopsApart (t : TopologyGraph) : Prop := ∀ x, Linked t x x → ∀ y, Linked t x y → y = x

theorem findsShortest_of_no_detour {t : TopologyGraph} {source : MacAddress} (hloops : LoopsApart t)
    (hno : ∀ entries i v p m, Queue (follows t.toSimpleGraph false) macLt source entries entries.length →
      ¬ Detour (follows t.toSimpleGraph false) source entries i v p m) (dest : MacAddress) :
    FindsShortest t source dest := by
  rw [LoopsApart, ← hop_eq_linked] at hloops
  obtain ⟨fuel, path, hpath⟩ := bfs_returns hloops source dest
  refine ⟨fuel, path, hpath, ?_⟩
  rw [← hop_eq_linked]
  exact (bfs_outcome hpath).shortest (sorted_follows _ _) hloops hno

/-- Where all shortest paths are found, a node with a link to itself has no other. -/
theorem loops_of_findsShortest {t : TopologyGraph} (h : ∀ source dest, FindsShortest t source dest)
    {x y : MacAddress} (hloop : Linked t x x) (hy : Linked t x y) : y = x := by
  by_contra hne
  obtain ⟨fuel, path, hpath, hshort⟩ := h x y
  rw [← hop_eq_linked] at hloop hy hshort
  have hnil := (bfs_outcome hpath).nil_of_loop (sorted_follows _ _) hloop hne
  exact hshort.nil_iff.mp hnil (reachable_iff.mpr ⟨1, .hop .here hy⟩)

/--
Where all shortest paths from a node are found, no link leads from one node to another that
is as far away and comes later in the search.
-/
theorem not_earlier_of_findsShortest {t : TopologyGraph} {source : MacAddress} (hloops : LoopsApart t)
    (h : ∀ dest, FindsShortest t source dest) {x v : MacAddress} {m : Nat} (hxv : Linked t x v)
    (hx : Dist (Linked t) source x m) (hv : Dist (Linked t) source v m) :
    ¬ Earlier (Linked t) macLt source m x v := by
  intro hearlier
  obtain ⟨U, hU⟩ := exists_neighbors t.toSimpleGraph
  obtain ⟨entries, last, hend⟩ := @exists_end _ _ (follows t.toSimpleGraph false) _
    (fun x v hv => hU x v (mem_follows.mp hv)) source
  have hsorted := sorted_follows t.toSimpleGraph false
  have hq := hend.queue hsorted
  rw [LoopsApart, ← hop_eq_linked] at hloops
  rw [← hop_eq_linked] at *
  obtain ⟨i, e, he, rfl, hem⟩ := hq.first_of_dist hx
  obtain ⟨j, f, hf, rfl, hfm⟩ := hq.first_of_dist hv
  have hij := lt_of_earlier hq macLt_asymm he hf hem hfm hearlier
  -- the start of the link pushes its end, which is not expanded yet, and is no nearer
  have hnew : f.node ∉ before entries i := fun hmem => hf.new (before_mono (Nat.le_of_lt hij) hmem)
  have hne : f.node ≠ e.node := by
    intro heq
    have hle := hf.le he.place heq.symm
    omega
  refine no_detour_of_last hq hloops ?_ ⟨he.place, hxv, hnew, hne, hx, hv⟩
  intro k w hw hk
  obtain ⟨fuel, path, hpath, hshort⟩ := h w.node
  rw [← hop_eq_linked] at hshort
  exact (bfs_outcome hpath).last_pusher hsorted hend hw hk hshort

theorem untangled_of_findsShortest {t : TopologyGraph} (h : ∀ source dest, FindsShortest t source dest) :
    Untangled (Linked t) macLt := by
  have hloops : LoopsApart t := fun x hx y hy => loops_of_findsShortest h hx hy
  refine ⟨hloops, fun s a x v m ha hxv hax hsx hsv => ?_⟩
  by_contra hno
  refine not_earlier_of_findsShortest hloops (h s) hxv hsx hsv (earlier_of_hops ha hax hsx hsv ?_)
  intro b hb hbv
  by_contra hlt
  exact hno ⟨b, hb, hbv, hlt⟩

/--
**`get_shortest_path` finds the shortest paths of a topology, whatever the source and
the destination, if and only if its links are not tangled**: no node with a link to
itself has another one, and of two linked nodes that are equally far from some
source, the second is no later in the search than the first. Where links from a node to
itself stand apart, it finds those from one source exactly if this is true of that source.
-/
theorem findsShortest_iff (t : TopologyGraph) :
    ((∀ source dest, FindsShortest t source dest) ↔ Untangled (Linked t) macLt) ∧
    (LoopsApart t → ∀ source, (∀ dest, FindsShortest t source dest) ↔
      ∀ x v m, Linked t x v → Dist (Linked t) source x m → Dist (Linked t) source v m →
        ¬ Earlier (Linked t) macLt source m x v) := by
  refine ⟨⟨untangled_of_findsShortest, fun h source => ?_⟩, fun hloops source => ⟨?_, fun hlevels => ?_⟩⟩
  · refine findsShortest_of_no_detour h.loops fun _ _ _ _ _ hq => ?_
    rw [← hop_eq_linked] at h
    exact h.no_detour hq
  · exact fun h x v m hxv hx hv => not_earlier_of_findsShortest hloops h hxv hx hv
  · refine findsShortest_of_no_detour hloops fun _ _ _ _ _ hq => ?_
    rw [← hop_eq_linked] at hlevels
    exact no_detour_of_levels hq hlevels

/-! ## A triangle -/

/-- A switch and the links at its first two ports. -/
def corner (self left right : UInt8) : NetworkNode where
  macAddr := .ofOctets 2 0 0 0 0 self
  links := (∅ : Std.ExtTreeMap UInt16 (MacAddress × UInt32)).insert 1 (.ofOctets 2 0 0 0 0 left, 0)
    |>.insert 2 (.ofOctets 2 0 0 0 0 right, 0)

/-- Three switches, each linked to the other two. -/
def triangle : TopologyGraph where
  me := corner 1 2 3
  otherNodes := (∅ : Std.ExtTreeMap MacAddress NetworkNode).insert (corner 2 1 3).macAddr (corner 2 1 3)
    |>.insert (corner 3 1 2).macAddr (corner 3 1 2)

theorem triangle_path : triangle.getShortestPath 8 (corner 1 2 3).macAddr (corner 3 1 2).macAddr =
    some [(corner 1 2 3).macAddr, (corner 2 1 3).macAddr, (corner 3 1 2).macAddr] := by
  decide +kernel

/-- The second switch is taken on the way to the third, which the first has a link to. -/
theorem triangle_detour : ¬ FindsShortest triangle (corner 1 2 3).macAddr (corner 3 1 2).macAddr := by
  intro ⟨fuel, path, hpath, hshort⟩
  obtain rfl := bfs_unique hpath triangle_path
  have hlink : Linked triangle (corner 1 2 3).macAddr (corner 3 1 2).macAddr := by
    refine .inl ⟨rfl, 2, 0, ?_⟩
    exact Std.ExtTreeMap.getElem?_insert_self
  have hle := hshort.least _ ((IsPath.singleton _).snoc hlink)
  exact absurd hle (by decide)

end IronStack.Proof
