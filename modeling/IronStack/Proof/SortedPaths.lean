import IronStack.Lib.Exits
import IronStack.Proof.PathsAgree

/-!
# The order of the disjoint paths

`get_disjoint_paths` follows the flow that `max_flow` leaves: out of each node over the
lowest neighbour whose flow is still there, and without the cycles. The paths come in
the order of the source's neighbours, and are not sorted, so they are in the order of
their lengths only if lower neighbours of the source have the shorter ones.
-/

namespace IronStack.Proof

open IronStack Lib IronStack.SimpleGraph TopologyGraph Std

/-! ## Flow as exits -/

/-- The neighbours to which each node has flow, in order. -/
def exitsOf (g : SimpleGraph) : Exits MacAddress := fun u => (g.neighbors u).filter (g.getFlow u)

theorem mem_exitsOf {g : SimpleGraph} {u v : MacAddress} :
    v ∈ exitsOf g u ↔ v ∈ g.neighbors u ∧ g.getFlow u v = true := List.mem_filter

theorem sorted_exitsOf (g : SimpleGraph) (u : MacAddress) : (exitsOf g u).Pairwise macLt :=
  ExtTreeSet.ordered_toList.filter _

/-- To take the flow to the first of them takes that exit. -/
theorem exitsOf_falseFlow {g : SimpleGraph} {u v : MacAddress} {rest : List MacAddress}
    (hexit : exitsOf g u = v :: rest) :
    exitsOf (g.falseFlow u v) = Function.update (exitsOf g) u rest := by
  funext w
  have hflow : ∀ x, (g.falseFlow u v).getFlow w x = if w = u ∧ x = v then false else g.getFlow w x :=
    fun x => getFlow_setFlow g u v w x false
  by_cases hw : w = u
  · subst hw
    have hnodup : (exitsOf g w).Nodup := (nodup_neighbors g w).filter _
    rw [hexit] at hnodup
    have hsplit : exitsOf (g.falseFlow w v) w = (exitsOf g w).filter (· ≠ v) := by
      rw [exitsOf, exitsOf, List.filter_filter]
      refine List.filter_congr fun x _ => ?_
      rw [hflow]
      by_cases hx : x = v
      · simp [hx]
      · simp [hx]
    rw [hsplit, hexit, Function.update_self, List.filter_cons_of_neg (by simp)]
    refine List.filter_eq_self.mpr fun x hx => decide_eq_true ?_
    rintro rfl
    exact (List.nodup_cons.mp hnodup).1 hx
  · rw [Function.update_of_ne hw]
    refine List.filter_congr fun x _ => ?_
    rw [hflow, if_neg fun h => hw h.1]

/-! ## The walk along them -/

section Path

variable {trail : Trail} {v : MacAddress}

theorem advance_of_exit {rest : List MacAddress} (hexit : exitsOf trail.graph trail.current = v :: rest) :
    trail.advance = stepAlong trail v := by
  have hfind : (trail.graph.neighbors trail.current).find? (trail.graph.getFlow trail.current) = some v := by
    rw [← List.head?_filter]
    exact congrArg List.head? hexit
  rw [Trail.advance, hfind, stepAlong]

theorem popUntil_none {path : List MacAddress} (hv : v ∉ path) (contents : ExtTreeSet MacAddress) :
    Trail.popUntil v path contents = none := by
  induction path generalizing contents with
  | nil => rfl
  | cons u path ih =>
      obtain ⟨hu, hrest⟩ := not_or.mp (mt List.mem_cons.mpr hv)
      rw [Trail.popUntil, if_neg (Ne.symm hu), ih hrest]

/-- Where no flow leads on, the walk takes the whole path for a cycle. -/
theorem OnPath.stuck (h : OnPath trail) (hexit : exitsOf trail.graph trail.current = []) :
    trail.advance.removeCycle = none := by
  have hfind : (trail.graph.neighbors trail.current).find? (trail.graph.getFlow trail.current) = none := by
    rw [← List.head?_filter]
    exact congrArg List.head? hexit
  obtain ⟨path, hpath⟩ := h.path_eq
  have hnodup := h.nodup
  have hcontains : trail.pathContents.contains trail.current = true := by
    rw [ExtTreeSet.contains_iff_mem, h.contents, hpath]
    exact List.mem_cons_self
  rw [hpath] at hnodup
  rw [Trail.advance, hfind]
  show trail.removeCycle = none
  rw [Trail.removeCycle, if_pos hcontains, hpath]
  show Option.map _ (Trail.popUntil trail.current path trail.pathContents) = none
  rw [popUntil_none (List.nodup_cons.mp hnodup).1, Option.map_none]

/--
**The path is the walk along the exits, without its loops.** By induction on the fuel: a
cycle that the path loses is a loop that the walk so far has.
-/
theorem OnPath.walk {dest : MacAddress} {fuel : Nat} {trail' : Trail} (h : OnPath trail)
    (hwalk : Trail.walk dest fuel trail = some trail') : ∃ walk,
      ExitWalk dest (exitsOf trail.graph) trail.current walk (exitsOf trail'.graph) ∧
        trail'.path.reverse = loopErase (trail.path.tail.reverse ++ walk) := by
  induction fuel generalizing trail with
  | zero => cases hwalk
  | succ fuel ih =>
      obtain ⟨path, hpath⟩ := h.path_eq
      have hnodup := h.nodup
      rw [Trail.walk] at hwalk
      by_cases hdest : trail.current = dest
      · rw [if_pos hdest] at hwalk
        obtain rfl := Option.some.inj hwalk
        refine ⟨[trail.current], ?_, ?_⟩
        · rw [hdest]
          exact .arrive
        rw [hpath, List.tail_cons, ← List.reverse_cons, ← hpath]
        exact (loopErase_of_nodup (List.nodup_reverse.mpr hnodup)).symm
      rw [if_neg hdest] at hwalk
      cases hexit : exitsOf trail.graph trail.current with
      | nil =>
          rw [h.stuck hexit] at hwalk
          cases hwalk
      | cons v rest =>
          rw [advance_of_exit hexit] at hwalk
          by_cases hseen : v ∈ trail.path
          · obtain ⟨trail₁, a, b, hremove, hon, hsplit, hpath₁, hcurrent, hgraph⟩ := h.back hseen
            rw [hremove, Option.bind_some] at hwalk
            obtain ⟨walk, htail, herase⟩ := ih hon hwalk
            rw [hgraph, exitsOf_falseFlow hexit, hcurrent] at htail
            obtain ⟨c, rfl⟩ := htail.head
            refine ⟨trail.current :: v :: c, .leave hdest hexit htail, ?_⟩
            -- the walk so far has been in `v` before, where the path is cut back to
            have hwalked : trail.path.tail.reverse ++ trail.current :: v :: c =
                trail.path.reverse ++ v :: c := by simp [hpath]
            rw [hsplit] at hnodup
            rw [herase, hpath₁, List.tail_cons, hwalked, hsplit, loopErase_back hnodup]
          · obtain ⟨trail₁, hremove, hon, hpath₁, hcurrent, hgraph⟩ := h.ahead hseen
            rw [hremove, Option.bind_some] at hwalk
            obtain ⟨walk, htail, herase⟩ := ih hon hwalk
            rw [hgraph, exitsOf_falseFlow hexit, hcurrent] at htail
            refine ⟨trail.current :: walk, .leave hdest hexit htail, ?_⟩
            rw [herase, hpath₁, List.tail_cons, hpath]
            simp

end Path

/-- The paths are those of so many walks, one after the other. -/
theorem walks_of_tracePaths {g : SimpleGraph} {source dest : MacAddress} {fuel n : Nat}
    {paths : List (List MacAddress)} (h : g.tracePaths source dest fuel n = some paths) :
    ∃ walks, ExitWalks source dest (exitsOf g) walks ∧ paths = walks.map loopErase ∧ walks.length = n := by
  induction n generalizing g paths with
  | zero =>
      cases h
      exact ⟨[], .nil, rfl, rfl⟩
  | succ n ih =>
      rw [SimpleGraph.tracePaths] at h
      obtain ⟨trail, hwalk, hrest⟩ := Option.bind_eq_some_iff.mp h
      obtain ⟨paths', hpaths', rfl⟩ := Option.map_eq_some_iff.mp hrest
      obtain ⟨walk, hfirst, herase⟩ := (onPath_start g source).walk hwalk
      obtain ⟨walks, hwalks, rfl, hlen⟩ := ih hpaths'
      refine ⟨walk :: walks, .cons hfirst hwalks, ?_, by rw [List.length_cons, hlen]⟩
      rw [herase]
      rfl

/-! ## The paths of a topology -/

/-- The length of a path, in hops. -/
def hops (path : List MacAddress) : Nat := (pathEdges path).length

def NoMoreHops (p q : List MacAddress) : Prop := hops p ≤ hops q

instance (p q : List MacAddress) : Decidable (NoMoreHops p q) := Nat.decLe _ _

/-- `get_disjoint_paths` returns, and whatever it returns is sorted by length. -/
def ReturnsSorted (t : TopologyGraph) (source dest : MacAddress) : Prop :=
  (∃ fuel paths, t.getDisjointPaths fuel source dest = some paths) ∧
    ∀ fuel paths, t.getDisjointPaths fuel source dest = some paths → paths.Pairwise NoMoreHops

/--
Edge-disjoint paths along the edges of paths that were taken, as many as those, in the order
of the nodes after the source.
-/
structure Retraced (source dest : MacAddress) (taken paths : List (List MacAddress)) : Prop where
  disjoint : EdgeDisjoint (fun u v => ∃ p ∈ taken, (u, v) ∈ edgesOf p) source dest paths
  length : paths.length = taken.length
  ordered : paths.Pairwise fun p q => ∀ u ∈ p.tail.head?, ∀ v ∈ q.tail.head?, macLt u v

/-- More fuel does not change which paths are walked. -/
theorem tracePaths_unique {g : SimpleGraph} {source dest : MacAddress} {fuel fuel' n : Nat}
    {paths paths' : List (List MacAddress)} (h : g.tracePaths source dest fuel n = some paths)
    (h' : g.tracePaths source dest fuel' n = some paths') : paths = paths' := by
  obtain ⟨walks, hwalks, rfl, hlen⟩ := walks_of_tracePaths h
  obtain ⟨walks', hwalks', rfl, hlen'⟩ := walks_of_tracePaths h'
  rw [hwalks.unique hwalks' (hlen.trans hlen'.symm)]

/-- The paths leave the source over its neighbours in their order, if no flow leads back into it. -/
theorem ordered_of_tracePaths {g : SimpleGraph} {source dest : MacAddress} {fuel n : Nat}
    {paths : List (List MacAddress)} (hne : source ≠ dest) (hsource : ∀ u, g.getFlow u source = false)
    (h : g.tracePaths source dest fuel n = some paths) :
    paths.Pairwise fun p q => ∀ u ∈ p.tail.head?, ∀ v ∈ q.tail.head?, macLt u v := by
  obtain ⟨walks, hwalks, rfl, _⟩ := walks_of_tracePaths h
  have hexits : ∀ w, source ∉ exitsOf g w := by
    intro w hmem
    have hflow := (mem_exitsOf.mp hmem).2
    rw [hsource] at hflow
    cases hflow
  have hsorted : ((exitsOf g source).map some).Pairwise fun a b => ∀ u ∈ a, ∀ v ∈ b, macLt u v := by
    refine List.pairwise_map.mpr ((sorted_exitsOf g source).imp fun hlt u hu v hv => ?_)
    cases hu
    cases hv
    exact hlt
  have hseconds := hsorted.sublist (hwalks.seconds hne hexits).sublist
  exact List.pairwise_map.mpr (List.pairwise_map.mp hseconds)

section Topology

variable {t : TopologyGraph} {source dest : MacAddress} {g : SimpleGraph} {fuel : Nat}

theorem run_of_disjointPaths {paths : List (List MacAddress)}
    (hsource : HasLinks t source) (hdest : HasLinks t dest)
    (h : t.getDisjointPaths fuel source dest = some paths) :
    ∃ g, t.toSimpleGraph.maxFlowGraph fuel source dest = some g ∧
      g.tracePaths source dest fuel (g.flowValue source).toNat = some paths := by
  rw [getDisjointPaths, contains_edges_iff.mpr hsource, contains_edges_iff.mpr hdest] at h
  exact Option.bind_eq_some_iff.mp h

/-- `max_flow` takes paths until none is left, and leaves their flow, but for what it takes back. -/
theorem flow_of_maxFlowGraph (hne : source ≠ dest)
    (hg : t.toSimpleGraph.maxFlowGraph fuel source dest = some g) :
    ∃ ps F, Exhausted (Linked t) macLt source dest ps ∧ Balanced source dest g ps.length F ∧
      F ⊆ used ps ∧ (g.flowValue source).toNat = ps.length := by
  obtain ⟨g', hg', rfl⟩ := Option.map_eq_some_iff.mp hg
  obtain ⟨hstates, _, hnil⟩ := augment_ends hg'
  obtain ⟨ps, hps⟩ := hstates.carries (carries_start t source dest)
  obtain ⟨F, hF, hsub⟩ := hps.balanced.cancelOpposite
  have hno := unreachable_of_bfs_nil hnil
  rw [hps.unused] at hno
  exact ⟨ps, F, ⟨hps.taken, hno⟩, hF, hsub, flowValue_cancelOpposite hstates hps hne⟩

/-- **The paths that are returned** are those of paths that were taken, in the order of the neighbours. -/
theorem retraced_of_disjointPaths (hne : source ≠ dest) (hsource : HasLinks t source)
    (hdest : HasLinks t dest) {paths : List (List MacAddress)}
    (h : t.getDisjointPaths fuel source dest = some paths) :
    ∃ ps, Exhausted (Linked t) macLt source dest ps ∧ Retraced source dest ps paths := by
  obtain ⟨g, hg, htrace⟩ := run_of_disjointPaths hsource hdest h
  obtain ⟨ps, F, hexhausted, hF, hsub, hvalue⟩ := flow_of_maxFlowGraph hne hg
  rw [hvalue] at htrace
  have hused : ∀ e ∈ F, ∃ p ∈ ps, (e.1, e.2) ∈ edgesOf p := fun e he => mem_used.mp (hsub he)
  obtain ⟨paths', hpaths', hlen, hdisjoint, _⟩ := hF.tracePaths (E := fun u v => ∃ p ∈ ps, (u, v) ∈ edgesOf p)
    hused (Nat.lt_succ_self F.card)
  obtain rfl := tracePaths_unique htrace hpaths'
  refine ⟨ps, hexhausted, hdisjoint, hlen, ordered_of_tracePaths hne (fun u => ?_) htrace⟩
  rw [← Bool.not_eq_true, hF.flows]
  exact hF.source u

theorem returnsSorted_of_no_links (h : ¬ (HasLinks t source ∧ HasLinks t dest)) :
    ReturnsSorted t source dest := by
  refine ⟨⟨0, [], disjointPaths_nil 0 h⟩, fun fuel paths hpaths => ?_⟩
  rw [disjointPaths_nil fuel h] at hpaths
  cases hpaths
  exact .nil

end Topology

/-- Each switch has links to the two next to it, and the first and the last one are neighbours. -/
def fiveRing : TopologyGraph where
  me := chordNode 1 2 5
  otherNodes := (∅ : ExtTreeMap MacAddress NetworkNode).insert (chordMac 2) (chordNode 2 1 3)
    |>.insert (chordMac 3) (chordNode 3 2 4)
    |>.insert (chordMac 4) (chordNode 4 3 5)
    |>.insert (chordMac 5) (chordNode 5 4 1)

theorem fiveRing_loopless (x : MacAddress) : ¬ Linked fiveRing x x := by
  have hall : ∀ e ∈ fiveRing.toSimpleGraph.allEdges, e.1 ≠ e.2 := by decide +kernel
  exact fun h => hall _ (mem_allEdges (mem_neighbors_toSimpleGraph.mpr h)) rfl

end IronStack.Proof
