import IronStack.Lib.Detours
import IronStack.Topology.Graph

/-!
# What `bfs` explores

The loop of `bfs` is a search with repeated entries: what it has visited was
expanded, its frontier holds the entries not taken yet, and its map of parents the
last pusher of each node. It comes to its end whatever the links are. The way back
from the destination does too, unless it comes to a node that is its own parent.
-/

namespace IronStack.Proof

open IronStack Lib IronStack.SimpleGraph Std

/-- Addresses in the order of the maps. -/
def macLt (a b : MacAddress) : Prop := compare a b = .lt

theorem macLt_asymm (a b : MacAddress) (h : macLt a b) : ¬ macLt b a := by
  intro h'
  have hgt : compare b a = .gt := OrientedCmp.gt_of_lt h
  rw [macLt, hgt] at h'
  cases h'

/-- The neighbours that `bfs` follows, with or without regard to flows. -/
def follows (g : SimpleGraph) (useFlows : Bool) (x : MacAddress) : List MacAddress :=
  (g.neighbors x).filter fun v => !g.getFlow x v || !useFlows

theorem sorted_follows (g : SimpleGraph) (useFlows : Bool) (x : MacAddress) :
    (follows g useFlows x).Pairwise macLt :=
  ExtTreeSet.ordered_toList.filter _

theorem mem_neighbors {g : SimpleGraph} {u v : MacAddress} :
    v ∈ g.neighbors u ↔ v ∈ g.edges[u]?.getD ∅ := ExtTreeSet.mem_toList

theorem nodup_neighbors (g : SimpleGraph) (x : MacAddress) : (g.neighbors x).Nodup := by
  refine List.Pairwise.imp ?_ (ExtTreeSet.ordered_toList (t := g.edges[x]?.getD ∅))
  intro a b hlt heq
  rw [heq] at hlt
  exact macLt_asymm b b hlt hlt

theorem mem_allEdges {g : SimpleGraph} {u v : MacAddress} (h : v ∈ g.neighbors u) :
    (u, v) ∈ g.allEdges := by
  unfold neighbors at h
  cases hu : g.edges[u]? with
  | none =>
      rw [hu] at h
      exact absurd h (by simp)
  | some dests =>
      rw [hu] at h
      have hentry : (u, dests) ∈ g.edges.toList := ExtTreeMap.mem_toList_iff_getElem?_eq_some.mpr hu
      exact List.mem_flatMap.mpr ⟨_, hentry, List.mem_map.mpr ⟨v, h, rfl⟩⟩

/-- There are finitely many neighbours. -/
theorem exists_neighbors (g : SimpleGraph) : ∃ U : List MacAddress, ∀ x, ∀ v ∈ g.neighbors x, v ∈ U :=
  ⟨g.allEdges.map Prod.snd, fun x v hv => List.mem_map.mpr ⟨(x, v), mem_allEdges hv, rfl⟩⟩

/-- What the loop over the neighbours of a node pushes. -/
def pushed (g : SimpleGraph) (useFlows : Bool) (next : MacAddress) (search : Search)
    (l : List MacAddress) : List MacAddress :=
  (l.filter fun v => !g.getFlow next v || !useFlows).filter fun v => !search.visited.contains v

theorem foldl_visitNeighbor (g : SimpleGraph) (useFlows : Bool) (next : MacAddress)
    (l : List MacAddress) (search : Search) :
    (l.foldl (g.visitNeighbor useFlows next) search).visited = search.visited ∧
      (l.foldl (g.visitNeighbor useFlows next) search).frontier =
        search.frontier ++ pushed g useFlows next search l ∧
      ∀ a, (l.foldl (g.visitNeighbor useFlows next) search).parent[a]? =
        if a ∈ pushed g useFlows next search l then some next else search.parent[a]? := by
  induction l generalizing search with
  | nil => exact ⟨rfl, (List.append_nil _).symm, fun _ => rfl⟩
  | cons v l ih =>
      rw [List.foldl_cons]
      obtain ⟨hvisited, hfrontier, hparent⟩ := ih (g.visitNeighbor useFlows next search v)
      by_cases hpush : search.visited.contains v = false ∧ (!g.getFlow next v || !useFlows) = true
      · obtain ⟨hseen, hfree⟩ := hpush
        have hstep : g.visitNeighbor useFlows next search v =
            { search with
              parent := search.parent.insert v next
              frontier := search.frontier ++ [v] } := by
          rw [visitNeighbor, if_neg (by rw [hseen]; exact Bool.false_ne_true), if_pos hfree]
        have hpushed : pushed g useFlows next search (v :: l) = v :: pushed g useFlows next search l := by
          rw [pushed, List.filter_cons, if_pos hfree, List.filter_cons, if_pos (by simp [hseen])]
          rfl
        rw [hstep] at hvisited hfrontier hparent ⊢
        rw [hpushed]
        refine ⟨hvisited, ?_, fun a => ?_⟩
        · rw [hfrontier, List.append_assoc]
          rfl
        · have hat := hparent a
          rw [getElem?_insert] at hat
          rw [hat]
          by_cases ha : a ∈ pushed g useFlows next search l
          · rw [if_pos (List.mem_cons_of_mem _ ha)]
            exact if_pos ha
          · by_cases hva : v = a
            · subst hva
              rw [if_pos List.mem_cons_self, if_pos rfl]
              exact ite_self _
            · rw [if_neg fun h => (List.mem_cons.mp h).elim (hva ∘ Eq.symm) ha, if_neg hva]
              exact if_neg ha
      · -- a neighbour that was visited, or that no flow can be sent to, is passed over
        have hstep : g.visitNeighbor useFlows next search v = search := by
          rw [visitNeighbor]
          split
          · rfl
          · rename_i hseen
            rw [if_neg fun hfree => hpush ⟨Bool.not_eq_true _ ▸ hseen, hfree⟩]
        have hpushed : pushed g useFlows next search (v :: l) = pushed g useFlows next search l := by
          simp only [pushed, List.filter_cons]
          split
          · rename_i hfree
            have hseen : search.visited.contains v = true := by
              by_contra hnot
              exact hpush ⟨Bool.not_eq_true _ ▸ hnot, hfree⟩
            rw [List.filter_cons, if_neg (by simp [hseen])]
          · rfl
        rw [hstep] at hvisited hfrontier hparent ⊢
        rw [hpushed]
        exact ⟨hvisited, hfrontier, hparent⟩

/-- What a search of the loop stands for. -/
structure Tracks (g : SimpleGraph) (useFlows : Bool) (source : MacAddress) (search : Search)
    (entries : List (Entry MacAddress)) (n : Nat) (parent : MacAddress → Option MacAddress) : Prop where
  explored : Explored (follows g useFlows) source entries n parent
  visited : ∀ v, v ∈ search.visited ↔ v ∈ before entries n
  frontier : search.frontier = (entries.drop n).map Entry.node
  parents : ∀ v, search.parent[v]? = parent v

section Loop

variable {g : SimpleGraph} {useFlows : Bool} {source dest : MacAddress} {search : Search}
  {entries : List (Entry MacAddress)} {n : Nat} {parent : MacAddress → Option MacAddress}

theorem tracks_start : Tracks g useFlows source { frontier := [source] } [⟨source, 0, 0⟩] 0
    fun _ => none := by
  refine ⟨.start, fun v => ?_, rfl, fun v => ?_⟩
  · rw [before, List.take_zero]
    exact ⟨fun h => absurd h ExtTreeSet.not_mem_empty, fun h => absurd h List.not_mem_nil⟩
  · exact ExtTreeMap.getElem?_empty

theorem Tracks.head (h : Tracks g useFlows source search entries n parent) {next : MacAddress}
    {frontier : List MacAddress} (hfrontier : search.frontier = next :: frontier) :
    ∃ e, entries[n]? = some e ∧ e.node = next ∧ (entries.drop (n + 1)).map Entry.node = frontier := by
  have hmap := h.frontier
  rw [hfrontier] at hmap
  by_cases hlt : n < entries.length
  · rw [List.drop_eq_getElem_cons hlt, List.map_cons] at hmap
    injection hmap with hnext hrest
    exact ⟨entries[n], List.getElem?_eq_getElem hlt, hnext.symm, hrest.symm⟩
  · rw [List.drop_eq_nil_of_le (Nat.le_of_not_lt hlt)] at hmap
    cases hmap

/-- The loop over the neighbours takes the next entry. -/
theorem Tracks.expand (h : Tracks g useFlows source search entries n parent) {e : Entry MacAddress}
    (hhead : entries[n]? = some e) {frontier : List MacAddress}
    (hfrontier : (entries.drop (n + 1)).map Entry.node = frontier) :
    Tracks g useFlows source (g.expand useFlows e.node { search with frontier := frontier })
      (entries ++ pushes (follows g useFlows) entries n e) (n + 1) fun v =>
        if v ∈ follows g useFlows e.node ∧ v ∉ before entries n then some e.node else parent v := by
  have hlt : n < entries.length := (List.getElem?_eq_some_iff.mp hhead).1
  obtain ⟨hvisited, hqueue, hparent⟩ :=
    foldl_visitNeighbor g useFlows e.node (g.neighbors e.node) { search with frontier := frontier }
  have hpushed : pushed g useFlows e.node { search with frontier := frontier } (g.neighbors e.node) =
      (follows g useFlows e.node).filter fun v => v ∉ before entries n := by
    refine List.filter_congr fun v _ => ?_
    rw [Bool.eq_iff_iff, Bool.not_eq_true', decide_eq_true_eq, ← h.visited, ← ExtTreeSet.contains_iff_mem,
      Bool.not_eq_true]
  refine ⟨h.explored.next hhead, fun v => ?_, ?_, fun v => ?_⟩
  · rw [SimpleGraph.expand, before_append (by omega), before_succ hhead, List.mem_append,
      List.mem_singleton, ← h.visited, ExtTreeSet.mem_insert, hvisited]
    refine ⟨fun hv => hv.elim (fun heq => .inr (eq_of_compare_eq heq).symm) .inl, fun hv => ?_⟩
    rcases hv with hv | rfl
    · exact .inr hv
    · exact .inl ReflCmp.compare_self
  · rw [SimpleGraph.expand, hqueue, hpushed, List.drop_append_of_le_length (by omega), List.map_append,
      hfrontier, pushes, List.map_map]
    exact congrArg _ (List.map_id _).symm
  · rw [SimpleGraph.expand, hparent, hpushed]
    simp only [List.mem_filter, decide_eq_true_eq, h.parents]

/-! ## The way back -/

theorem traced_of_traceBack {parents : ExtTreeMap MacAddress MacAddress} {fuel : Nat} {v : MacAddress}
    {path back : List MacAddress} (h : traceBack parents fuel v path = some back) :
    ∃ p, Traced (fun a => parents[a]?) v (p ++ [v]) ∧ back = path ++ p.reverse := by
  induction fuel generalizing v path with
  | zero => cases h
  | succ fuel ih =>
      rw [traceBack] at h
      split at h
      · rename_i hnone
        cases h
        exact ⟨[], .root hnone, (List.append_nil _).symm⟩
      · rename_i u hsome
        obtain ⟨p, htraced, rfl⟩ := ih h
        exact ⟨p ++ [u], .step hsome htraced, by simp⟩

theorem traceBack_of_traced {parents : ExtTreeMap MacAddress MacAddress} {v : MacAddress}
    {path : List MacAddress} (h : Traced (fun a => parents[a]?) v path) (back : List MacAddress) :
    ∃ fuel found, traceBack parents fuel v back = some found := by
  induction h generalizing back with
  | @root v hnone =>
      refine ⟨1, back, ?_⟩
      rw [traceBack]
      split
      · rfl
      · rename_i _ hsome
        rw [hnone] at hsome
        cases hsome
  | @step u v path hsome _ ih =>
      obtain ⟨fuel, found, hfound⟩ := ih (back ++ [u])
      refine ⟨fuel + 1, found, ?_⟩
      rw [traceBack]
      split
      · rename_i hnone
        rw [hsome] at hnone
        cases hnone
      · rename_i w hw
        rw [hsome] at hw
        cases hw
        exact hfound

/-! ## The end of the loop -/

/-- How a search ends, as part of the one that goes on to the last entry. -/
inductive Outcome (adj : MacAddress → List MacAddress) (source dest : MacAddress) :
    List MacAddress → Prop where
  | nowhere {entries : List (Entry MacAddress)} {parent : MacAddress → Option MacAddress}
      (hend : Explored adj source entries entries.length parent)
      (hno : dest ∉ before entries entries.length) : Outcome adj source dest []
  | found {entries : List (Entry MacAddress)} {n : Nat} {last parent : MacAddress → Option MacAddress}
      {f : Entry MacAddress} {path : List MacAddress}
      (hend : Explored adj source entries entries.length last) (hparents : Parents adj entries n parent)
      (hfirst : First entries n f) (hdest : f.node = dest) (htraced : Traced parent dest path) :
      Outcome adj source dest path

/-- A search is part of one that goes on to the last entry. -/
theorem Tracks.full (h : Tracks g useFlows source search entries n parent) {e : Entry MacAddress}
    (hfirst : First entries n e) :
    ∃ entries' last, Explored (follows g useFlows) source entries' entries'.length last ∧
      Parents (follows g useFlows) entries' n parent ∧ First entries' n e := by
  obtain ⟨U, hU⟩ := exists_neighbors g
  obtain ⟨entries', last, hend⟩ := @exists_end _ _ (follows g useFlows) _
    (fun x v hv => hU x v (List.mem_filter.mp hv).1) source
  obtain ⟨_, l, rfl⟩ := h.explored.prefix_end hend
  have hlt := (List.getElem?_eq_some_iff.mp hfirst.place).1
  refine ⟨_, last, hend, h.explored.parents.append h.explored.le l, ?_, ?_⟩
  · rw [List.getElem?_append_left hlt, hfirst.place]
  · rw [before_append h.explored.le]
    exact hfirst.new

theorem not_mem_before_next (hnew : dest ∉ before entries n) {e : Entry MacAddress}
    (hhead : entries[n]? = some e) (hne : e.node ≠ dest) (l : List (Entry MacAddress)) :
    dest ∉ before (entries ++ l) (n + 1) := by
  rw [before_append (List.getElem?_eq_some_iff.mp hhead).1, before_succ hhead]
  intro hmem
  rcases List.mem_append.mp hmem with hmem | hmem
  · exact hnew hmem
  · exact hne (List.mem_singleton.mp hmem).symm

/-- Whenever the loop returns, it has ended in one of the two ways. -/
theorem Tracks.outcome {fuel : Nat} {path : List MacAddress}
    (h : Tracks g useFlows source search entries n parent) (hnew : dest ∉ before entries n)
    (hpath : g.bfsLoop dest useFlows fuel search = some path) :
    Outcome (follows g useFlows) source dest path := by
  induction fuel generalizing search entries n parent with
  | zero => cases hpath
  | succ fuel ih =>
      rw [bfsLoop] at hpath
      split at hpath
      · rename_i hnil
        cases hpath
        have hdrop := h.frontier
        rw [hnil] at hdrop
        have hle := List.drop_eq_nil_iff.mp (List.map_eq_nil_iff.mp hdrop.symm)
        have hn : n = entries.length := Nat.le_antisymm h.explored.le hle
        subst hn
        exact .nowhere h.explored hnew
      · rename_i next frontier hcons
        obtain ⟨e, hhead, rfl, hrest⟩ := h.head hcons
        split at hpath
        · rename_i hdest
          subst hdest
          obtain ⟨back, hback, rfl⟩ := Option.map_eq_some_iff.mp hpath
          obtain ⟨p, htraced, rfl⟩ := traced_of_traceBack hback
          obtain ⟨_, _, hend, hparents, hfirst⟩ := h.full ⟨hhead, hnew⟩
          have heq : (fun a => search.parent[a]?) = parent := funext h.parents
          rw [heq] at htraced
          refine .found hend hparents hfirst rfl ?_
          simpa using htraced
        · rename_i hne
          exact ih (h.expand hhead hrest) (not_mem_before_next hnew hhead hne _) hpath

theorem bfs_outcome {fuel : Nat} {path : List MacAddress}
    (h : g.bfs fuel source dest useFlows = some path) : Outcome (follows g useFlows) source dest path := by
  refine tracks_start.outcome ?_ h
  rw [before, List.take_zero]
  exact List.not_mem_nil

/-! ## Termination -/

/-- The searches that the loop goes through until it comes to the destination. -/
inductive Searching (g : SimpleGraph) (useFlows : Bool) (source dest : MacAddress) : Search → Prop where
  | start : Searching g useFlows source dest { frontier := [source] }
  | next {search : Search} {next : MacAddress} {frontier : List MacAddress}
      (h : Searching g useFlows source dest search) (hfrontier : search.frontier = next :: frontier)
      (hne : next ≠ dest) :
      Searching g useFlows source dest (g.expand useFlows next { search with frontier := frontier })

/-- The search comes to the destination, and the way back from there to a node that is its own parent. -/
def Stuck (g : SimpleGraph) (useFlows : Bool) (source dest : MacAddress) : Prop :=
  ∃ search frontier x, Searching g useFlows source dest search ∧ search.frontier = dest :: frontier ∧
    Ancestor (fun a => search.parent[a]?) dest x ∧ search.parent[x]? = some x

theorem Searching.tracks (h : Searching g useFlows source dest search) :
    ∃ entries n parent, Tracks g useFlows source search entries n parent ∧ dest ∉ before entries n := by
  induction h with
  | start =>
      refine ⟨_, _, _, tracks_start, ?_⟩
      rw [before, List.take_zero]
      exact List.not_mem_nil
  | next _ hfrontier hne ih =>
      obtain ⟨entries, n, parent, htracks, hnew⟩ := ih
      obtain ⟨e, hhead, rfl, hrest⟩ := htracks.head hfrontier
      exact ⟨_, _, _, htracks.expand hhead hrest, not_mem_before_next hnew hhead hne _⟩

/--
**The loop returns.** Every search of a finite graph takes its last entry, unless the
way back from the destination has no end.
-/
theorem Searching.returns (hstuck : ¬ Stuck g useFlows source dest)
    (h : Searching g useFlows source dest search) :
    ∃ fuel path, g.bfsLoop dest useFlows fuel search = some path := by
  obtain ⟨U, hU⟩ := exists_neighbors g
  obtain ⟨entries, n, parent, htracks, hnew⟩ := h.tracks
  refine Explored.end_induction (motive := fun entries n parent => ∀ search,
    Searching g useFlows source dest search → Tracks g useFlows source search entries n parent →
      dest ∉ before entries n → ∃ fuel path, g.bfsLoop dest useFlows fuel search = some path)
    (fun x v hv => hU x v (List.mem_filter.mp hv).1) ?_ ?_ htracks.explored search h htracks hnew
  · intro entries parent _ search _ htracks _
    have hnil := htracks.frontier
    rw [List.drop_length, List.map_nil] at hnil
    refine ⟨1, [], ?_⟩
    rw [bfsLoop, hnil]
  · intro entries n parent e _ hhead ih search hsearch htracks hnew
    obtain ⟨hlt, hat⟩ := List.getElem?_eq_some_iff.mp hhead
    have hcons : search.frontier = e.node :: (entries.drop (n + 1)).map Entry.node := by
      rw [htracks.frontier, List.drop_eq_getElem_cons hlt, List.map_cons, hat]
    by_cases hdest : e.node = dest
    · subst hdest
      obtain ⟨entries', last, _, hparents, hfirst⟩ := htracks.full ⟨hhead, hnew⟩
      obtain ⟨path, htraced⟩ := exists_traced_of_no_own hparents hfirst (Nat.le_refl n) fun x hx hown => by
        rw [← funext htracks.parents] at hx
        rw [← htracks.parents] at hown
        exact hstuck ⟨search, _, x, hsearch, hcons, hx, hown⟩
      rw [← funext htracks.parents] at htraced
      obtain ⟨fuel, back, hback⟩ := traceBack_of_traced htraced [e.node]
      refine ⟨fuel + 1, back.reverse, ?_⟩
      rw [bfsLoop, hcons]
      dsimp only
      rw [if_pos rfl, hback]
      rfl
    · have hexpand := htracks.expand hhead rfl
      obtain ⟨fuel, path, hpath⟩ := ih _ _ hexpand.explored _ (hsearch.next hcons hdest) hexpand
        (not_mem_before_next hnew hhead hdest _)
      refine ⟨fuel + 1, path, ?_⟩
      rw [bfsLoop, hcons]
      dsimp only
      rw [if_neg hdest]
      exact hpath

/-- A search that returns has gone through every search before its own. -/
theorem Searching.returned (h : Searching g useFlows source dest search) {fuel : Nat}
    {path : List MacAddress} (hpath : g.bfs fuel source dest useFlows = some path) :
    ∃ fuel, g.bfsLoop dest useFlows fuel search = some path := by
  induction h with
  | start => exact ⟨fuel, hpath⟩
  | next _ hfrontier hne ih =>
      obtain ⟨fuel, hloop⟩ := ih
      cases fuel with
      | zero => cases hloop
      | succ fuel =>
          rw [bfsLoop, hfrontier] at hloop
          dsimp only at hloop
          rw [if_neg hne] at hloop
          exact ⟨fuel, hloop⟩

/-- `bfs` returns if and only if it does not get stuck on the way back. -/
theorem bfs_returns_iff : (∃ fuel path, g.bfs fuel source dest useFlows = some path) ↔
    ¬ Stuck g useFlows source dest := by
  refine ⟨?_, fun hstuck => Searching.start.returns hstuck⟩
  intro ⟨fuel, path, hpath⟩ ⟨search, frontier, x, hsearch, hfrontier, hx, hown⟩
  obtain ⟨fuel', hloop⟩ := hsearch.returned hpath
  cases fuel' with
  | zero => cases hloop
  | succ fuel' =>
      rw [bfsLoop, hfrontier] at hloop
      dsimp only at hloop
      rw [if_pos rfl] at hloop
      obtain ⟨back, hback, _⟩ := Option.map_eq_some_iff.mp hloop
      obtain ⟨p, htraced, _⟩ := traced_of_traceBack hback
      exact htraced.not_own_parent hx hown

/-- Where a search gets stuck, a path leads to the destination through a node with an edge to itself. -/
theorem Stuck.exists_simple (h : Stuck g useFlows source dest) : ∃ p x,
    IsPath (Hop (follows g useFlows)) source dest p ∧ p.Nodup ∧ x ∈ p ∧ x ≠ dest ∧ x ∈ follows g useFlows x := by
  obtain ⟨search, frontier, x, hsearch, hfrontier, hx, hown⟩ := h
  obtain ⟨entries, n, parent, htracks, hnew⟩ := hsearch.tracks
  obtain ⟨e, hhead, rfl, _⟩ := htracks.head hfrontier
  obtain ⟨entries', last, hend, hparents, hfirst⟩ := htracks.full ⟨hhead, hnew⟩
  rw [funext htracks.parents] at hx
  rw [htracks.parents] at hown
  obtain ⟨p, hp, hnodup, hmem⟩ := hx.exists_simple (hend.queue (sorted_follows g useFlows)) hparents hfirst
  rcases hparents x with ⟨hnone, _⟩ | ⟨i, q, hsome, hlast⟩
  · rw [hown] at hnone
    cases hnone
  · rw [hown] at hsome
    obtain rfl : x = q.node := Option.some.inj hsome
    refine ⟨p, q.node, hp, hnodup, hmem, fun hdest => ?_, hlast.hop⟩
    exact hfirst.new (mem_before.mpr ⟨i, q, hlast.lt, hlast.place, hdest⟩)

/-- Where no node with an edge to itself has another one, `bfs` returns. -/
theorem bfs_returns (hloops : ∀ x, x ∈ follows g useFlows x → ∀ y ∈ follows g useFlows x, y = x)
    (source dest : MacAddress) : ∃ fuel path, g.bfs fuel source dest useFlows = some path := by
  refine bfs_returns_iff.mpr fun hstuck => ?_
  obtain ⟨p, x, hp, hnodup, hx, hne, hloop⟩ := hstuck.exists_simple
  obtain ⟨y, _, hyx, hy⟩ := hp.exists_next hnodup hx hne
  exact hyx (hloops x hloop y hy)

/-! ## Fuel -/

theorem traceBack_mono {parents : ExtTreeMap MacAddress MacAddress} {fuel fuel' : Nat} {v : MacAddress}
    {path back : List MacAddress} (hle : fuel ≤ fuel') (h : traceBack parents fuel v path = some back) :
    traceBack parents fuel' v path = some back := by
  induction fuel generalizing fuel' v path with
  | zero => cases h
  | succ fuel ih =>
      obtain ⟨k, rfl⟩ : ∃ k, fuel' = k + 1 := ⟨fuel' - 1, by omega⟩
      rw [traceBack] at h ⊢
      split at h
      · exact h
      · exact ih (by omega) h

theorem bfsLoop_mono {fuel fuel' : Nat} {path : List MacAddress} (hle : fuel ≤ fuel')
    (h : g.bfsLoop dest useFlows fuel search = some path) :
    g.bfsLoop dest useFlows fuel' search = some path := by
  induction fuel generalizing fuel' search with
  | zero => cases h
  | succ fuel ih =>
      obtain ⟨k, rfl⟩ : ∃ k, fuel' = k + 1 := ⟨fuel' - 1, by omega⟩
      rw [bfsLoop] at h ⊢
      split at h
      · exact h
      · split at h
        · rename_i hdest
          obtain ⟨back, hback, hpath⟩ := Option.map_eq_some_iff.mp h
          rw [if_pos hdest, traceBack_mono (by omega) hback, ← hpath]
          rfl
        · rename_i hne
          rw [if_neg hne]
          exact ih (by omega) h

theorem bfs_mono {fuel fuel' : Nat} {path : List MacAddress} (hle : fuel ≤ fuel')
    (h : g.bfs fuel source dest useFlows = some path) : g.bfs fuel' source dest useFlows = some path :=
  bfsLoop_mono hle h

/-- More fuel does not change what is found. -/
theorem bfs_unique {fuel fuel' : Nat} {path path' : List MacAddress}
    (h : g.bfs fuel source dest useFlows = some path)
    (h' : g.bfs fuel' source dest useFlows = some path') : path = path' := by
  have hmax := bfs_mono (Nat.le_max_left fuel fuel') h
  rw [bfs_mono (Nat.le_max_right fuel fuel') h'] at hmax
  exact (Option.some.inj hmax).symm

end Loop

/-! ## What the outcomes say -/

section Outcome

variable {adj : MacAddress → List MacAddress} {source dest : MacAddress} {path : List MacAddress}

variable (hsorted : ∀ x, (adj x).Pairwise macLt)

include hsorted

/-- A search that ends nowhere has not missed a path. -/
theorem unreachable_of_nowhere {entries : List (Entry MacAddress)}
    {parent : MacAddress → Option MacAddress} (hend : Explored adj source entries entries.length parent)
    (hno : dest ∉ before entries entries.length) : ¬ Reachable (Hop adj) source dest := by
  intro hreach
  obtain ⟨n, hwalk⟩ := reachable_iff.mp hreach
  obtain ⟨j, e, he, hnode, _⟩ := (hend.queue hsorted).depth_le_of_walk hwalk
  exact hno (mem_before.mpr ⟨j, e, (List.getElem?_eq_some_iff.mp he).1, he, hnode⟩)

/-- What is found is a path that visits no node twice, and never turns back. -/
theorem Outcome.onward (h : Outcome adj source dest path) (hne : path ≠ []) :
    IsPath (Onward (Hop adj) macLt source) source dest path ∧ path.Nodup := by
  cases h with
  | nowhere => exact absurd rfl hne
  | @found entries n _ parent f path hend hparents hfirst hdest htraced =>
      exact ⟨htraced.isPath (hend.queue hsorted) hparents macLt_asymm hfirst (Nat.le_refl n) hdest, htraced.nodup⟩

theorem Outcome.sound (h : Outcome adj source dest path) :
    path = [] ∧ ¬ Reachable (Hop adj) source dest ∨ IsPath (Hop adj) source dest path ∧ path.Nodup := by
  by_cases hnil : path = []
  · cases h with
    | nowhere hend hno => exact .inl ⟨rfl, unreachable_of_nowhere hsorted hend hno⟩
    | found _ _ _ _ htraced =>
        have hlast := htraced.last
        rw [hnil] at hlast
        cases hlast
  · obtain ⟨hp, hnodup⟩ := h.onward hsorted hnil
    exact .inr ⟨hp.mono fun _ _ hop => hop.edge, hnodup⟩

/-- Where there are no detours, what is found is a shortest path. -/
theorem Outcome.shortest (hloops : ∀ x, x ∈ adj x → ∀ y ∈ adj x, y = x)
    (hno : ∀ entries i v p m, Queue adj macLt source entries entries.length →
      ¬ Detour adj source entries i v p m) (h : Outcome adj source dest path) :
    ShortestPath (Hop adj) source dest path := by
  cases h with
  | nowhere hend hno =>
      have hno' := unreachable_of_nowhere hsorted hend hno
      exact ⟨fun hreach => absurd hreach hno', fun _ _ => Nat.zero_le _, fun _ => hno', fun _ => rfl⟩
  | @found entries n _ parent f path hend hparents hfirst hdest htraced =>
      have hq := hend.queue hsorted
      have honward := htraced.isPath hq hparents macLt_asymm hfirst (Nat.le_refl n) hdest
      have hpath := honward.mono fun _ _ hop => hop.edge
      obtain ⟨path', htraced', hlen⟩ :=
        exists_traced hq hparents hloops hfirst (Nat.le_refl n) (.inl rfl)
      rw [hdest] at htraced'
      obtain rfl := htraced.unique htraced'
      have hdist := hq.dist hfirst
      rw [hdest] at hdist
      exact shortestPath_of_dist hdist hpath (hlen fun i v p m => hno _ i v p m hq)

omit hsorted in
/-- On what is found no node but the destination has an edge to itself. -/
theorem Outcome.no_loop (h : Outcome adj source dest path) {x : MacAddress} (hx : x ∈ path) (hne : x ≠ dest) :
    x ∉ adj x := by
  cases h with
  | nowhere => exact absurd hx List.not_mem_nil
  | @found entries n _ parent f path hend hparents hfirst hdest htraced =>
      rw [← hdest] at htraced hne
      exact htraced.no_loop hparents hfirst hx hne

/-- From a source with an edge to itself no path to another node is found. -/
theorem Outcome.nil_of_loop (hloop : source ∈ adj source) (hne : dest ≠ source)
    (h : Outcome adj source dest path) : path = [] := by
  rcases h.sound hsorted with ⟨hnil, _⟩ | ⟨hp, _⟩
  · exact hnil
  · exact absurd hloop (h.no_loop (List.mem_of_head? hp.head) hne.symm)

/-- In a search that goes on to the last entry, the last pusher of what is found is one hop nearer. -/
theorem Outcome.last_pusher {entries : List (Entry MacAddress)}
    {last : MacAddress → Option MacAddress} (hend : Explored adj source entries entries.length last)
    {j : Nat} {f : Entry MacAddress} (hfirst : First entries j f) (hj : 0 < j)
    (h : Outcome adj source f.node path) (hshort : ShortestPath (Hop adj) source f.node path) :
    ∃ i p m, LastPusher adj entries j f.node i p ∧ Dist (Hop adj) source p.node m ∧
      f.depth = m + 1 := by
  have hq := hend.queue hsorted
  cases h with
  | nowhere hend' hno =>
      exact absurd (reachable_iff.mpr ⟨_, hq.walk hfirst.place⟩)
        (unreachable_of_nowhere hsorted hend' hno)
  | @found entries' n _ parent f' _ hend' hparents hfirst' hdest htraced =>
      obtain rfl : entries' = entries :=
        (hend'.prefix_end hend).2.eq_of_length_le (hend.prefix_end hend').1
      obtain ⟨rfl, rfl⟩ := hfirst.unique hfirst' hdest.symm
      exact last_of_shortest hq hparents hfirst hj htraced hshort

end Outcome

end IronStack.Proof
