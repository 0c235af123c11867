import IronStack.Proof.MaxFlow

/-!
# Disjoint paths

`get_disjoint_paths` walks along the edges that `max_flow` left with flow, and takes
their flow. At every node but the destination more flow leads out than in, less what
the walk itself has taken, so it never gets stuck, and with every edge there is less
flow. What it cuts out when it comes back to a node leaves a path.
-/

namespace IronStack.Proof

open IronStack Lib IronStack.SimpleGraph TopologyGraph Std

/-! ## The path of a walk -/

/-- The walk is at the end of its path, which visits no node twice, and whose nodes the set holds. -/
structure OnPath (trail : Trail) : Prop where
  head : trail.path.head? = some trail.current
  nodup : trail.path.Nodup
  contents : ∀ v, v ∈ trail.pathContents ↔ v ∈ trail.path

theorem popUntil_eq {v : MacAddress} {path : List MacAddress} (hv : v ∈ path)
    (contents : ExtTreeSet MacAddress) :
    ∃ a b contents', path = a ++ v :: b ∧ v ∉ a ∧
      Trail.popUntil v path contents = some (v :: b, contents') ∧
        ∀ w, w ∈ contents' ↔ w ∈ contents ∧ w ∉ a := by
  induction path generalizing contents with
  | nil => exact absurd hv List.not_mem_nil
  | cons u path ih =>
      by_cases hu : u = v
      · subst hu
        refine ⟨[], path, contents, rfl, List.not_mem_nil, ?_, fun w => ?_⟩
        · rw [Trail.popUntil, if_pos rfl]
        · exact ⟨fun h => ⟨h, List.not_mem_nil⟩, fun h => h.1⟩
      · have hmem : v ∈ path := (List.mem_cons.mp hv).resolve_left (Ne.symm hu)
        obtain ⟨a, b, contents', rfl, hnot, hpop, hcontents⟩ := ih hmem (contents.erase u)
        refine ⟨u :: a, b, contents', rfl, ?_, ?_, fun w => ?_⟩
        · exact fun h => (List.mem_cons.mp h).elim (fun heq => hu heq.symm) hnot
        · rw [Trail.popUntil, if_neg hu, hpop]
        · rw [hcontents, ExtTreeSet.mem_erase, List.mem_cons, not_or]
          refine ⟨fun ⟨⟨hne, hw⟩, ha⟩ => ⟨hw, ?_, ha⟩, fun ⟨hw, hne, ha⟩ => ⟨⟨?_, hw⟩, ha⟩⟩
          · rintro rfl
            exact hne ReflCmp.compare_self
          · exact fun heq => hne (eq_of_compare_eq heq).symm

/-- The walk, one edge further, before a cycle is looked for. -/
def stepAlong (trail : Trail) (v : MacAddress) : Trail :=
  { trail with
    graph := trail.graph.falseFlow trail.current v
    current := v
    path := v :: trail.path }

section Path

variable {trail : Trail} {v : MacAddress}

theorem OnPath.path_eq (h : OnPath trail) : ∃ path, trail.path = trail.current :: path := by
  have hhead := h.head
  cases hcases : trail.path with
  | nil =>
      rw [hcases] at hhead
      cases hhead
  | cons u path =>
      rw [hcases] at hhead
      exact ⟨path, by rw [Option.some.inj hhead]⟩

/-- Back at a node of the path: `a`, what was walked since then, is cut out. -/
theorem OnPath.back (h : OnPath trail) (hseen : v ∈ trail.path) : ∃ trail' a b,
    (stepAlong trail v).removeCycle = some trail' ∧ OnPath trail' ∧ trail.path = a ++ v :: b ∧
      trail'.path = v :: b ∧ trail'.current = v ∧ trail'.graph = trail.graph.falseFlow trail.current v := by
  obtain ⟨a, b, contents', hpath, hnot, hpop, hcontents⟩ := popUntil_eq hseen trail.pathContents
  have hremove : (stepAlong trail v).removeCycle =
      some { stepAlong trail v with path := v :: b, pathContents := contents'.insert v } := by
    have hcontains : (stepAlong trail v).pathContents.contains (stepAlong trail v).current = true :=
      ExtTreeSet.contains_iff_mem.mpr ((h.contents v).mpr hseen)
    rw [Trail.removeCycle, if_pos hcontains]
    exact congrArg (Option.map _) hpop
  have hnodup := h.nodup
  rw [hpath] at hnodup
  refine ⟨_, a, b, hremove, ⟨rfl, hnodup.sublist (List.sublist_append_right _ _), fun u => ?_⟩,
    hpath, rfl, rfl, rfl⟩
  change u ∈ contents'.insert v ↔ u ∈ v :: b
  rw [ExtTreeSet.mem_insert, hcontents, h.contents, hpath, List.mem_append]
  refine ⟨?_, ?_⟩
  · rintro (heq | ⟨hmem, ha⟩)
    · rw [eq_of_compare_eq heq]
      exact List.mem_cons_self
    · exact hmem.resolve_left ha
  · intro hu
    refine .inr ⟨.inr hu, fun ha => ?_⟩
    exact (List.nodup_append.mp hnodup).2.2 u ha u hu rfl

/-- At a new node: the path is longer by an edge. -/
theorem OnPath.ahead (h : OnPath trail) (hnew : v ∉ trail.path) : ∃ trail',
    (stepAlong trail v).removeCycle = some trail' ∧ OnPath trail' ∧ trail'.path = v :: trail.path ∧
      trail'.current = v ∧ trail'.graph = trail.graph.falseFlow trail.current v := by
  have hremove : (stepAlong trail v).removeCycle =
      some { stepAlong trail v with pathContents := trail.pathContents.insert v } := by
    rw [Trail.removeCycle, if_neg]
    · rfl
    · exact fun hmem => hnew ((h.contents v).mp (ExtTreeSet.contains_iff_mem.mp hmem))
  refine ⟨_, hremove, ⟨rfl, List.nodup_cons.mpr ⟨hnew, h.nodup⟩, fun a => ?_⟩, rfl, rfl, rfl⟩
  change a ∈ trail.pathContents.insert v ↔ a ∈ v :: trail.path
  rw [ExtTreeSet.mem_insert, h.contents, List.mem_cons]
  refine or_congr_left ⟨fun heq => (eq_of_compare_eq heq).symm, ?_⟩
  rintro rfl
  exact ReflCmp.compare_self

theorem onPath_start (g : SimpleGraph) (source : MacAddress) :
    OnPath ⟨g, [source], (∅ : ExtTreeSet MacAddress).insert source, source⟩ := by
  refine ⟨rfl, List.nodup_singleton _, fun v => ?_⟩
  rw [ExtTreeSet.mem_insert, List.mem_singleton]
  refine ⟨fun hv => ?_, fun hv => .inl ?_⟩
  · exact (eq_of_compare_eq (hv.resolve_right ExtTreeSet.not_mem_empty)).symm
  · rw [hv]
    exact ReflCmp.compare_self

end Path

/-! ## The flow that a walk takes -/

/-- A walk from the source, and the flow that is left on the edges. -/
structure Walking (source dest : MacAddress) (k : ℕ) (F₀ : Finset (MacAddress × MacAddress))
    (trail : Trail) (F : Finset (MacAddress × MacAddress)) : Prop where
  neighbors : ∀ e ∈ F, e.2 ∈ trail.graph.neighbors e.1
  flows : ∀ u v, trail.graph.getFlow u v = true ↔ (u, v) ∈ F
  sub : F ⊆ F₀
  balance : ∀ v, excess F v = k * netOut (source, dest) v - netOut (source, trail.current) v
  head : trail.path.head? = some trail.current
  last : trail.path.getLast? = some source
  nodup : trail.path.Nodup
  edges : ∀ e ∈ edgesOf trail.path, e.swap ∈ F₀ ∧ e.swap ∉ F
  contents : ∀ v, v ∈ trail.pathContents ↔ v ∈ trail.path

section Walk

variable {source dest : MacAddress} {k : ℕ} {F₀ F : Finset (MacAddress × MacAddress)} {trail : Trail}

/-- Somewhere the walk goes on. -/
theorem Walking.exists_next (h : Walking source dest k F₀ trail F) (hk : 0 < k)
    (hne : trail.current ≠ dest) : ∃ v, (trail.current, v) ∈ F := by
  -- behind the source the walk itself has taken one edge in, and none out
  refine exists_out_of_excess ?_
  rw [h.balance, netOut, netOut, if_neg hne.symm, if_pos rfl, sub_zero]
  by_cases hsource : source = trail.current
  · rw [if_pos hsource]
    omega
  · rw [if_neg hsource]
    omega

theorem Walking.advance (h : Walking source dest k F₀ trail F) (hk : 0 < k) (hne : trail.current ≠ dest) :
    ∃ v, (trail.current, v) ∈ F ∧ trail.advance = stepAlong trail v := by
  obtain ⟨w, hw⟩ := h.exists_next hk hne
  obtain ⟨v, hfind⟩ := Option.isSome_iff_exists.mp
    (List.find?_isSome.mpr ⟨w, h.neighbors _ hw, (h.flows _ _).mpr hw⟩)
  exact ⟨v, (h.flows _ _).mp (List.find?_some hfind), by rw [Trail.advance, hfind, stepAlong]⟩

/-- The flow of the edge is gone, and that of no other. -/
theorem Walking.flows_taken (h : Walking source dest k F₀ trail F) (v a b : MacAddress) :
    (stepAlong trail v).graph.getFlow a b = true ↔ (a, b) ∈ F.erase (trail.current, v) := by
  rw [Finset.mem_erase, ← h.flows, Ne, Prod.mk.injEq]
  change (trail.graph.setFlow trail.current v false).getFlow a b = true ↔ _
  rw [getFlow_setFlow]
  split
  · rename_i heq
    exact ⟨fun h => absurd h Bool.false_ne_true, fun h => absurd heq h.1⟩
  · rename_i heq
    exact ⟨fun h => ⟨heq, h⟩, fun h => h.2⟩

theorem Walking.balance_taken (h : Walking source dest k F₀ trail F) {v : MacAddress}
    (hv : (trail.current, v) ∈ F) (a : MacAddress) :
    excess (F.erase (trail.current, v)) a = k * netOut (source, dest) a - netOut (source, v) a := by
  have hsingle : excess {(trail.current, v)} a = netOut (trail.current, v) a := Finset.sum_singleton _ _
  rw [← Finset.sdiff_singleton_eq_erase, excess_sdiff (Finset.singleton_subset_iff.mpr hv), h.balance,
    hsingle]
  simp only [netOut]
  ring

/-- The edges of the path so far were taken before. -/
theorem Walking.edges_erase (h : Walking source dest k F₀ trail F) (edge : MacAddress × MacAddress)
    {e : MacAddress × MacAddress} (he : e ∈ edgesOf trail.path) : e.swap ∈ F₀ ∧ e.swap ∉ F.erase edge :=
  ⟨(h.edges e he).1, fun hmem => (h.edges e he).2 (Finset.mem_of_mem_erase hmem)⟩

theorem Walking.onPath (h : Walking source dest k F₀ trail F) : OnPath trail :=
  ⟨h.head, h.nodup, h.contents⟩

/-- Wherever the path now leads, over edges without flow, the walk goes on from the node ahead. -/
theorem Walking.taken (h : Walking source dest k F₀ trail F) {v : MacAddress} (hv : (trail.current, v) ∈ F)
    {trail' : Trail} (hpath : OnPath trail') (hcurrent : trail'.current = v)
    (hgraph : trail'.graph = trail.graph.falseFlow trail.current v)
    (hlast : trail'.path.getLast? = some source)
    (hedges : ∀ e ∈ edgesOf trail'.path, e ∈ edgesOf trail.path ∨ e.swap = (trail.current, v)) :
    Walking source dest k F₀ trail' (F.erase (trail.current, v)) := by
  refine ⟨fun e he => ?_, fun a b => ?_, (Finset.erase_subset _ F).trans h.sub, ?_, hpath.head, hlast,
    hpath.nodup, fun e he => ?_, hpath.contents⟩
  · rw [hgraph]
    exact h.neighbors e (Finset.mem_of_mem_erase he)
  · rw [hgraph]
    exact h.flows_taken v a b
  · rw [hcurrent]
    exact h.balance_taken hv
  · rcases hedges e he with hold | hnew
    · exact h.edges_erase _ hold
    · rw [hnew]
      exact ⟨h.sub hv, Finset.notMem_erase _ _⟩

/-- Back at a node of the path the edges that are left are among the old ones. -/
theorem Walking.back (h : Walking source dest k F₀ trail F) {v : MacAddress} (hv : (trail.current, v) ∈ F)
    (hseen : v ∈ trail.path) : ∃ trail', (stepAlong trail v).removeCycle = some trail' ∧
      Walking source dest k F₀ trail' (F.erase (trail.current, v)) := by
  obtain ⟨trail', a, b, hremove, hon, hpath, hpath', hcurrent, hgraph⟩ := h.onPath.back hseen
  refine ⟨trail', hremove, h.taken hv hon hcurrent hgraph ?_ fun e he => .inl ?_⟩
  · rw [hpath', ← h.last, hpath, List.getLast?_append_of_ne_nil _ (List.cons_ne_nil _ _)]
  · rw [hpath'] at he
    rw [hpath]
    exact mem_edgesOf_append he

/-- At a new node there is the edge to it as well. -/
theorem Walking.ahead (h : Walking source dest k F₀ trail F) {v : MacAddress} (hv : (trail.current, v) ∈ F)
    (hnew : v ∉ trail.path) : ∃ trail', (stepAlong trail v).removeCycle = some trail' ∧
      Walking source dest k F₀ trail' (F.erase (trail.current, v)) := by
  obtain ⟨trail', hremove, hon, hpath', hcurrent, hgraph⟩ := h.onPath.ahead hnew
  obtain ⟨path, hpath⟩ := h.onPath.path_eq
  refine ⟨trail', hremove, h.taken hv hon hcurrent hgraph ?_ fun e he => ?_⟩
  · have hlast := h.last
    rw [hpath] at hlast
    rwa [hpath', hpath, List.getLast?_cons_cons]
  · rw [hpath', hpath, edgesOf_cons_cons, ← hpath] at he
    rcases List.mem_cons.mp he with rfl | he
    · exact .inr rfl
    · exact .inl he

/-- One edge of the walk: its flow is taken, and a cycle that it closes is cut out. -/
theorem Walking.step (h : Walking source dest k F₀ trail F) (hk : 0 < k) (hne : trail.current ≠ dest) :
    ∃ trail' F', trail.advance.removeCycle = some trail' ∧ Walking source dest k F₀ trail' F' ∧
      F'.card < F.card := by
  obtain ⟨v, hv, hadvance⟩ := h.advance hk hne
  have hcard : (F.erase (trail.current, v)).card < F.card := Finset.card_erase_lt_of_mem hv
  rw [hadvance]
  by_cases hseen : v ∈ trail.path
  · obtain ⟨trail', hremove, h'⟩ := h.back hv hseen
    exact ⟨trail', _, hremove, h', hcard⟩
  · obtain ⟨trail', hremove, h'⟩ := h.ahead hv hseen
    exact ⟨trail', _, hremove, h', hcard⟩

/--
**The walk comes to the destination.** By induction on the flow that is left.
-/
theorem Walking.walk (h : Walking source dest k F₀ trail F) (hk : 0 < k) {fuel : Nat}
    (hfuel : F.card < fuel) :
    ∃ trail' F', Trail.walk dest fuel trail = some trail' ∧ Walking source dest k F₀ trail' F' ∧
      trail'.current = dest := by
  induction fuel generalizing trail F with
  | zero => exact absurd hfuel (Nat.not_lt_zero _)
  | succ fuel ih =>
      rw [Trail.walk]
      by_cases hdest : trail.current = dest
      · rw [if_pos hdest]
        exact ⟨trail, F, rfl, h, hdest⟩
      · rw [if_neg hdest]
        obtain ⟨trail', F', hstep, h', hlt⟩ := h.step hk hdest
        rw [hstep]
        exact ih h' (by omega)

/-- The path that was walked, from the source to the destination. -/
theorem Walking.isPath {E : MacAddress → MacAddress → Prop} (h : Walking source dest k F₀ trail F)
    (hE : ∀ e ∈ F₀, E e.1 e.2) (hdest : trail.current = dest) :
    IsPath E source dest trail.path.reverse := by
  refine ⟨?_, ?_, isChain_iff_edgesOf.mpr fun e he => ?_⟩
  · rw [List.head?_reverse, h.last]
  · rw [List.getLast?_reverse, h.head, hdest]
  · exact hE e (h.edges _ (mem_edgesOf_reverse.mp he)).1

theorem walking_start {g : SimpleGraph} (h : Balanced source dest g k F) :
    Walking source dest k F ⟨g, [source], (∅ : ExtTreeSet MacAddress).insert source, source⟩ F := by
  have hon := onPath_start g source
  refine ⟨h.edges, h.flows, Finset.Subset.refl F, fun v => ?_, hon.head, rfl, hon.nodup,
    fun e he => absurd he List.not_mem_nil, hon.contents⟩
  rw [h.balance, netOut, netOut, sub_self, sub_zero]

/-- At the destination there is flow for one path less. -/
theorem Walking.balanced (h : Walking source dest (k + 1) F₀ trail F) (hdest : trail.current = dest)
    (hsource : ∀ u, (u, source) ∉ F₀) : Balanced source dest trail.graph k F := by
  refine ⟨h.neighbors, h.flows, fun v => ?_, fun u hu => hsource u (h.sub hu)⟩
  rw [h.balance, hdest]
  push_cast
  ring

/-- As many paths are walked as there are units of flow, and no two take the flow of one edge. -/
theorem Balanced.tracePaths {E : MacAddress → MacAddress → Prop} {g : SimpleGraph} {fuel : Nat}
    (h : Balanced source dest g k F) (hE : ∀ e ∈ F, E e.1 e.2) (hfuel : F.card < fuel) :
    ∃ ps, g.tracePaths source dest fuel k = some ps ∧ ps.length = k ∧ EdgeDisjoint E source dest ps ∧
      ∀ p ∈ ps, ∀ e ∈ edgesOf p, e ∈ F := by
  induction k generalizing g F with
  | zero =>
      exact ⟨[], rfl, rfl, ⟨fun _ h => absurd h List.not_mem_nil, fun _ h => absurd h List.not_mem_nil,
        .nil⟩, fun _ h => absurd h List.not_mem_nil⟩
  | succ k ih =>
      -- one path is walked, and what it leaves has flow for the rest
      obtain ⟨trail, F', hwalk, hend, hdest⟩ := (walking_start h).walk (Nat.succ_pos k) hfuel
      have hle := Finset.card_le_card hend.sub
      obtain ⟨ps, hps, hlen, hdisjoint, hused⟩ := ih (hend.balanced hdest h.source)
        (fun e he => hE e (hend.sub he)) (by omega)
      refine ⟨trail.path.reverse :: ps, ?_, by rw [List.length_cons, hlen], ⟨?_, ?_, ?_⟩, ?_⟩
      · rw [SimpleGraph.tracePaths, hwalk, Option.bind_some, hps]
        rfl
      · exact List.forall_mem_cons.mpr ⟨hend.isPath hE hdest, hdisjoint.path⟩
      · exact List.forall_mem_cons.mpr ⟨List.nodup_reverse.mpr hend.nodup, hdisjoint.nodup⟩
      · refine .cons (fun q hq e he he' => ?_) hdisjoint.disjoint
        exact (hend.edges _ (mem_edgesOf_reverse.mp he)).2 (hused q hq e he')
      · refine List.forall_mem_cons.mpr ⟨fun e he => ?_, fun q hq e he => hend.sub (hused q hq e he)⟩
        exact (hend.edges _ (mem_edgesOf_reverse.mp he)).1

end Walk

/-! ## The paths of a topology -/

section Topology

variable {t : TopologyGraph} {source dest : MacAddress}

/-- Where the searches return, as many paths are returned as `max_flow` counts. -/
theorem disjointPaths_return (hne : source ≠ dest) (hsource : ∃ v, Linked t source v)
    (hdest : ∃ v, Linked t dest v)
    (hsearch : ∀ g, Augmented source dest t.toSimpleGraph.falseAllFlows g →
      ∃ fuel path, g.bfs fuel source dest true = some path) :
    ∃ fuel n paths, t.toSimpleGraph.maxFlow fuel source dest = some n ∧
      t.getDisjointPaths fuel source dest = some paths ∧ paths.length = n.toNat ∧
        EdgeDisjoint (Linked t) source dest paths ∧ (Reachable (Linked t) source dest → paths ≠ []) := by
  obtain ⟨fuel, n, g, ps, hn, hg, hstates, hps, hlen, _⟩ := maxFlow_returns hne hsearch
  obtain ⟨F, hF, hsub⟩ := hps.balanced.cancelOpposite
  have hE : ∀ e ∈ F, Linked t e.1 e.2 := by
    intro e he
    have hedge := hF.edges e he
    rw [neighbors_cancelOpposite] at hedge
    exact (hps.edges _ _).mp hedge
  let fuel' := max fuel (F.card + 1)
  have hg' := augment_mono (Nat.le_max_left fuel (F.card + 1)) hg
  have hvalue := flowValue_cancelOpposite hstates hps hne
  obtain ⟨paths, hpaths, hcount, hdisjoint, _⟩ := hF.tracePaths hE
    (Nat.lt_of_lt_of_le (Nat.lt_succ_self _) (Nat.le_max_right fuel (F.card + 1)))
  have hmax : t.toSimpleGraph.maxFlow fuel' source dest = some (g.cancelOpposite.flowValue source) := by
    rw [maxFlow, hg']
    rfl
  refine ⟨fuel', n, paths, ?_, ?_, by omega, hdisjoint, fun hreach hnil => ?_⟩
  · rw [hmax, maxFlow_unique hn hmax]
  · rw [getDisjointPaths, contains_edges_iff.mpr hsource, contains_edges_iff.mpr hdest]
    show (t.toSimpleGraph.maxFlowGraph fuel' source dest).bind _ = some paths
    rw [maxFlowGraph, hg', Option.map_some, Option.bind_some, hvalue, hpaths]
  · have hpos := maxFlow_pos hne hsearch hreach hn
    rw [hnil, List.length_nil] at hcount
    omega

end Topology

/--
**Between two nodes that have links, `get_disjoint_paths` terminates, with
edge-disjoint paths that visit no node twice, as many as `max_flow` counts**, and with one
at least where the destination can be reached.
-/
theorem disjointPaths_sound (t : TopologyGraph) (source dest : MacAddress)
    (hlinks : ∀ x, ¬ Linked t x x) (hne : source ≠ dest) (hsource : ∃ v, Linked t source v)
    (hdest : ∃ v, Linked t dest v) :
    ∃ fuel n paths, t.toSimpleGraph.maxFlow fuel source dest = some n ∧
      t.getDisjointPaths fuel source dest = some paths ∧ paths.length = n.toNat ∧
        EdgeDisjoint (Linked t) source dest paths ∧ (Reachable (Linked t) source dest → paths ≠ []) :=
  disjointPaths_return hne hsource hdest fun _ hg => search_returns hlinks hg

/-- The link, and the way over the third switch. -/
theorem chord_disjointPaths :
    chord.getDisjointPaths 12 (chordMac 2) (chordMac 4) =
      some [[chordMac 2, chordMac 3, chordMac 4], [chordMac 2, chordMac 4]] ∧
    ∃ fuel n paths, chord.toSimpleGraph.maxFlow fuel (chordMac 2) (chordMac 4) = some n ∧
      chord.getDisjointPaths fuel (chordMac 2) (chordMac 4) = some paths ∧ paths.length = n.toNat ∧
        EdgeDisjoint (Linked chord) (chordMac 2) (chordMac 4) paths ∧ paths ≠ [] := by
  have hlinked : ∀ u v, v ∈ chord.toSimpleGraph.neighbors u → Linked chord u v :=
    fun _ _ => mem_neighbors_toSimpleGraph.mp
  have hlink := hlinked (chordMac 2) (chordMac 4) (by decide +kernel)
  have hback := hlinked (chordMac 4) (chordMac 1) (by decide +kernel)
  obtain ⟨fuel, n, paths, hn, hpaths, hlen, hdisjoint, hreach⟩ :=
    disjointPaths_sound chord (chordMac 2) (chordMac 4) chord_loopless (by decide) ⟨_, hlink⟩ ⟨_, hback⟩
  exact ⟨by decide +kernel, fuel, n, paths, hn, hpaths, hlen, hdisjoint,
    hreach ⟨_, (IsPath.singleton _).snoc hlink⟩⟩

end IronStack.Proof
