import IronStack.Lib.EdgeDisjoint
import IronStack.Proof.Topology

/-!
# Maximum flow

The loop of `max_flow` takes paths of unused edges as long as there is one. The
paths are edge-disjoint, each uses an edge out of the source, so the loop ends, and
the value it returns is their number. It never takes a used edge backwards, so the
number is the largest only if no such step would have made room for another path.
-/

namespace IronStack.Proof

open IronStack Lib IronStack.SimpleGraph Std

/-- The edges without flow. -/
def Unused (g : SimpleGraph) (u v : MacAddress) : Prop := v ∈ g.neighbors u ∧ g.getFlow u v = false

theorem hop_eq_unused (g : SimpleGraph) : Hop (follows g true) = Unused g := by
  funext u v
  refine propext ?_
  rw [Hop, follows, List.mem_filter, Unused, Bool.not_true, Bool.or_false, Bool.not_eq_true']

/-! ## Sending flow along a path -/

theorem getFlow_setFlow (g : SimpleGraph) (a b u v : MacAddress) (flow : Bool) :
    (g.setFlow a b flow).getFlow u v = if u = a ∧ v = b then flow else g.getFlow u v := rfl

theorem neighbors_setFlow (g : SimpleGraph) (a b u : MacAddress) (flow : Bool) :
    (g.setFlow a b flow).neighbors u = g.neighbors u := rfl

theorem neighbors_foldl_trueFlow (l : List (MacAddress × MacAddress)) (g : SimpleGraph) (u : MacAddress) :
    (l.foldl (fun g edge => g.trueFlow edge.1 edge.2) g).neighbors u = g.neighbors u := by
  induction l generalizing g with
  | nil => rfl
  | cons e l ih =>
      rw [List.foldl_cons, ih]
      exact neighbors_setFlow g _ _ _ _

theorem getFlow_foldl_trueFlow (l : List (MacAddress × MacAddress)) (g : SimpleGraph)
    (u v : MacAddress) : (l.foldl (fun g edge => g.trueFlow edge.1 edge.2) g).getFlow u v = true ↔
      (u, v) ∈ l ∨ g.getFlow u v = true := by
  induction l generalizing g with
  | nil => exact ⟨.inr, fun h => h.elim (fun hmem => absurd hmem List.not_mem_nil) id⟩
  | cons e l ih =>
      rw [List.foldl_cons, ih, trueFlow, getFlow_setFlow, List.mem_cons]
      by_cases he : u = e.1 ∧ v = e.2
      · rw [if_pos he]
        exact ⟨fun _ => .inl (.inl (Prod.ext he.1 he.2)), fun _ => .inr rfl⟩
      · rw [if_neg he]
        have hne : (u, v) ≠ e := fun heq => he ⟨congrArg Prod.fst heq, congrArg Prod.snd heq⟩
        simp only [hne, false_or]

theorem neighbors_sendFlow (g : SimpleGraph) (path : List MacAddress) (u : MacAddress) :
    (g.sendFlow path).neighbors u = g.neighbors u := neighbors_foldl_trueFlow _ _ _

theorem getFlow_sendFlow (g : SimpleGraph) (path : List MacAddress) (u v : MacAddress) :
    (g.sendFlow path).getFlow u v = true ↔ (u, v) ∈ edgesOf path ∨ g.getFlow u v = true :=
  getFlow_foldl_trueFlow _ _ _ _

/-! ## The loop -/

/-- The states that the loop of `max_flow` goes through. -/
inductive Augmented (source sink : MacAddress) (g : SimpleGraph) : SimpleGraph → Prop where
  | start : Augmented source sink g g
  | next {g' : SimpleGraph} {fuel : Nat} {path : List MacAddress} (h : Augmented source sink g g')
      (hpath : g'.bfs fuel source sink true = some path) (hne : path ≠ []) :
      Augmented source sink g (g'.sendFlow path)

/-- The edges with flow are those of paths taken from the source to the sink. -/
structure Carries (E : MacAddress → MacAddress → Prop) (source sink : MacAddress) (g : SimpleGraph)
    (ps : List (List MacAddress)) : Prop where
  edges : ∀ u v, v ∈ g.neighbors u ↔ E u v
  taken : TakenOnward E macLt source sink ps
  flows : ∀ u v, g.getFlow u v = true ↔ ∃ p ∈ ps, (u, v) ∈ edgesOf p

section Loop

variable {E : MacAddress → MacAddress → Prop} {source sink : MacAddress} {g : SimpleGraph}
  {ps : List (List MacAddress)}

theorem Carries.paths (h : Carries E source sink g ps) : EdgeDisjoint E source sink ps :=
  h.taken.edgeDisjoint

theorem Carries.loopless (h : Carries E source sink g ps) (hE : ∀ x, ¬ E x x) :
    ∀ x, x ∈ follows g true x → ∀ y ∈ follows g true x, y = x :=
  fun x hx => absurd ((h.edges x x).mp (List.mem_filter.mp hx).1) (hE x)

theorem Carries.unused (h : Carries E source sink g ps) : Unused g = Untaken E ps := by
  funext u v
  have hfree : g.getFlow u v = false ↔ ∀ p ∈ ps, (u, v) ∉ edgesOf p := by
    rw [← Bool.not_eq_true, h.flows, not_exists]
    exact forall_congr' fun p => not_and
  rw [Unused, h.edges, hfree, Untaken]

/-- A path that is found is edge-disjoint from the ones taken before. -/
theorem Carries.next (h : Carries E source sink g ps) {fuel : Nat} {path : List MacAddress}
    (hpath : g.bfs fuel source sink true = some path) (hne : path ≠ []) :
    Carries E source sink (g.sendFlow path) (path :: ps) := by
  obtain ⟨hp, hnodup⟩ := (bfs_outcome hpath).onward (sorted_follows g true) hne
  rw [hop_eq_unused, h.unused] at hp
  refine ⟨fun u v => ?_, .cons h.taken hp hnodup, fun u v => ?_⟩
  · rw [neighbors_sendFlow, h.edges]
  · rw [getFlow_sendFlow, h.flows, List.exists_mem_cons_iff]

/-- Every state of the loop carries paths that were taken. -/
theorem Augmented.carries {g₀ : SimpleGraph} (h : Augmented source sink g₀ g)
    (hstart : Carries E source sink g₀ []) : ∃ ps, Carries E source sink g ps := by
  induction h with
  | start => exact ⟨[], hstart⟩
  | next _ hpath hne ih =>
      obtain ⟨ps, hps⟩ := ih
      exact ⟨_, hps.next hpath hne⟩

end Loop

/-! ## The value -/

/-- The edges with flow, and how many units go from the source to the sink on them. -/
structure Balanced (source sink : MacAddress) (g : SimpleGraph) (k : ℕ)
    (F : Finset (MacAddress × MacAddress)) : Prop where
  edges : ∀ e ∈ F, e.2 ∈ g.neighbors e.1
  flows : ∀ u v, g.getFlow u v = true ↔ (u, v) ∈ F
  balance : ∀ v, excess F v = k * netOut (source, sink) v
  source : ∀ u, (u, source) ∉ F

section Value

variable {E : MacAddress → MacAddress → Prop} {source sink : MacAddress} {g : SimpleGraph}

/-- A path that visits no node twice does not come back to its source. -/
theorem not_into_source {p : List MacAddress} (hp : IsPath E source sink p) (hnodup : p.Nodup)
    (u : MacAddress) : (u, source) ∉ edgesOf p := by
  intro hmem
  obtain ⟨w, q, rfl⟩ := List.exists_cons_of_ne_nil hp.ne_nil
  obtain rfl : w = source := Option.some.inj hp.head
  exact (List.nodup_cons.mp hnodup).1 (mem_of_mem_edgesOf hmem).2

theorem Carries.balanced {ps : List (List MacAddress)} (h : Carries E source sink g ps) :
    Balanced source sink g ps.length (used ps) := by
  refine ⟨fun e he => ?_, fun u v => ?_, h.paths.excess_used, fun u hu => ?_⟩
  · obtain ⟨p, hp, hmem⟩ := mem_used.mp he
    exact (h.edges _ _).mpr ((h.paths.path p hp).hop hmem)
  · rw [h.flows, mem_used]
  · obtain ⟨p, hp, hmem⟩ := mem_used.mp hu
    exact not_into_source (h.paths.path p hp) (h.paths.nodup p hp) u hmem

/-- As many edges out of the source have flow as units go to the sink. -/
theorem Balanced.countP {k : ℕ} {F : Finset (MacAddress × MacAddress)}
    (h : Balanced source sink g k F) (hne : source ≠ sink) :
    (g.neighbors source).countP (g.getFlow source) = k := by
  have hk := h.balance source
  have hone : netOut (source, sink) source = 1 := by simp [netOut, hne.symm]
  rw [hone, mul_one] at hk
  have hout : F.filter (fun e => e.1 = source) =
      (((g.neighbors source).filter (g.getFlow source)).map fun v => (source, v)).toFinset := by
    ext ⟨u, v⟩
    rw [Finset.mem_filter, List.mem_toFinset, List.mem_map]
    refine ⟨?_, ?_⟩
    · rintro ⟨hmem, rfl⟩
      exact ⟨v, List.mem_filter.mpr ⟨h.edges _ hmem, (h.flows u v).mpr hmem⟩, rfl⟩
    · rintro ⟨w, hw, heq⟩
      cases heq
      exact ⟨(h.flows source v).mp (List.mem_filter.mp hw).2, rfl⟩
  have hnodup : (((g.neighbors source).filter (g.getFlow source)).map fun v => (source, v)).Nodup :=
    ((nodup_neighbors g source).filter _).map (Prod.mk_right_injective source)
  have hcard : excess F source = (F.filter (fun e => e.1 = source)).card := by
    rw [excess, Finset.card_filter, Nat.cast_sum]
    refine Finset.sum_congr rfl fun e he => ?_
    have hin : e.2 ≠ source := fun heq => h.source e.1 (heq ▸ he)
    rw [netOut, if_neg hin, sub_zero]
    split
    · rfl
    · rfl
  rw [hout, List.toFinset_card_of_nodup hnodup, List.length_map, ← List.countP_eq_length_filter] at hcard
  omega

theorem flowValue_eq (g : SimpleGraph) (source : MacAddress)
    (hsize : (g.neighbors source).length < 2 ^ 32) :
    (g.flowValue source).toNat = (g.neighbors source).countP (g.getFlow source) := by
  have hfold : ∀ (l : List MacAddress) (n : UInt32), n.toNat + l.length < 2 ^ 32 →
      (l.foldl (fun mflow node => if g.getFlow source node then mflow + 1 else mflow) n).toNat =
        n.toNat + l.countP (g.getFlow source) := by
    intro l
    induction l with
    | nil => intro n _; rfl
    | cons v l ih =>
        intro n hn
        rw [List.length_cons] at hn
        rw [List.foldl_cons, List.countP_cons]
        have hadd : (n + 1).toNat = n.toNat + 1 := by
          rw [UInt32.toNat_add]
          exact Nat.mod_eq_of_lt (show n.toNat + 1 < 2 ^ 32 by omega)
        split
        · rw [ih _ (by omega), hadd]
          omega
        · rw [ih _ (by omega), Nat.add_zero]
  have hzero := hfold (g.neighbors source) 0 (by rw [UInt32.toNat_zero]; omega)
  rw [flowValue, hzero, UInt32.toNat_zero, Nat.zero_add]

end Value

/-! ## Opposite flows -/

/-- One turn of the loop that takes opposite flows back. -/
def cancelEdge (g : SimpleGraph) (edge : MacAddress × MacAddress) : SimpleGraph :=
  if g.getFlow edge.1 edge.2 && g.getFlow edge.2 edge.1 then
    (g.falseFlow edge.1 edge.2).falseFlow edge.2 edge.1
  else g

theorem netOut_pair (a b v : MacAddress) : excess {(a, b), (b, a)} v = 0 := by
  by_cases hab : a = b
  · subst hab
    rw [Finset.pair_eq_singleton, excess, Finset.sum_singleton, netOut, sub_self]
  · have hne : (a, b) ≠ (b, a) := fun heq => hab (congrArg Prod.fst heq)
    rw [excess, Finset.sum_pair hne, ← Prod.swap_prod_mk, netOut_swap, neg_add_cancel]

/-- Taking opposite flows back leaves as much flow from the source to the sink. -/
theorem Balanced.cancelEdge {source sink : MacAddress} {g : SimpleGraph} {k : ℕ}
    {F : Finset (MacAddress × MacAddress)} (h : Balanced source sink g k F)
    (edge : MacAddress × MacAddress) :
    ∃ F', Balanced source sink (cancelEdge g edge) k F' ∧ F' ⊆ F := by
  obtain ⟨a, b⟩ := edge
  by_cases hboth : g.getFlow a b && g.getFlow b a
  · obtain ⟨hab, hba⟩ := Bool.and_eq_true_iff.mp hboth
    have hsub : {(a, b), (b, a)} ⊆ F := by
      refine Finset.insert_subset ((h.flows a b).mp hab) (Finset.singleton_subset_iff.mpr ?_)
      exact (h.flows b a).mp hba
    have hstep : Proof.cancelEdge g (a, b) = (g.falseFlow a b).falseFlow b a := if_pos hboth
    refine ⟨F \ {(a, b), (b, a)}, ⟨?_, ?_, ?_, ?_⟩, Finset.sdiff_subset⟩
    · intro e he
      rw [hstep]
      exact h.edges e (Finset.mem_sdiff.mp he).1
    · intro u v
      rw [hstep, falseFlow, falseFlow, getFlow_setFlow, getFlow_setFlow, Finset.mem_sdiff,
        Finset.mem_insert, Finset.mem_singleton, Prod.mk.injEq, Prod.mk.injEq, ← h.flows]
      by_cases h₁ : u = b ∧ v = a
      · simp [h₁]
      · by_cases h₂ : u = a ∧ v = b
        · simp [h₂]
        · simp [h₁, h₂]
    · intro v
      rw [excess_sdiff hsub, netOut_pair, sub_zero, h.balance]
    · exact fun u hu => h.source u (Finset.mem_sdiff.mp hu).1
  · have hstep : Proof.cancelEdge g (a, b) = g := if_neg hboth
    rw [hstep]
    exact ⟨F, h, Finset.Subset.refl F⟩

theorem Balanced.cancelOpposite {source sink : MacAddress} {g : SimpleGraph} {k : ℕ}
    {F : Finset (MacAddress × MacAddress)} (h : Balanced source sink g k F) :
    ∃ F', Balanced source sink g.cancelOpposite k F' ∧ F' ⊆ F := by
  refine List.foldlRecOn (motive := fun g' => ∃ F', Balanced source sink g' k F' ∧ F' ⊆ F) _ _
    ⟨F, h, Finset.Subset.refl F⟩ ?_
  intro g' ⟨F', hF', hsub⟩ edge _
  obtain ⟨F'', hF'', hsub'⟩ := hF'.cancelEdge edge
  exact ⟨F'', hF'', hsub'.trans hsub⟩

theorem neighbors_cancelOpposite (g : SimpleGraph) (u : MacAddress) :
    g.cancelOpposite.neighbors u = g.neighbors u := by
  refine List.foldlRecOn (motive := fun g' : SimpleGraph => g'.neighbors u = g.neighbors u) _ _ rfl ?_
  intro g' ih edge _
  rw [← ih]
  split
  · rfl
  · rfl

/-! ## The end of the loop -/

section End

variable {E : MacAddress → MacAddress → Prop} {source sink : MacAddress} {g : SimpleGraph}

theorem augment_mono {fuel fuel' : Nat} {g' : SimpleGraph} (hle : fuel ≤ fuel')
    (h : augment source sink fuel g = some g') : augment source sink fuel' g = some g' := by
  induction fuel generalizing fuel' g with
  | zero => cases h
  | succ fuel ih =>
      obtain ⟨k, rfl⟩ : ∃ k, fuel' = k + 1 := ⟨fuel' - 1, by omega⟩
      rw [augment] at h
      split at h
      · cases h
      · rename_i hnil
        rw [augment, bfs_mono (by omega) hnil]
        exact h
      · rename_i path hne hpath
        rw [augment, bfs_mono (by omega) hpath]
        split
        · rename_i heq
          cases heq
        · rename_i heq
          exact absurd (Option.some.inj heq) hne
        · rename_i path' _ heq
          cases heq
          exact ih (by omega) h

/-- A path is taken, and the loop goes on. -/
theorem augment_next {fuel fuel' : Nat} {path : List MacAddress} {g' : SimpleGraph}
    (hpath : g.bfs fuel source sink true = some path) (hne : path ≠ [])
    (h : augment source sink fuel' (g.sendFlow path) = some g') :
    augment source sink (max fuel fuel' + 1) g = some g' := by
  rw [augment, bfs_mono (Nat.le_max_left ..) hpath]
  split
  · rename_i heq
    cases heq
  · rename_i heq
    exact absurd (Option.some.inj heq) hne
  · rename_i path' _ heq
    cases heq
    exact augment_mono (Nat.le_max_right ..) h

theorem augment_stop {fuel : Nat} (hpath : g.bfs fuel source sink true = some []) :
    augment source sink (fuel + 1) g = some g := by
  rw [augment, hpath]

theorem Augmented.cons {g' : SimpleGraph} {fuel : Nat} {path : List MacAddress}
    (hpath : g.bfs fuel source sink true = some path) (hne : path ≠ [])
    (h : Augmented source sink (g.sendFlow path) g') : Augmented source sink g g' := by
  induction h with
  | start => exact .next .start hpath hne
  | next _ hpath' hne' ih => exact .next ih hpath' hne'

/-- Where the loop ends the sink cannot be reached. -/
theorem augment_ends {fuel : Nat} {g' : SimpleGraph} (h : augment source sink fuel g = some g') :
    Augmented source sink g g' ∧ ∃ fuel, g'.bfs fuel source sink true = some [] := by
  induction fuel generalizing g with
  | zero => cases h
  | succ fuel ih =>
      rw [augment] at h
      split at h
      · cases h
      · rename_i hnil
        cases h
        exact ⟨.start, fuel, hnil⟩
      · rename_i path hne hpath
        obtain ⟨hrest, hnil⟩ := ih h
        exact ⟨hrest.cons hpath hne, hnil⟩

/--
**The loop ends.** Each turn takes another edge out of the source, and there are only
so many.
-/
theorem Carries.returns {ps : List (List MacAddress)} (h : Carries E source sink g ps)
    (hne : source ≠ sink) (hsearch : ∀ g', Augmented source sink g g' →
      ∃ fuel path, g'.bfs fuel source sink true = some path) :
    ∃ fuel g', augment source sink fuel g = some g' := by
  have hle := h.balanced.countP hne
  have hcount := List.countP_le_length (p := g.getFlow source) (l := g.neighbors source)
  induction hm : (g.neighbors source).length - ps.length using Nat.strongRecOn generalizing g ps with
  | ind m ih =>
      obtain ⟨fuel, path, hpath⟩ := hsearch g .start
      by_cases hnil : path = []
      · subst hnil
        exact ⟨_, _, augment_stop hpath⟩
      · have hnext := h.next hpath hnil
        have hle' := hnext.balanced.countP hne
        have hcount' := List.countP_le_length (p := (g.sendFlow path).getFlow source)
          (l := (g.sendFlow path).neighbors source)
        rw [hle', neighbors_sendFlow, List.length_cons] at hcount'
        obtain ⟨fuel', g', hg'⟩ := ih _ (by rw [neighbors_sendFlow, List.length_cons]; omega) hnext
          (fun g' hg' => hsearch g' (hg'.cons hpath hnil)) hle'
          (by rw [hle', neighbors_sendFlow, List.length_cons]; exact hcount') rfl
        exact ⟨_, g', augment_next hpath hnil hg'⟩

theorem unreachable_of_bfs_nil {fuel : Nat} (hnil : g.bfs fuel source sink true = some []) :
    ¬ Reachable (Unused g) source sink := by
  rw [← hop_eq_unused]
  rcases (bfs_outcome hnil).sound (sorted_follows g true) with ⟨_, hno⟩ | ⟨hp, _⟩
  · exact hno
  · exact absurd rfl hp.ne_nil

end End

/-! ## The flow of a topology -/

theorem neighbors_falseAllFlows (g : SimpleGraph) (u : MacAddress) :
    g.falseAllFlows.neighbors u = g.neighbors u :=
  List.foldlRecOn (motive := fun g' : SimpleGraph => g'.neighbors u = g.neighbors u) _ _ rfl
    fun _ ih _ _ => ih

theorem getFlow_falseAllFlows (t : TopologyGraph) (u v : MacAddress) :
    t.toSimpleGraph.falseAllFlows.getFlow u v = false := by
  refine List.foldlRecOn (motive := fun g : SimpleGraph => g.getFlow u v = false) _ _ ?_ ?_
  · rw [getFlow, flows_toSimpleGraph]
  · intro g ih edge _
    rw [falseFlow, getFlow_setFlow, ih, ite_self]

/-- Before the first path nothing flows. -/
theorem carries_start (t : TopologyGraph) (source sink : MacAddress) :
    Carries (Linked t) source sink t.toSimpleGraph.falseAllFlows [] := by
  refine ⟨fun u v => ?_, .nil, fun u v => ?_⟩
  · rw [neighbors_falseAllFlows, mem_neighbors_toSimpleGraph]
  · rw [getFlow_falseAllFlows]
    exact ⟨fun h => absurd h Bool.false_ne_true, fun ⟨_, h, _⟩ => absurd h List.not_mem_nil⟩

theorem neighbors_of_augmented {source sink : MacAddress} {g g' : SimpleGraph}
    (h : Augmented source sink g g') (u : MacAddress) : g'.neighbors u = g.neighbors u := by
  induction h with
  | start => rfl
  | next _ _ _ ih => rw [neighbors_sendFlow, ih]

section Topology

variable {t : TopologyGraph} {source sink : MacAddress}

/-- The value is the number of the paths taken. -/
theorem flowValue_cancelOpposite {g : SimpleGraph} {ps : List (List MacAddress)}
    (hstates : Augmented source sink t.toSimpleGraph.falseAllFlows g)
    (h : Carries (Linked t) source sink g ps) (hne : source ≠ sink) :
    (g.cancelOpposite.flowValue source).toNat = ps.length := by
  obtain ⟨F, hF, _⟩ := h.balanced.cancelOpposite
  rw [flowValue_eq, hF.countP hne]
  have hle := length_neighbors_le t source
  rw [neighbors_cancelOpposite, neighbors_of_augmented hstates, neighbors_falseAllFlows]
  omega

/--
Where the searches return, `max_flow` does, with the number of paths that it took until
there was none left.
-/
theorem maxFlow_returns (hne : source ≠ sink)
    (hsearch : ∀ g, Augmented source sink t.toSimpleGraph.falseAllFlows g →
      ∃ fuel path, g.bfs fuel source sink true = some path) :
    ∃ fuel n g ps, t.toSimpleGraph.maxFlow fuel source sink = some n ∧
      augment source sink fuel t.toSimpleGraph.falseAllFlows = some g ∧
        Augmented source sink t.toSimpleGraph.falseAllFlows g ∧
          Carries (Linked t) source sink g ps ∧ n.toNat = ps.length ∧
            ¬ Reachable (Unused g) source sink := by
  have hstart := carries_start t source sink
  obtain ⟨fuel, g, hg⟩ := hstart.returns hne hsearch
  obtain ⟨hstates, _, hnil⟩ := augment_ends hg
  obtain ⟨ps, hps⟩ := hstates.carries hstart
  refine ⟨fuel, _, g, ps, ?_, hg, hstates, hps, flowValue_cancelOpposite hstates hps hne,
    unreachable_of_bfs_nil hnil⟩
  rw [maxFlow, hg]
  rfl

/-- Without links from a node to itself the searches return. -/
theorem search_returns (hlinks : ∀ x, ¬ Linked t x x) {g : SimpleGraph}
    (hstates : Augmented source sink t.toSimpleGraph.falseAllFlows g) :
    ∃ fuel path, g.bfs fuel source sink true = some path := by
  obtain ⟨ps, hps⟩ := hstates.carries (carries_start t source sink)
  exact bfs_returns (hps.loopless hlinks) source sink

end Topology

theorem maxFlow_unique {g : SimpleGraph} {source sink : MacAddress} {fuel fuel' : Nat} {n n' : UInt32}
    (h : g.maxFlow fuel source sink = some n) (h' : g.maxFlow fuel' source sink = some n') : n = n' := by
  obtain ⟨r, hr, rfl⟩ := Option.map_eq_some_iff.mp h
  obtain ⟨r', hr', rfl⟩ := Option.map_eq_some_iff.mp h'
  have hmax := augment_mono (Nat.le_max_left fuel fuel') hr
  rw [augment_mono (Nat.le_max_right fuel fuel') hr'] at hmax
  rw [Option.some.inj hmax]

/-- Where a path leads to the sink, `max_flow` counts at least one. -/
theorem maxFlow_pos {t : TopologyGraph} {source sink : MacAddress} (hne : source ≠ sink)
    (hsearch : ∀ g, Augmented source sink t.toSimpleGraph.falseAllFlows g →
      ∃ fuel path, g.bfs fuel source sink true = some path)
    (hreach : Reachable (Linked t) source sink) {fuel : Nat} {n : UInt32}
    (h : t.toSimpleGraph.maxFlow fuel source sink = some n) : 0 < n.toNat := by
  obtain ⟨_, n', g, ps, hn', _, _, hps, hlen, hno⟩ := maxFlow_returns hne hsearch
  obtain rfl := maxFlow_unique h hn'
  by_contra hzero
  -- without a path the last search was made over all links
  have hnil : ps = [] := List.length_eq_zero_iff.mp (by omega)
  subst hnil
  obtain ⟨p, hp⟩ := hreach
  refine hno ⟨p, hp.mono fun u v hedge => ?_⟩
  rw [hps.unused]
  exact ⟨hedge, fun _ h => absurd h List.not_mem_nil⟩

/-- `max_flow` terminates, with the largest number of edge-disjoint paths. -/
def FindsMaxFlow (t : TopologyGraph) (source sink : MacAddress) : Prop :=
  ∃ fuel n, t.toSimpleGraph.maxFlow fuel source sink = some n ∧
    IsGreatest {k | ∃ ps, EdgeDisjoint (Linked t) source sink ps ∧ ps.length = k} n.toNat

def chordMac (n : UInt8) : MacAddress := .ofOctets 2 0 0 0 0 n

/-- A switch with links to two others. -/
def chordNode (self left right : UInt8) : NetworkNode where
  macAddr := chordMac self
  links := (∅ : ExtTreeMap UInt16 (MacAddress × UInt32)).insert 1 (chordMac left, 0)
    |>.insert 2 (chordMac right, 0)

/-- Two ways lead from the first switch to the last, and a link joins their middles. -/
def chord : TopologyGraph where
  me := chordNode 1 2 3
  otherNodes := (∅ : ExtTreeMap MacAddress NetworkNode).insert (chordMac 2) (chordNode 2 3 4)
    |>.insert (chordMac 3) (chordNode 3 4 1)
    |>.insert (chordMac 4) (chordNode 4 1 2)

theorem chord_loopless (x : MacAddress) : ¬ Linked chord x x := by
  have hall : ∀ e ∈ chord.toSimpleGraph.allEdges, e.1 ≠ e.2 := by decide +kernel
  exact fun h => hall _ (mem_allEdges (mem_neighbors_toSimpleGraph.mpr h)) rfl

theorem chord_ne : chordMac 1 ≠ chordMac 4 := by decide

theorem chord_value : chord.toSimpleGraph.maxFlow 12 (chordMac 1) (chordMac 4) = some 1 := by
  decide +kernel

/-- Along either side of the diamond there is a path. -/
theorem chord_paths : EdgeDisjoint (Linked chord) (chordMac 1) (chordMac 4)
    [[chordMac 1, chordMac 2, chordMac 4], [chordMac 1, chordMac 3, chordMac 4]] := by
  have hlink : ∀ u v, v ∈ chord.toSimpleGraph.neighbors u → Linked chord u v :=
    fun _ _ => mem_neighbors_toSimpleGraph.mp
  have h₁₂ := hlink (chordMac 1) (chordMac 2) (by decide +kernel)
  have h₂₄ := hlink (chordMac 2) (chordMac 4) (by decide +kernel)
  have h₁₃ := hlink (chordMac 1) (chordMac 3) (by decide +kernel)
  have h₃₄ := hlink (chordMac 3) (chordMac 4) (by decide +kernel)
  refine ⟨?_, ?_, ?_⟩
  · intro p hp
    rcases List.mem_pair.mp hp with rfl | rfl
    · exact ((IsPath.singleton _).snoc h₁₂).snoc h₂₄
    · exact ((IsPath.singleton _).snoc h₁₃).snoc h₃₄
  · decide
  · refine .cons ?_ (.cons (fun _ h => absurd h List.not_mem_nil) .nil)
    intro q hq e he he'
    rw [List.mem_singleton.mp hq] at he'
    revert e
    decide

def diamond : TopologyGraph where
  me := chordNode 1 2 3
  otherNodes := (∅ : ExtTreeMap MacAddress NetworkNode).insert (chordMac 2) (chordNode 2 4 4)
    |>.insert (chordMac 3) (chordNode 3 4 4)
    |>.insert (chordMac 4) (chordNode 4 1 1)

theorem diamond_loopless (x : MacAddress) : ¬ Linked diamond x x := by
  have hall : ∀ e ∈ diamond.toSimpleGraph.allEdges, e.1 ≠ e.2 := by decide +kernel
  exact fun h => hall _ (mem_allEdges (mem_neighbors_toSimpleGraph.mpr h)) rfl

theorem diamond_linked {u v : MacAddress} (h : Linked diamond u v) :
    u = chordMac 1 ∧ (v = chordMac 2 ∨ v = chordMac 3) ∨
      (u = chordMac 2 ∨ u = chordMac 3) ∧ v = chordMac 4 ∨ u = chordMac 4 ∧ v = chordMac 1 := by
  have hall : ∀ e ∈ diamond.toSimpleGraph.allEdges,
      e.1 = chordMac 1 ∧ (e.2 = chordMac 2 ∨ e.2 = chordMac 3) ∨
        (e.1 = chordMac 2 ∨ e.1 = chordMac 3) ∧ e.2 = chordMac 4 ∨
          e.1 = chordMac 4 ∧ e.2 = chordMac 1 := by decide +kernel
  exact hall _ (mem_allEdges (mem_neighbors_toSimpleGraph.mpr h))

/-- There are two ways from the first switch to the last. -/
theorem diamond_path {p : List MacAddress} (hp : IsPath (Linked diamond) (chordMac 1) (chordMac 4) p)
    (hnodup : p.Nodup) : p = [chordMac 1, chordMac 2, chordMac 4] ∨ p = [chordMac 1, chordMac 3, chordMac 4] := by
  have hmiddle : ∀ {v q}, v = chordMac 2 ∨ v = chordMac 3 → IsPath (Linked diamond) v (chordMac 4) (v :: q) →
      (v :: q).Nodup → q = [chordMac 4] := by
    intro v q hv hq hnodup
    have hne : v ≠ chordMac 4 := by
      rintro rfl
      exact absurd hv (by decide)
    obtain ⟨w, r, heq, hvw, hrest⟩ := hq.cases hne
    cases heq
    have hw : w = chordMac 4 := by
      rcases diamond_linked hvw with ⟨rfl, _⟩ | ⟨_, hw⟩ | ⟨rfl, _⟩
      · exact absurd hv (by decide)
      · exact hw
      · exact absurd rfl hne
    subst hw
    exact hrest.eq_singleton (List.nodup_cons.mp hnodup).2
  obtain ⟨v, q, rfl, hv, hrest⟩ := hp.cases (by decide)
  have hends : v = chordMac 2 ∨ v = chordMac 3 := by
    rcases diamond_linked hv with ⟨_, h⟩ | ⟨h, _⟩ | ⟨h, _⟩
    · exact h
    · exact absurd h (by decide)
    · exact absurd h (by decide)
  rw [hmiddle hends hrest (List.nodup_cons.mp hnodup).2]
  rcases hends with rfl | rfl
  · exact .inl rfl
  · exact .inr rfl

/-- When no way is left, both were taken, and with them both links of the first switch. -/
theorem diamond_exhausted {ps : List (List MacAddress)}
    (h : Exhausted (Linked diamond) macLt (chordMac 1) (chordMac 4) ps) {v : MacAddress}
    (hv : Linked diamond (chordMac 1) v) : ∃ p ∈ ps, (chordMac 1, v) ∈ edgesOf p := by
  have hends : v = chordMac 2 ∨ v = chordMac 3 := by
    rcases diamond_linked hv with ⟨_, h⟩ | ⟨h, _⟩ | ⟨h, _⟩
    · exact h
    · exact absurd h (by decide)
    · exact absurd h (by decide)
  by_contra hno
  have hfirst : ∀ p ∈ ps, (chordMac 1, v) ∉ edgesOf p := fun p hp hmem => hno ⟨p, hp, hmem⟩
  have hsecond : ∀ p ∈ ps, (v, chordMac 4) ∉ edgesOf p := by
    intro p hp hmem
    have hdisjoint := h.taken.edgeDisjoint
    refine hfirst p hp ?_
    rcases diamond_path (hdisjoint.path p hp) (hdisjoint.nodup p hp) with rfl | rfl
    · rcases hends with rfl | rfl
      · decide
      · exact absurd hmem (by decide)
    · rcases hends with rfl | rfl
      · exact absurd hmem (by decide)
      · decide
  have hlast : Linked diamond v (chordMac 4) := by
    rcases hends with rfl | rfl
    · exact mem_neighbors_toSimpleGraph.mp (by decide +kernel)
    · exact mem_neighbors_toSimpleGraph.mp (by decide +kernel)
  exact h.none_left ⟨_, ((IsPath.singleton _).snoc ⟨hv, hfirst⟩).snoc ⟨hlast, hsecond⟩⟩

end IronStack.Proof
