import IronStack.Lib.Walks
import Mathlib.Algebra.BigOperators.Group.Finset.Sigma
import Mathlib.Algebra.BigOperators.Ring.Finset
import Mathlib.Algebra.Order.BigOperators.Group.Finset
import Mathlib.Data.Fintype.Card
import Mathlib.Tactic.Ring

/-!
# Edge-disjoint paths

A set of edge-disjoint paths from a source to a sink is as large as any if and only
if no path leads from the source to the sink along the edges that are not on them
and, backwards, the ones that are. One direction counts the edges out of a cut; the
other undoes what a further path needs undone, and takes the edges apart into paths
again.
-/

namespace IronStack.Lib

open Finset

/-- The edges of a path, from each node to the next one. -/
def edgesOf {α : Type} (p : List α) : List (α × α) := p.zip p.tail

/-- Paths that visit no node twice, no two of which share an edge. -/
structure EdgeDisjoint {α : Type} (E : α → α → Prop) (s d : α) (ps : List (List α)) : Prop where
  path : ∀ p ∈ ps, IsPath E s d p
  nodup : ∀ p ∈ ps, p.Nodup
  disjoint : ps.Pairwise fun p q => (edgesOf p).Disjoint (edgesOf q)

/-- The edges that are not on the paths. -/
def Untaken {α : Type} (E : α → α → Prop) (ps : List (List α)) (u v : α) : Prop :=
  E u v ∧ ∀ p ∈ ps, (u, v) ∉ edgesOf p

/-- Edges that are not on the paths, and edges on them taken backwards. -/
def Residual {α : Type} (E : α → α → Prop) (ps : List (List α)) (u v : α) : Prop :=
  Untaken E ps u v ∨ ∃ p ∈ ps, (v, u) ∈ edgesOf p

/--
Paths that were taken one after the other, the last one first. Each visits no node twice and
never turns back, on the edges that were left for it.
-/
inductive TakenOnward {α : Type} (E lt : α → α → Prop) (s d : α) : List (List α) → Prop where
  | nil : TakenOnward E lt s d []
  | cons {p : List α} {ps : List (List α)} (h : TakenOnward E lt s d ps)
      (hpath : IsPath (Onward (Untaken E ps) lt s) s d p) (hnodup : p.Nodup) : TakenOnward E lt s d (p :: ps)

/-- Such paths, when none is left to take. -/
structure Exhausted {α : Type} (E lt : α → α → Prop) (s d : α) (ps : List (List α)) : Prop where
  taken : TakenOnward E lt s d ps
  none_left : ¬ Reachable (Untaken E ps) s d

/-! ## The edges of a path -/

section Hops

variable {α : Type} {E : α → α → Prop} {s d u v : α} {p : List α}

theorem edgesOf_cons_cons (u v : α) (p : List α) : edgesOf (u :: v :: p) = (u, v) :: edgesOf (v :: p) := rfl

theorem mem_of_mem_edgesOf (h : (u, v) ∈ edgesOf p) : u ∈ p ∧ v ∈ p.tail := List.of_mem_zip h

theorem isChain_iff_edgesOf : p.IsChain E ↔ ∀ e ∈ edgesOf p, E e.1 e.2 := by
  induction p with
  | nil => exact ⟨fun _ _ h => absurd h List.not_mem_nil, fun _ => .nil⟩
  | cons u p ih =>
      cases p with
      | nil => exact ⟨fun _ _ h => absurd h List.not_mem_nil, fun _ => .singleton u⟩
      | cons v p => rw [List.isChain_cons_cons, ih, edgesOf_cons_cons, List.forall_mem_cons]

theorem IsPath.hop (h : IsPath E s d p) {e : α × α} (he : e ∈ edgesOf p) : E e.1 e.2 :=
  isChain_iff_edgesOf.mp h.hops e he

theorem mem_edgesOf_append {e : α × α} {p q : List α} (h : e ∈ edgesOf q) : e ∈ edgesOf (p ++ q) := by
  induction p with
  | nil => exact h
  | cons u p ih =>
      rw [List.cons_append]
      cases hl : p ++ q with
      | nil =>
          rw [hl] at ih
          exact absurd ih List.not_mem_nil
      | cons v l =>
          rw [hl] at ih
          exact List.mem_cons_of_mem _ ih

theorem edgesOf_concat {p : List α} (h : p.getLast? = some u) (v : α) :
    edgesOf (p ++ [v]) = edgesOf p ++ [(u, v)] := by
  induction p with
  | nil => cases h
  | cons w p ih =>
      cases p with
      | nil =>
          cases h
          rfl
      | cons x p =>
          rw [List.getLast?_cons_cons] at h
          rw [edgesOf_cons_cons, List.cons_append (a := (w, x)), ← ih h]
          rfl

theorem mem_edgesOf_reverse {e : α × α} : e ∈ edgesOf p.reverse ↔ e.swap ∈ edgesOf p := by
  induction p with
  | nil => exact ⟨fun h => absurd h List.not_mem_nil, fun h => absurd h List.not_mem_nil⟩
  | cons w p ih =>
      cases p with
      | nil => exact ⟨fun h => absurd h List.not_mem_nil, fun h => absurd h List.not_mem_nil⟩
      | cons x p =>
          have hlast : (x :: p).reverse.getLast? = some x := by
            rw [List.getLast?_reverse]
            rfl
          rw [List.reverse_cons, edgesOf_concat hlast, edgesOf_cons_cons, List.mem_append, ih,
            List.mem_singleton, List.mem_cons, or_comm, Prod.swap_eq_iff_eq_swap]
          rfl

theorem nodup_edgesOf (h : p.Nodup) : (edgesOf p).Nodup := by
  refine List.Nodup.of_map Prod.snd ?_
  rw [edgesOf, List.map_snd_zip (by simp)]
  exact h.sublist (List.tail_sublist p)

theorem TakenOnward.edgeDisjoint {lt : α → α → Prop} {ps : List (List α)} (h : TakenOnward E lt s d ps) :
    EdgeDisjoint E s d ps := by
  induction h with
  | nil => exact ⟨fun _ h => absurd h List.not_mem_nil, fun _ h => absurd h List.not_mem_nil, .nil⟩
  | cons _ hpath hnodup ih =>
      refine ⟨?_, List.forall_mem_cons.mpr ⟨hnodup, ih.nodup⟩, .cons (fun q hq e he he' => ?_) ih.disjoint⟩
      · exact List.forall_mem_cons.mpr ⟨hpath.mono fun _ _ hop => hop.edge.1, ih.path⟩
      · exact (hpath.hop he).edge.2 q hq he'

/-- The second node of a path from one node to another. -/
theorem IsPath.cases (h : IsPath E s d p) (hsd : s ≠ d) :
    ∃ v q, p = s :: v :: q ∧ E s v ∧ IsPath E v d (v :: q) := by
  cases p with
  | nil => exact absurd rfl h.ne_nil
  | cons u p =>
      obtain rfl : s = u := (Option.some.inj h.head).symm
      cases p with
      | nil =>
          have hlast := h.last
          cases hlast
          exact absurd rfl hsd
      | cons v q =>
          have hlast := h.last
          rw [List.getLast?_cons_cons] at hlast
          have hchain := List.isChain_cons_cons.mp h.hops
          exact ⟨v, q, rfl, hchain.1, rfl, hlast, hchain.2⟩

/-- What can be reached can be reached on a path that visits no node twice. -/
theorem exists_simple (h : Reachable E s d) : ∃ p, IsPath E s d p ∧ p.Nodup := by
  obtain ⟨p, hp⟩ := h
  induction p generalizing s with
  | nil => exact absurd rfl hp.ne_nil
  | cons u p ih =>
      obtain rfl : s = u := (Option.some.inj hp.head).symm
      by_cases hsd : s = d
      · subst hsd
        exact ⟨[s], .singleton s, List.nodup_singleton s⟩
      obtain ⟨v, q, heq, hedge, hrest⟩ := hp.cases hsd
      cases heq
      obtain ⟨r, hr, hnodup⟩ := ih hrest
      by_cases hmem : s ∈ r
      · -- the path comes back to its first node: what follows is a path
        obtain ⟨r₁, r₂, rfl⟩ := List.append_of_mem hmem
        refine ⟨s :: r₂, ⟨rfl, ?_, hr.hops.right_of_append⟩, hnodup.sublist (List.sublist_append_right _ _)⟩
        have hlast := hr.last
        rwa [List.getLast?_append_of_ne_nil _ (List.cons_ne_nil _ _)] at hlast
      · exact ⟨s :: r, hr.cons hedge, List.nodup_cons.mpr ⟨hmem, hnodup⟩⟩

end Hops

/-! ## Cuts -/

section Cut

variable {α : Type} {E : α → α → Prop} {s d : α} {S : α → Prop}

/-- A path out of a set leaves it somewhere. -/
theorem IsPath.exists_leaving {p : List α} (h : IsPath E s d p) (hs : S s) (hd : ¬ S d) :
    ∃ u v, (u, v) ∈ edgesOf p ∧ S u ∧ ¬ S v := by
  induction p generalizing s with
  | nil => exact absurd rfl h.ne_nil
  | cons w p ih =>
      obtain rfl : s = w := (Option.some.inj h.head).symm
      have hsd : s ≠ d := fun heq => hd (heq ▸ hs)
      obtain ⟨v, q, heq, _, hrest⟩ := h.cases hsd
      cases heq
      by_cases hv : S v
      · obtain ⟨u, w, hmem, hu, hw⟩ := ih hrest hv
        exact ⟨u, w, List.mem_cons_of_mem _ hmem, hu, hw⟩
      · exact ⟨s, v, List.mem_cons_self, hs, hv⟩

/-- A path that never enters a set stays out of it. -/
theorem stays_out {w : α} {p : List α} (henter : ∀ u v, (u, v) ∈ edgesOf (w :: p) → ¬ S u → ¬ S v)
    (hw : ¬ S w) {u v : α} (hmem : (u, v) ∈ edgesOf (w :: p)) : ¬ S u := by
  induction p generalizing w with
  | nil => exact absurd hmem List.not_mem_nil
  | cons x p ih =>
      rw [edgesOf_cons_cons] at hmem
      rcases List.mem_cons.mp hmem with heq | hmem
      · cases heq
        exact hw
      · exact ih (fun u v h => henter u v (List.mem_cons_of_mem _ h)) (henter w x List.mem_cons_self hw) hmem

/-- A path that never enters a set leaves it once. -/
theorem leaving_unique {p : List α} (henter : ∀ u v, (u, v) ∈ edgesOf p → ¬ S u → ¬ S v)
    {e f : α × α} (he : e ∈ edgesOf p) (hf : f ∈ edgesOf p) (he1 : S e.1) (he2 : ¬ S e.2) (hf1 : S f.1)
    (hf2 : ¬ S f.2) : e = f := by
  induction p with
  | nil => exact absurd he List.not_mem_nil
  | cons w p ih =>
      cases p with
      | nil => exact absurd he List.not_mem_nil
      | cons x p =>
          have hrest : ∀ u v, (u, v) ∈ edgesOf (x :: p) → ¬ S u → ¬ S v :=
            fun u v h => henter u v (List.mem_cons_of_mem _ h)
          rcases List.mem_cons.mp he with rfl | he'
          · rcases List.mem_cons.mp hf with rfl | hf'
            · rfl
            · exact absurd hf1 (stays_out hrest he2 hf')
          · rcases List.mem_cons.mp hf with rfl | hf'
            · exact absurd he1 (stays_out hrest hf2 he')
            · exact ih hrest he' hf'

/--
If the paths use every edge out of a set and none into it, there are no more
edge-disjoint paths than these: every path takes an edge out, and no two of them the
edge of one path.
-/
theorem EdgeDisjoint.length_le_of_cut {ps qs : List (List α)} (hqs : EdgeDisjoint E s d qs)
    (hs : S s) (hd : ¬ S d) (hout : ∀ u v, S u → ¬ S v → E u v → ∃ p ∈ ps, (u, v) ∈ edgesOf p)
    (hin : ∀ p ∈ ps, ∀ u v, (u, v) ∈ edgesOf p → ¬ S u → ¬ S v) : qs.length ≤ ps.length := by
  have hedge : ∀ i : Fin qs.length, ∃ (j : Fin ps.length) (e : α × α),
      e ∈ edgesOf qs[i] ∧ e ∈ edgesOf ps[j] ∧ S e.1 ∧ ¬ S e.2 := by
    intro i
    have hpath := hqs.path qs[i] (List.getElem_mem i.isLt)
    obtain ⟨u, v, hmem, hu, hv⟩ := hpath.exists_leaving hs hd
    obtain ⟨p, hp, hused⟩ := hout u v hu hv (hpath.hop hmem)
    obtain ⟨j, hj, rfl⟩ := List.getElem_of_mem hp
    exact ⟨⟨j, hj⟩, (u, v), hmem, hused, hu, hv⟩
  choose f e hq hp hu hv using hedge
  have hinj : Function.Injective f := by
    intro i j hij
    have hsame : e i = e j := by
      refine leaving_unique (hin ps[f j] (List.getElem_mem (f j).isLt)) ?_ (hp j) (hu i) (hv i) (hu j) (hv j)
      have h := hp i
      rwa [hij] at h
    by_contra hne
    have hpair := List.pairwise_iff_getElem.mp hqs.disjoint
    rcases Nat.lt_or_gt_of_ne (fun h => hne (Fin.ext h)) with hlt | hlt
    · exact hpair i j i.isLt j.isLt hlt (hq i) (hsame ▸ hq j)
    · exact hpair j i j.isLt i.isLt hlt (hq j) (hsame ▸ hq i)
  have hcard := Fintype.card_le_of_injective f hinj
  rwa [Fintype.card_fin, Fintype.card_fin] at hcard

end Cut

/-! ## Flows -/

section Flow

variable {α : Type} [DecidableEq α] {E : α → α → Prop} {s d : α}

/-- What one edge adds to the flow out of a node, less the flow into it. -/
def netOut (e : α × α) (v : α) : ℤ := (if e.1 = v then 1 else 0) - if e.2 = v then 1 else 0

/-- The flow out of a node, less the flow into it. -/
def excess (F : Finset (α × α)) (v : α) : ℤ := ∑ e ∈ F, netOut e v

theorem netOut_swap (e : α × α) (v : α) : netOut e.swap v = -netOut e v := by
  simp only [netOut, Prod.fst_swap, Prod.snd_swap, neg_sub]

/-- Along a path the flow comes from its start and goes to its end. -/
theorem IsPath.excess {p : List α} (h : IsPath E s d p) (hp : p.Nodup) (v : α) :
    Lib.excess (edgesOf p).toFinset v = netOut (s, d) v := by
  rw [Lib.excess, List.sum_toFinset _ (nodup_edgesOf hp)]
  clear hp
  induction p generalizing s with
  | nil => exact absurd rfl h.ne_nil
  | cons w p ih =>
      obtain rfl : s = w := (Option.some.inj h.head).symm
      cases p with
      | nil =>
          obtain rfl : s = d := Option.some.inj h.last
          exact (sub_self _).symm
      | cons x p =>
          have hlast := h.last
          rw [List.getLast?_cons_cons] at hlast
          have hrest := ih (s := x) ⟨rfl, hlast, (List.isChain_cons_cons.mp h.hops).2⟩
          rw [edgesOf_cons_cons, List.map_cons, List.sum_cons, hrest]
          exact sub_add_sub_cancel _ _ _

/-- A set that no edge of the flow leaves has no excess. -/
theorem sum_excess_nonpos {F : Finset (α × α)} {T : Finset α} (h : ∀ e ∈ F, e.1 ∈ T → e.2 ∈ T) :
    ∑ v ∈ T, excess F v ≤ 0 := by
  simp only [excess]
  rw [sum_comm]
  refine sum_nonpos fun e he => ?_
  simp only [netOut, sum_sub_distrib, sum_ite_eq]
  have hT := h e he
  by_cases hu : e.1 ∈ T
  · rw [if_pos hu, if_pos (hT hu)]
    exact le_refl _
  · rw [if_neg hu, zero_sub, Left.neg_nonpos_iff]
    split
    · exact zero_le_one
    · exact le_refl _

/-- Where more flows out than in, an edge has flow out. -/
theorem exists_out_of_excess {F : Finset (α × α)} {u : α} (h : 0 < excess F u) : ∃ v, (u, v) ∈ F := by
  by_contra hno
  have hle : excess F u ≤ 0 := by
    refine sum_nonpos fun e he => ?_
    have hne : e.1 ≠ u := fun heq => hno ⟨e.2, heq ▸ he⟩
    rw [netOut, if_neg hne, zero_sub, Left.neg_nonpos_iff]
    split
    · exact zero_le_one
    · exact le_refl _
  omega

/-- Flow out of the source alone reaches the sink. -/
theorem reachable_of_excess {F : Finset (α × α)} (hs : 0 < excess F s)
    (hbalance : ∀ v, v ≠ s → v ≠ d → excess F v = 0) : Reachable (fun u v => (u, v) ∈ F) s d := by
  classical
  by_contra hno
  have hmem : ∀ v, Reachable (fun u v => (u, v) ∈ F) s v → v = s ∨ v ≠ s ∧ v ≠ d := by
    intro v hv
    by_cases hvs : v = s
    · exact .inl hvs
    · refine .inr ⟨hvs, fun hvd => hno (hvd ▸ hv)⟩
  have hsum := sum_excess_nonpos (F := F)
    (T := (insert s (F.image Prod.snd)).filter fun v => Reachable (fun u v => (u, v) ∈ F) s v) (by
      intro e he hu
      obtain ⟨p, hp⟩ := (mem_filter.mp hu).2
      exact mem_filter.mpr ⟨mem_insert_of_mem (mem_image_of_mem _ he), _, hp.snoc he⟩)
  rw [sum_eq_single_of_mem s (mem_filter.mpr ⟨mem_insert_self _ _, _, .singleton s⟩)] at hsum
  · omega
  · intro v hv hvs
    rcases hmem v (mem_filter.mp hv).2 with h | ⟨_, hvd⟩
    · exact absurd h hvs
    · exact hbalance v hvs hvd

theorem excess_sdiff {F G : Finset (α × α)} (h : G ⊆ F) (v : α) :
    excess (F \ G) v = excess F v - excess G v := by
  have hsum := sum_sdiff (f := fun e => netOut e v) h
  simp only [excess]
  omega

theorem excess_union {F G : Finset (α × α)} (h : Disjoint F G) (v : α) :
    excess (F ∪ G) v = excess F v + excess G v := sum_union h

/--
**A flow of `k` from the source to the sink is made of `k` edge-disjoint paths.**
By induction on `k`: some path of the flow leads to the sink, and what is left
without it is a flow of one less.
-/
theorem exists_edgeDisjoint {F : Finset (α × α)} {k : ℕ} (hsd : s ≠ d) (hE : ∀ e ∈ F, E e.1 e.2)
    (hflow : ∀ v, v ≠ d → excess F v = k * netOut (s, d) v) :
    ∃ ps, EdgeDisjoint E s d ps ∧ ps.length = k ∧ ∀ p ∈ ps, ∀ e ∈ edgesOf p, e ∈ F := by
  induction k generalizing F with
  | zero =>
      exact ⟨[], ⟨fun _ h => absurd h List.not_mem_nil, fun _ h => absurd h List.not_mem_nil, .nil⟩, rfl,
        fun _ h => absurd h List.not_mem_nil⟩
  | succ k ih =>
      have hsource : netOut (s, d) s = 1 := by simp [netOut, hsd.symm]
      have hout : 0 < excess F s := by
        rw [hflow s hsd, hsource]
        omega
      obtain ⟨p, hp, hnodup⟩ := exists_simple (reachable_of_excess hout fun v hvs hvd => by
        rw [hflow v hvd, netOut, if_neg (Ne.symm hvs), if_neg (Ne.symm hvd), sub_zero, mul_zero])
      have hsub : (edgesOf p).toFinset ⊆ F := fun e he => hp.hop (List.mem_toFinset.mp he)
      obtain ⟨ps, hps, hlen, hused⟩ := ih (F := F \ (edgesOf p).toFinset)
        (fun e he => hE e (mem_sdiff.mp he).1) fun v hvd => by
          rw [excess_sdiff hsub, hflow v hvd, hp.excess hnodup]
          push_cast
          ring
      refine ⟨p :: ps, ⟨?_, ?_, ?_⟩, by rw [List.length_cons, hlen], ?_⟩
      · refine List.forall_mem_cons.mpr ⟨⟨hp.head, hp.last, ?_⟩, hps.path⟩
        exact isChain_iff_edgesOf.mpr fun e he => hE e (hp.hop he)
      · exact List.forall_mem_cons.mpr ⟨hnodup, hps.nodup⟩
      · refine .cons (fun q hq e he he' => ?_) hps.disjoint
        exact (mem_sdiff.mp (hused q hq e he')).2 (List.mem_toFinset.mpr he)
      · exact List.forall_mem_cons.mpr
          ⟨fun e he => hp.hop he, fun q hq e he => (mem_sdiff.mp (hused q hq e he)).1⟩

/-- The edges of all paths. -/
def used (ps : List (List α)) : Finset (α × α) := (ps.flatMap edgesOf).toFinset

theorem mem_used {ps : List (List α)} {e : α × α} : e ∈ used ps ↔ ∃ p ∈ ps, e ∈ edgesOf p := by
  rw [used, List.mem_toFinset, List.mem_flatMap]

omit [DecidableEq α] in
theorem EdgeDisjoint.tail {p : List α} {ps : List (List α)} (h : EdgeDisjoint E s d (p :: ps)) :
    EdgeDisjoint E s d ps :=
  ⟨(List.forall_mem_cons.mp h.path).2, (List.forall_mem_cons.mp h.nodup).2,
    (List.pairwise_cons.mp h.disjoint).2⟩

/-- Edge-disjoint paths carry a flow of their number. -/
theorem EdgeDisjoint.excess_used {ps : List (List α)} (h : EdgeDisjoint E s d ps) (v : α) :
    excess (used ps) v = ps.length * netOut (s, d) v := by
  induction ps with
  | nil => exact (zero_mul _).symm
  | cons p ps ih =>
      have hunion : used (p :: ps) = (edgesOf p).toFinset ∪ used ps := by
        rw [used, List.flatMap_cons, List.toFinset_append]
        rfl
      have hdisjoint : Disjoint (edgesOf p).toFinset (used ps) := by
        refine disjoint_left.mpr fun e he hps => ?_
        obtain ⟨q, hq, he'⟩ := mem_used.mp hps
        exact (List.pairwise_cons.mp h.disjoint).1 q hq (List.mem_toFinset.mp he) he'
      rw [hunion, excess_union hdisjoint, ih h.tail,
        (h.path p List.mem_cons_self).excess (h.nodup p List.mem_cons_self), List.length_cons]
      push_cast
      ring

/-- A path of unused edges and of used ones backwards adds one to the flow. -/
theorem exists_augmented {F : Finset (α × α)} (hE : ∀ e ∈ F, E e.1 e.2) {p : List α}
    (hp : IsPath (fun u v => (E u v ∧ (u, v) ∉ F) ∨ (v, u) ∈ F) s d p) (hnodup : p.Nodup) :
    ∃ F' : Finset (α × α), (∀ e ∈ F', E e.1 e.2) ∧
      ∀ v, excess F' v = excess F v + netOut (s, d) v := by
  classical
  -- the hops of the path that add an edge, and those that take one back
  let added := (edgesOf p).toFinset.filter fun e => E e.1 e.2 ∧ e ∉ F
  let undone := (edgesOf p).toFinset.filter fun e => ¬ (E e.1 e.2 ∧ e ∉ F)
  have hsub : undone.image Prod.swap ⊆ F := by
    intro e he
    obtain ⟨f, hf, rfl⟩ := mem_image.mp he
    obtain ⟨hmem, hnot⟩ := mem_filter.mp hf
    exact (hp.hop (List.mem_toFinset.mp hmem)).resolve_left hnot
  have hdisjoint : Disjoint (F \ undone.image Prod.swap) added :=
    disjoint_left.mpr fun e he hadd => (mem_filter.mp hadd).2.2 (mem_sdiff.mp he).1
  refine ⟨F \ undone.image Prod.swap ∪ added, ?_, fun v => ?_⟩
  · intro e he
    rcases mem_union.mp he with he | he
    · exact hE e (mem_sdiff.mp he).1
    · exact (mem_filter.mp he).2.1
  · have hback : excess (undone.image Prod.swap) v = -excess undone v := by
      simp only [excess]
      rw [sum_image Prod.swap_injective.injOn, ← sum_neg_distrib]
      exact sum_congr rfl fun e _ => netOut_swap e v
    have hsplit : excess added v + excess undone v = excess (edgesOf p).toFinset v :=
      sum_filter_add_sum_filter_not _ _ _
    rw [excess_union hdisjoint, excess_sdiff hsub, hback, ← hp.excess hnodup v]
    omega

/-- A path of unused edges and of used ones backwards makes room for another path. -/
theorem EdgeDisjoint.exists_more {ps : List (List α)} (h : EdgeDisjoint E s d ps) (hsd : s ≠ d)
    (hreach : Reachable (Residual E ps) s d) :
    ∃ qs, EdgeDisjoint E s d qs ∧ qs.length = ps.length + 1 := by
  obtain ⟨p, hp, hnodup⟩ := exists_simple hreach
  have hE : ∀ e ∈ used ps, E e.1 e.2 := by
    intro e he
    obtain ⟨q, hq, hmem⟩ := mem_used.mp he
    exact (h.path q hq).hop hmem
  have hres : Residual E ps = fun u v => (E u v ∧ (u, v) ∉ used ps) ∨ (v, u) ∈ used ps := by
    funext u v
    simp only [Residual, Untaken, mem_used, not_exists, not_and]
  rw [hres] at hp
  obtain ⟨F, hF, hflow⟩ := exists_augmented hE hp hnodup
  obtain ⟨qs, hqs, hlen, _⟩ := exists_edgeDisjoint (k := ps.length + 1) hsd hF fun v _ => by
    rw [hflow, h.excess_used]
    push_cast
    ring
  exact ⟨qs, hqs, hlen⟩

omit [DecidableEq α] in
/-- Without such a path, the nodes that can be reached are a cut that shows there is no more room. -/
theorem EdgeDisjoint.length_le {ps qs : List (List α)} (hqs : EdgeDisjoint E s d qs)
    (hno : ¬ Reachable (Residual E ps) s d) : qs.length ≤ ps.length := by
  refine hqs.length_le_of_cut (S := Reachable (Residual E ps) s) ⟨_, .singleton s⟩ hno ?_ ?_
  · intro u v ⟨p, hp⟩ hv hedge
    by_contra hunused
    exact hv ⟨_, hp.snoc (.inl ⟨hedge, fun q hq hmem => hunused ⟨q, hq, hmem⟩⟩)⟩
  · intro q hq u v hmem hu ⟨p, hp⟩
    exact hu ⟨_, hp.snoc (.inr ⟨q, hq, hmem⟩)⟩

/--
**Edge-disjoint paths are as many as possible if and only if no path of unused edges
and of used edges backwards leads from the source to the sink.**
-/
theorem EdgeDisjoint.greatest_iff {ps : List (List α)} (h : EdgeDisjoint E s d ps) (hsd : s ≠ d) :
    IsGreatest {n | ∃ qs, EdgeDisjoint E s d qs ∧ qs.length = n} ps.length ↔
      ¬ Reachable (Residual E ps) s d := by
  refine ⟨?_, ?_⟩
  · intro hmax hreach
    obtain ⟨qs, hqs, hlen⟩ := h.exists_more hsd hreach
    have hle := hmax.2 ⟨qs, hqs, hlen⟩
    omega
  · intro hno
    refine ⟨⟨ps, h, rfl⟩, ?_⟩
    rintro n ⟨qs, hqs, rfl⟩
    exact hqs.length_le hno

end Flow

end IronStack.Lib
