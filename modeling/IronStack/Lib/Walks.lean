import Mathlib.Data.List.Chain
import Mathlib.Data.Nat.Find

/-!
# Walks and distances

Walks along the edges of a relation, how many hops they take, and paths as the
lists of the nodes they visit.
-/

namespace IronStack.Lib

variable {α : Type} {E : α → α → Prop} {s u v d : α}

/-- A walk of so many hops. -/
inductive Walk (E : α → α → Prop) (s : α) : α → Nat → Prop where
  | here : Walk E s s 0
  | hop {u v : α} {n : Nat} (hwalk : Walk E s u n) (hedge : E u v) : Walk E s v (n + 1)

/-- The least number of hops from one node to another. -/
structure Dist (E : α → α → Prop) (s d : α) (n : Nat) : Prop where
  walk : Walk E s d n
  least : ∀ m, Walk E s d m → n ≤ m

/-- A path is the list of the nodes on it, its ends included. -/
structure IsPath (E : α → α → Prop) (s d : α) (p : List α) : Prop where
  head : p.head? = some s
  last : p.getLast? = some d
  hops : p.IsChain E

/-- There is a path from one node to another. -/
def Reachable (E : α → α → Prop) (s d : α) : Prop := ∃ p, IsPath E s d p

/--
Of two nodes `m` hops from the source, the first comes before the second if a node before it
comes before all those before the second, or is the first of them, too, and the node itself
is the lower one.
-/
def Earlier (E lt : α → α → Prop) (s : α) : Nat → α → α → Prop
  | 0, _, _ => False
  | m + 1, u, v => ∃ p, Dist E s p m ∧ E p u ∧
      ∀ q, Dist E s q m → E q v → Earlier E lt s m p q ∨ p = q ∧ lt u v

/-- An edge that leads neither back towards the source, nor to a node as far away that comes before its own. -/
structure Onward (E lt : α → α → Prop) (s u v : α) : Prop where
  edge : E u v
  le : ∀ m n, Dist E s u m → Dist E s v n → m ≤ n
  not_earlier : ∀ m, Dist E s u m → Dist E s v m → ¬ Earlier E lt s m v u

/-- A path with the fewest hops, or the empty list if there is no path. -/
structure ShortestPath (E : α → α → Prop) (s d : α) (p : List α) : Prop where
  path : Reachable E s d → IsPath E s d p
  least : ∀ q, IsPath E s d q → p.length ≤ q.length
  nil_iff : p = [] ↔ ¬ Reachable E s d

theorem Walk.cons {n : Nat} (hedge : E s u) (hwalk : Walk E u d n) : Walk E s d (n + 1) := by
  induction hwalk with
  | here => exact .hop .here hedge
  | hop _ hlast ih => exact .hop ih hlast

theorem Walk.trans {m n : Nat} (h : Walk E s u m) (h' : Walk E u d n) : Walk E s d (m + n) := by
  induction h' with
  | here => exact h
  | hop _ hlast ih => exact .hop ih hlast

/-- The first hop of a walk. -/
theorem Walk.uncons {n : Nat} (h : Walk E s d (n + 1)) : ∃ u, E s u ∧ Walk E u d n := by
  induction n generalizing d with
  | zero =>
      cases h with
      | hop hwalk hedge =>
          cases hwalk
          exact ⟨d, hedge, .here⟩
  | succ n ih =>
      cases h with
      | hop hwalk hedge =>
          obtain ⟨u, hfirst, hrest⟩ := ih hwalk
          exact ⟨u, hfirst, .hop hrest hedge⟩

theorem walk_zero_iff : Walk E s d 0 ↔ s = d := by
  refine ⟨?_, ?_⟩
  · intro h
    cases h
    rfl
  · intro h
    rw [h]
    exact .here

theorem IsPath.singleton (s : α) : IsPath E s s [s] := ⟨rfl, rfl, .singleton s⟩

theorem IsPath.ne_nil {p : List α} (h : IsPath E s d p) : p ≠ [] := by
  intro hp
  have hhead := h.head
  rw [hp] at hhead
  cases hhead

theorem IsPath.snoc {p : List α} (h : IsPath E s u p) (hedge : E u v) : IsPath E s v (p ++ [v]) := by
  refine ⟨?_, by simp, ?_⟩
  · rw [List.head?_append, h.head]
    rfl
  · refine h.hops.append (.singleton v) ?_
    intro x hx y hy
    rw [h.last] at hx
    cases hx
    cases hy
    exact hedge

theorem IsPath.cons {v : α} {q : List α} (h : IsPath E v d q) (hedge : E s v) : IsPath E s d (s :: q) := by
  obtain ⟨w, r, rfl⟩ := List.exists_cons_of_ne_nil h.ne_nil
  obtain rfl : v = w := (Option.some.inj h.head).symm
  exact ⟨rfl, h.last, List.isChain_cons_cons.mpr ⟨hedge, h.hops⟩⟩

theorem IsPath.mono {E' : α → α → Prop} {p : List α} (h : IsPath E s d p) (hE : ∀ u v, E u v → E' u v) :
    IsPath E' s d p := ⟨h.head, h.last, h.hops.imp hE⟩

/-- A path goes on with one from where it ends. -/
theorem IsPath.append {p q : List α} (h : IsPath E s u p) (hq : IsPath E u d (u :: q)) :
    IsPath E s d (p ++ q) := by
  cases q with
  | nil =>
      obtain rfl : u = d := Option.some.inj hq.last
      rwa [List.append_nil]
  | cons v q =>
      obtain ⟨hedge, hrest⟩ := List.isChain_cons_cons.mp hq.hops
      refine ⟨?_, ?_, h.hops.append hrest fun x hx y hy => ?_⟩
      · rw [List.head?_append, h.head]
        rfl
      · have hlast := hq.last
        rwa [List.getLast?_cons_cons, ← List.getLast?_append_of_ne_nil p (List.cons_ne_nil v q)] at hlast
      · rw [h.last] at hx
        cases hx
        cases hy
        exact hedge

/-- From a node to itself, visiting no node twice, there is only the path of one node. -/
theorem IsPath.eq_singleton {p : List α} (h : IsPath E s s p) (hnodup : p.Nodup) : p = [s] := by
  obtain ⟨u, q, rfl⟩ := List.exists_cons_of_ne_nil h.ne_nil
  obtain rfl : u = s := Option.some.inj h.head
  cases q with
  | nil => rfl
  | cons v q =>
      have hlast := h.last
      rw [List.getLast?_cons_cons] at hlast
      exact absurd (List.mem_of_getLast? hlast) (List.nodup_cons.mp hnodup).1

/-- A path that visits no node twice goes on from each but the last to another. -/
theorem IsPath.exists_next {p : List α} (h : IsPath E s d p) (hnodup : p.Nodup) (hu : u ∈ p) (hne : u ≠ d) :
    ∃ v ∈ p, v ≠ u ∧ E u v := by
  obtain ⟨a, b, rfl⟩ := List.append_of_mem hu
  cases b with
  | nil =>
      have hlast := h.last
      rw [List.getLast?_concat] at hlast
      exact absurd (Option.some.inj hlast) hne
  | cons v b =>
      have hrest := (List.nodup_append.mp hnodup).2.1
      refine ⟨v, by simp, ?_, (List.isChain_cons_cons.mp h.hops.right_of_append).1⟩
      rintro rfl
      exact (List.nodup_cons.mp hrest).1 List.mem_cons_self

/-- A path without its last node leads to a node with an edge to it. -/
theorem IsPath.dropLast {p : List α} (h : IsPath E s d (p ++ [u])) (hp : p ≠ []) :
    u = d ∧ ∃ w, p.getLast? = some w ∧ IsPath E s w p ∧ E w d := by
  have hu : u = d := by
    have hlast := h.last
    rw [List.getLast?_append] at hlast
    exact Option.some.inj hlast
  subst hu
  have hw : p.getLast? = some (p.getLast hp) := List.getLast?_eq_some_getLast hp
  refine ⟨rfl, p.getLast hp, hw, ⟨?_, hw, h.hops.left_of_append⟩, ?_⟩
  · have hhead := h.head
    rw [List.head?_append_of_ne_nil _ hp] at hhead
    exact hhead
  · exact h.hops.rel_getLast_head_of_append hp (by simp)

/-- Walks and paths are the same, counted in hops and in nodes. -/
theorem walk_iff {n : Nat} : Walk E s d n ↔ ∃ p, IsPath E s d p ∧ p.length = n + 1 := by
  refine ⟨?_, ?_⟩
  · intro h
    induction h with
    | here => exact ⟨[s], .singleton s, rfl⟩
    | hop _ hedge ih =>
        obtain ⟨p, hp, hlen⟩ := ih
        exact ⟨_, hp.snoc hedge, by rw [List.length_append, hlen]; rfl⟩
  · intro ⟨p, hp, hlen⟩
    induction n generalizing d p with
    | zero =>
        obtain ⟨x, rfl⟩ := List.length_eq_one_iff.mp hlen
        have hhead := hp.head
        have hlast := hp.last
        cases hhead
        cases hlast
        exact .here
    | succ n ih =>
        obtain ⟨q, x, rfl⟩ := List.eq_nil_or_concat p |>.resolve_left hp.ne_nil
        rw [List.concat_eq_append] at hp hlen
        rw [List.length_append] at hlen
        have hq : q ≠ [] := by
          intro h
          rw [h] at hlen
          cases hlen
        obtain ⟨rfl, w, _, hpath, hedge⟩ := hp.dropLast hq
        exact .hop (ih q hpath (Nat.succ.inj hlen)) hedge

theorem reachable_iff : Reachable E s d ↔ ∃ n, Walk E s d n := by
  refine ⟨?_, ?_⟩
  · intro ⟨p, hp⟩
    have hpos := List.length_pos_iff.mpr hp.ne_nil
    exact ⟨p.length - 1, walk_iff.mpr ⟨p, hp, by omega⟩⟩
  · intro ⟨n, h⟩
    obtain ⟨p, hp, _⟩ := walk_iff.mp h
    exact ⟨p, hp⟩

/-! ## Distances -/

theorem Dist.unique {m n : Nat} (h : Dist E s d m) (h' : Dist E s d n) : m = n :=
  Nat.le_antisymm (h.least n h'.walk) (h'.least m h.walk)

theorem exists_dist {n : Nat} (h : Walk E s d n) : ∃ m, Dist E s d m := by
  classical
  have hex : ∃ m, Walk E s d m := ⟨n, h⟩
  exact ⟨Nat.find hex, Nat.find_spec hex, fun m hm => Nat.find_min' hex hm⟩

theorem Dist.self (s : α) : Dist E s s 0 := ⟨.here, fun _ _ => Nat.zero_le _⟩

theorem Dist.le_succ {m n : Nat} (hu : Dist E s u m) (hv : Dist E s v n) (hedge : E u v) :
    n ≤ m + 1 := hv.least _ (.hop hu.walk hedge)

/-- The first hop of a shortest walk. -/
theorem Dist.uncons {n : Nat} (h : Dist E s d (n + 1)) : ∃ u, E s u ∧ Dist E u d n := by
  obtain ⟨u, hedge, hwalk⟩ := h.walk.uncons
  refine ⟨u, hedge, hwalk, fun m hm => ?_⟩
  have hle := h.least _ (hm.cons hedge)
  omega

/-- The last hop of a shortest walk. -/
theorem Dist.unsnoc {n : Nat} (h : Dist E s d (n + 1)) : ∃ u, Dist E s u n ∧ E u d := by
  cases h.walk with
  | @hop u _ _ hwalk hedge =>
      refine ⟨u, ⟨hwalk, fun m hm => ?_⟩, hedge⟩
      have hle := h.least _ (.hop hm hedge)
      omega

/-- Nodes in the middle of a shortest walk are at the distances that they have on it. -/
theorem Dist.middle {m n : Nat} (h : Dist E s d (m + n)) (hu : Walk E s u m) (hd : Walk E u d n) :
    Dist E s u m ∧ Dist E u d n := by
  refine ⟨⟨hu, fun m' h' => ?_⟩, ⟨hd, fun n' h' => ?_⟩⟩
  · have hle := h.least _ (h'.trans hd)
    omega
  · have hle := h.least _ (hu.trans h')
    omega

/--
Where the first hop towards one node comes before every first hop towards another that is as
far away, the node comes before the other. By induction on the distance.
-/
theorem earlier_of_hops {lt : α → α → Prop} {a x v : α} {m : Nat} (ha : E s a) (hax : Dist E a x m)
    (hsx : Dist E s x (m + 1)) (hsv : Dist E s v (m + 1)) (hall : ∀ b, E s b → Dist E b v m → lt a b) :
    Earlier E lt s (m + 1) x v := by
  induction m generalizing x v with
  | zero =>
      obtain rfl : a = x := walk_zero_iff.mp hax.walk
      refine ⟨s, .self s, ha, fun q hq hqv => ?_⟩
      obtain rfl : s = q := walk_zero_iff.mp hq.walk
      exact .inr ⟨rfl, hall v hqv (.self v)⟩
  | succ m ih =>
      obtain ⟨y, hay, hyx⟩ := hax.unsnoc
      have hsy := (hsx.middle (n := 1) (hay.walk.cons ha) (.hop .here hyx)).1
      refine ⟨y, hsy, hyx, fun q hsq hqv => .inl (ih hay hsy hsq fun b hb hbq => ?_)⟩
      refine hall b hb ⟨.hop hbq.walk hqv, fun n hn => ?_⟩
      have hge := hsv.least _ (hn.cons hb)
      omega

/-- A path is shortest if it has one node more than the distance in hops. -/
theorem shortestPath_of_dist {p : List α} {n : Nat} (h : Dist E s d n) (hp : IsPath E s d p)
    (hlen : p.length = n + 1) : ShortestPath E s d p := by
  refine ⟨fun _ => hp, fun q hq => ?_, fun hnil => absurd hnil hp.ne_nil, fun hno => ?_⟩
  · have hpos := List.length_pos_iff.mpr hq.ne_nil
    have hle := h.least (q.length - 1) (walk_iff.mpr ⟨q, hq, by omega⟩)
    omega
  · exact absurd ⟨p, hp⟩ hno

theorem ShortestPath.length_eq {p : List α} {n : Nat} (h : ShortestPath E s d p) (hd : Dist E s d n) :
    p.length = n + 1 := by
  obtain ⟨q, hq, hlen⟩ := walk_iff.mp hd.walk
  have hp := h.path ⟨q, hq⟩
  have hpos := List.length_pos_iff.mpr hp.ne_nil
  have hle := hd.least (p.length - 1) (walk_iff.mpr ⟨p, hp, by omega⟩)
  have hle' := h.least q hq
  omega

end IronStack.Lib
