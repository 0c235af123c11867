import IronStack.Lib.BreadthFirst

/-!
# When the last pusher is on a shortest path

A parent that pushed last lies on a shortest path unless it is as far from the
source as the node it pushed. Such a detour exists exactly if some edge joins two
nodes that are equally far from some source, and the first hop towards its start
comes before every first hop towards its end. A node with an edge to itself becomes
its own parent, from which there is no way back.
-/

namespace IronStack.Lib

variable {α : Type} {adj : α → List α} {lt : α → α → Prop} {s : α} {entries : List (Entry α)}

/-- The entry at place `i` pushes a node that is no farther from the source than its own. -/
structure Detour (adj : α → List α) (s : α) (entries : List (Entry α)) (i : Nat) (v : α)
    (p : Entry α) (m : Nat) : Prop where
  place : entries[i]? = some p
  hop : Hop adj p.node v
  new : v ∉ before entries i
  ne : v ≠ p.node
  near : Dist (Hop adj) s p.node m
  far : Dist (Hop adj) s v m

/--
No node with an edge to itself has another edge, and of two nodes joined by an edge
that are equally far from a source, the end is no later in a search than the start.
-/
structure Untangled (E : α → α → Prop) (lt : α → α → Prop) : Prop where
  loops : ∀ x, E x x → ∀ y, E x y → y = x
  levels : ∀ s a x v m, E s a → E x v → Dist E a x m → Dist E s x (m + 1) → Dist E s v (m + 1) →
    ∃ b, E s b ∧ Dist E b v m ∧ ¬ lt a b

theorem Detour.lt_first {i j m : Nat} {v : α} {p f : Entry α} (h : Detour adj s entries i v p m)
    (hf : First entries j f) (hv : f.node = v) : i < j :=
  hf.lt_of_new h.place (hv ▸ h.new) (hv ▸ h.ne)

/-- The path from parent to parent, up to a node that has none. -/
inductive Traced (parent : α → Option α) : α → List α → Prop where
  | root {v : α} (hnone : parent v = none) : Traced parent v [v]
  | step {u v : α} {p : List α} (hsome : parent v = some u) (hrest : Traced parent u p) :
      Traced parent v (p ++ [v])

theorem Traced.last {parent : α → Option α} {v : α} {p : List α} (h : Traced parent v p) :
    p.getLast? = some v := by
  cases h with
  | root => rfl
  | step => simp

theorem Traced.unique {parent : α → Option α} {v : α} {p q : List α}
    (hp : Traced parent v p) (hq : Traced parent v q) : p = q := by
  induction hp generalizing q with
  | root hnone =>
      cases hq with
      | root => rfl
      | step hsome =>
          rw [hnone] at hsome
          cases hsome
  | step hsome _ ih =>
      cases hq with
      | root hnone =>
          rw [hnone] at hsome
          cases hsome
      | step hsome' hrest =>
          rw [hsome] at hsome'
          cases hsome'
          rw [ih hrest]

/-- The way back from a node goes on with the ways back from the nodes on it. -/
theorem Traced.of_mem {parent : α → Option α} {u v : α} {p : List α} (h : Traced parent v p)
    (hu : u ∈ p) : ∃ q, Traced parent u q ∧ q <+: p := by
  induction h with
  | root hnone =>
      obtain rfl := List.mem_singleton.mp hu
      exact ⟨_, .root hnone, List.prefix_refl _⟩
  | step hsome hrest ih =>
      rcases List.mem_append.mp hu with hu | hu
      · obtain ⟨q, hq, hprefix⟩ := ih hu
        exact ⟨q, hq, hprefix.trans (List.prefix_append _ _)⟩
      · obtain rfl := List.mem_singleton.mp hu
        exact ⟨_, .step hsome hrest, List.prefix_refl _⟩

/-- A way back that has an end visits no node twice. -/
theorem Traced.nodup {parent : α → Option α} {v : α} {p : List α} (h : Traced parent v p) : p.Nodup := by
  induction h with
  | root => exact List.nodup_singleton _
  | @step u v p hsome hrest ih =>
      refine List.nodup_append.mpr ⟨ih, List.nodup_singleton _, fun w hw x hx hwx => ?_⟩
      rw [List.mem_singleton] at hx
      rw [hwx, hx] at hw
      obtain ⟨q, hq, hprefix⟩ := hrest.of_mem hw
      have hle := hprefix.length_le
      rw [hq.unique (.step hsome hrest), List.length_append, List.length_singleton] at hle
      omega

/-- The nodes that the way back from a node comes to. -/
inductive Ancestor (parent : α → Option α) (v : α) : α → Prop where
  | self : Ancestor parent v v
  | parent {u w : α} (h : Ancestor parent v u) (hsome : parent u = some w) : Ancestor parent v w

theorem Ancestor.cons {parent : α → Option α} {u v w : α} (hsome : parent v = some u)
    (h : Ancestor parent u w) : Ancestor parent v w := by
  induction h with
  | self => exact .parent .self hsome
  | parent _ hsome' ih => exact .parent ih hsome'

theorem Traced.ancestor {parent : α → Option α} {u v : α} {p : List α} (h : Traced parent v p)
    (hu : u ∈ p) : Ancestor parent v u := by
  induction h with
  | root hnone =>
      obtain rfl := List.mem_singleton.mp hu
      exact .self
  | step hsome _ ih =>
      rcases List.mem_append.mp hu with hu | hu
      · exact (ih hu).cons hsome
      · obtain rfl := List.mem_singleton.mp hu
        exact .self

/-- A way back that has an end comes to no node that is its own parent. -/
theorem Traced.not_own_parent {parent : α → Option α} {v x : α} {p : List α} (h : Traced parent v p)
    (hx : Ancestor parent v x) : parent x ≠ some x := by
  have hmem : ∃ q, Traced parent x q := by
    induction hx with
    | self => exact ⟨p, h⟩
    | parent _ hsome ih =>
        obtain ⟨q, hq⟩ := ih
        cases hq with
        | root hnone =>
            rw [hsome] at hnone
            cases hnone
        | step hsome' hrest =>
            rw [hsome] at hsome'
            cases hsome'
            exact ⟨_, hrest⟩
  obtain ⟨q, hq⟩ := hmem
  intro hsome
  have hlen := congrArg List.length (hq.unique (.step hsome hq))
  rw [List.length_append, List.length_singleton] at hlen
  omega

/-! ## The order in which nodes are expanded -/

/-- The first entry of one node comes before that of the other. -/
def Sooner (entries : List (Entry α)) (u v : α) : Prop :=
  ∃ i j e f, First entries i e ∧ First entries j f ∧ e.node = u ∧ f.node = v ∧ i < j

/-- An edge to a node that is expanded later. -/
def Ahead (adj : α → List α) (entries : List (Entry α)) (u v : α) : Prop :=
  Hop adj u v ∧ Sooner entries u v

theorem Sooner.trans {u v w : α} (h : Sooner entries u v) (h' : Sooner entries v w) :
    Sooner entries u w := by
  obtain ⟨i, j, e, f, he, hf, hu, hv, hij⟩ := h
  obtain ⟨j', k, f', g, hf', hg, hv', hw, hjk⟩ := h'
  obtain ⟨rfl, _⟩ := hf.unique hf' (hv.trans hv'.symm)
  exact ⟨i, k, e, g, he, hg, hu, hw, Nat.lt_trans hij hjk⟩

theorem not_sooner_self (v : α) : ¬ Sooner entries v v := by
  intro ⟨i, j, e, f, he, hf, hv, hv', hij⟩
  obtain ⟨rfl, _⟩ := he.unique hf (hv.trans hv'.symm)
  exact Nat.lt_irrefl i hij

/-- A path on which every node is expanded after the one before visits no node twice. -/
theorem nodup_of_ahead {p : List α} (h : p.IsChain (Ahead adj entries)) : p.Nodup := by
  have htrans : Trans (Sooner entries) (Sooner entries) (Sooner entries) := ⟨Sooner.trans⟩
  refine (h.imp fun _ _ h => h.2).pairwise.imp ?_
  rintro u v hlt rfl
  exact not_sooner_self u hlt

section Complete

variable (hq : Queue adj lt s entries entries.length)

include hq

theorem Queue.eq_source {j : Nat} {e : Entry α} (h : First entries j e) (hdepth : e.depth = 0) :
    j = 0 ∧ e.node = s := by
  have hwalk := hq.walk h.place
  rw [hdepth, walk_zero_iff] at hwalk
  exact ⟨(h.unique hq.source_first hwalk.symm).1, hwalk.symm⟩

theorem Queue.first_pos {j m : Nat} {e : Entry α} (h : First entries j e)
    (hdepth : e.depth = m + 1) : 0 < j := by
  by_contra hj
  obtain rfl : j = 0 := by omega
  have heq : e = ⟨s, 0, 0⟩ := Option.some.inj (h.place.symm.trans hq.first)
  rw [heq] at hdepth
  cases hdepth

/-- The pushers of a first entry, from the source on, are expanded one after the other. -/
theorem Queue.exists_ahead {j : Nat} {f : Entry α} (hf : First entries j f) :
    ∃ p, IsPath (Ahead adj entries) s f.node p := by
  induction j using Nat.strongRecOn generalizing f with
  | ind j ih =>
      by_cases hj : j = 0
      · subst hj
        have hsource : f = ⟨s, 0, 0⟩ := Option.some.inj (hf.place.symm.trans hq.first)
        subst hsource
        exact ⟨[s], .singleton s⟩
      · obtain ⟨q, hqf, hlt, _, _, hop⟩ := hq.first_pusher hf (by omega)
        obtain ⟨p, hp⟩ := ih _ hlt hqf
        exact ⟨_, hp.snoc ⟨hop, _, _, q, f, hqf, hf, rfl, rfl, hlt⟩⟩

/--
The ancestors of the start of an edge, from level to level, are expanded before
every node of the level on a shortest path to its end, up to the source, which is
on both. By induction on the level.
-/
theorem no_detour_from (hlevels : ∀ s a x v m, Hop adj s a → Hop adj x v → Dist (Hop adj) a x m →
      Dist (Hop adj) s x (m + 1) → Dist (Hop adj) s v (m + 1) →
        ∃ b, Hop adj s b ∧ Dist (Hop adj) b v m ∧ ¬ lt a b)
    {x v : α} (hop : Hop adj x v) {l m j : Nat} {y : Entry α} (hx : Dist (Hop adj) s x (l + m))
    (hv : Dist (Hop adj) s v (l + m)) (hy : First entries j y) (hdepth : y.depth = l)
    (hyx : Dist (Hop adj) y.node x m)
    (hall : ∀ i b, First entries i b → b.depth = l → Dist (Hop adj) b.node v m → j < i) : False := by
  induction l generalizing m j y with
  | zero =>
      rw [Nat.zero_add] at hv
      exact Nat.not_lt_zero _ (hall 0 _ hq.source_first rfl hv)
  | succ l ih =>
      have hj := hq.first_pos hy hdepth
      obtain ⟨q, hfirst, _, hqn, hqdepth, hqy⟩ := hq.first_pusher hy hj
      have hqd := hq.dist hfirst
      have hl : q.depth = l := by omega
      rw [hl] at hqd
      have hsum : l + 1 + m = l + (m + 1) := by omega
      rw [hsum] at hx hv
      obtain ⟨_, hqx⟩ := hx.middle hqd.walk (hyx.walk.cons hqy)
      -- a first hop from a node of the level towards the end of the edge
      have hchild : ∀ {c : Entry α} {b : α}, c.depth = l → Dist (Hop adj) s c.node l →
          Hop adj c.node b → Dist (Hop adj) b v m →
            ∃ i f, First entries i f ∧ f.node = b ∧ f.depth = l + 1 ∧ j < i := by
        intro c b _ hc hcb hb
        have hsum' : l + (m + 1) = l + 1 + m := by omega
        rw [hsum'] at hv
        obtain ⟨hsb, _⟩ := hv.middle (.hop hc.walk hcb) hb.walk
        obtain ⟨i, f, hf, hnode, hfd⟩ := hq.first_of_dist hsb
        refine ⟨i, f, hf, hnode, hfd, hall i f hf hfd ?_⟩
        rw [hnode]
        exact hb
      refine ih hx hv hfirst hl hqx fun i c hc hcd hcv => ?_
      have hcs := hq.dist hc
      rw [hcd] at hcs
      obtain ⟨b, hcb, hbv⟩ := hcv.uncons
      obtain ⟨k, f, hf, hnode, hfd, hjk⟩ := hchild hcd hcs hcb hbv
      rw [← hnode] at hcb
      have hle := hq.pusher_le_of_hop hc.place (List.getElem?_eq_some_iff.mp hc.place).1 hf
        (hq.first_pos hf hfd) hcb
      have hyf := hq.pusher_le hj (Nat.le_of_lt hjk) hy.place hf.place
      rcases Nat.lt_or_eq_of_le (Nat.le_trans hyf hle) with hlt | heq
      · exact hlt
      · -- the ways part at this node, and the smaller first hop was pushed first
        have hqc : q = c := by
          have hplace := hfirst.place
          rw [heq, hc.place] at hplace
          exact (Option.some.inj hplace).symm
        subst hqc
        obtain ⟨b', hqb, hb'v, hnot⟩ := hlevels q.node y.node x v m hqy hop hyx hqx hcv
        obtain ⟨k', f', hf', hnode', hfd', hjk'⟩ := hchild hl hcs hqb hb'v
        rw [← hnode'] at hqb hnot
        have hle' := hq.pusher_le_of_hop hfirst.place hqn hf' (hq.first_pos hf' hfd') hqb
        rcases hq.ordered j k' y f' hj hjk' hy.place hf'.place with h | ⟨_, h⟩
        · omega
        · exact absurd h hnot

/-- Where edges are not tangled, no entry pushes a node that is as near as its own. -/
theorem Untangled.no_detour (h : Untangled (Hop adj) lt) {i m : Nat} {v : α} {p : Entry α} :
    ¬ Detour adj s entries i v p m := by
  intro hd
  obtain ⟨j, f, hf, hnode, hdepth⟩ := hq.first_of_dist hd.far
  obtain ⟨k, e, he, hsame, hedepth⟩ := hq.first_of_dist hd.near
  have hlt := hd.lt_first hf hnode
  have hle := he.le hd.place hsame.symm
  have hop := hd.hop
  rw [← hsame] at hop
  have hself := Dist.self (E := Hop adj) e.node
  refine no_detour_from hq h.levels hop (m := 0) ?_ hd.far he hedepth hself fun i' b hb hbd hbv => ?_
  · rw [hsame]
    exact hd.near
  · have hbn : b.node = f.node := by
      rw [hnode]
      exact walk_zero_iff.mp hbv.walk
    obtain ⟨rfl, _⟩ := hb.unique hf hbn
    omega

theorem Queue.depth_eq {j m : Nat} {e : Entry α} (h : First entries j e)
    (hd : Dist (Hop adj) s e.node m) : e.depth = m := (hq.dist h).unique hd

/-- Of two nodes that are equally far away, the earlier one is expanded first. By induction on the distance. -/
theorem lt_of_earlier (hasymm : ∀ a b, lt a b → ¬ lt b a) {i j m : Nat} {e f : Entry α}
    (he : First entries i e) (hf : First entries j f) (hem : e.depth = m) (hfm : f.depth = m)
    (h : Earlier (Hop adj) lt s m e.node f.node) : i < j := by
  induction m generalizing i j e f with
  | zero => exact h.elim
  | succ m ih =>
      obtain ⟨p, hp, hpe, hall⟩ := h
      have hi := hq.first_pos he hem
      have hj := hq.first_pos hf hfm
      obtain ⟨k, g, hg, rfl, hgm⟩ := hq.first_of_dist hp
      have hgn := (List.getElem?_eq_some_iff.mp hg.place).1
      have hek := hq.pusher_le_of_hop hg.place hgn he hi hpe
      obtain ⟨q, hqf, _, _, hqd, hqw⟩ := hq.first_pusher hf hj
      have hqm : q.depth = m := by omega
      have hqs := hq.dist hqf
      rw [hqm] at hqs
      by_contra hge
      have hfe := hq.pusher_le hj (Nat.le_of_not_lt hge) hf.place he.place
      rcases hall q.node hqs hqw with hearlier | ⟨hsame, hlt⟩
      · have hkf := ih hg hqf hgm hqm hearlier
        omega
      · -- both were pushed by this node, and the lower one first
        obtain ⟨rfl, _⟩ := hg.unique hqf hsame
        rcases Nat.lt_or_eq_of_le (Nat.le_of_not_lt hge) with hji | rfl
        · rcases hq.ordered j i f e hj hji hf.place he.place with h | ⟨_, h⟩
          · omega
          · exact hasymm _ _ h hlt
        · obtain rfl : e = f := Option.some.inj (he.place.symm.trans hf.place)
          exact hasymm _ _ hlt hlt

/-- Of two nodes that are equally far away, the one that is expanded first is earlier. -/
theorem earlier_of_lt {i j m : Nat} {e f : Entry α} (he : First entries i e) (hf : First entries j f)
    (hem : e.depth = m) (hfm : f.depth = m) (hij : i < j) : Earlier (Hop adj) lt s m e.node f.node := by
  induction m generalizing i j e f with
  | zero =>
      obtain ⟨rfl, _⟩ := hq.eq_source he hem
      obtain ⟨rfl, _⟩ := hq.eq_source hf hfm
      exact absurd hij (Nat.lt_irrefl 0)
  | succ m ih =>
      have hi := hq.first_pos he hem
      have hj := hq.first_pos hf hfm
      obtain ⟨p, hpe, _, _, hpd, hpw⟩ := hq.first_pusher he hi
      have hpm : p.depth = m := by omega
      have hps := hq.dist hpe
      rw [hpm] at hps
      refine ⟨p.node, hps, hpw, fun v hv hvf => ?_⟩
      obtain ⟨k, g, hg, rfl, hgm⟩ := hq.first_of_dist hv
      have hgn := (List.getElem?_eq_some_iff.mp hg.place).1
      have hfk := hq.pusher_le_of_hop hg.place hgn hf hj hvf
      have hef := hq.pusher_le hi (Nat.le_of_lt hij) he.place hf.place
      rcases Nat.lt_or_eq_of_le (Nat.le_trans hef hfk) with hlt | heq
      · exact .inl (ih hpe hg hpm hgm hlt)
      · have hplace := hpe.place
        rw [heq, hg.place] at hplace
        refine .inr ⟨congrArg Entry.node (Option.some.inj hplace).symm, ?_⟩
        rcases hq.ordered i j e f hi hij he.place hf.place with h | ⟨_, h⟩
        · omega
        · exact h

/-- Where no edge leads to a later node that is as far away, no entry pushes one. -/
theorem no_detour_of_levels (hlevels : ∀ x v m, Hop adj x v → Dist (Hop adj) s x m → Dist (Hop adj) s v m →
      ¬ Earlier (Hop adj) lt s m x v) {i m : Nat} {v : α} {p : Entry α} :
    ¬ Detour adj s entries i v p m := by
  intro hd
  obtain ⟨j, f, hf, rfl, hfm⟩ := hq.first_of_dist hd.far
  obtain ⟨k, e, he, hsame, hem⟩ := hq.first_of_dist hd.near
  have hlt := hd.lt_first hf rfl
  have hle := he.le hd.place hsame.symm
  have hearlier := earlier_of_lt hq he hf hem hfm (by omega)
  rw [hsame] at hearlier
  exact hlevels _ _ m hd.hop hd.near hd.far hearlier

/-- A node is as deep in the queue as it is far away, until there is a detour. -/
theorem depth_of_no_detour (hloops : ∀ x, Hop adj x x → ∀ y, Hop adj x y → y = x) {j : Nat}
    {e : Entry α} (he : entries[j]? = some e) {v : α} (hv : Hop adj e.node v) (hne : v ≠ e.node)
    (hno : ∀ i < j, ∀ v p m, ¬ Detour adj s entries i v p m) : Dist (Hop adj) s e.node e.depth := by
  induction j using Nat.strongRecOn generalizing e v with
  | ind j ih =>
      by_cases hj : j = 0
      · subst hj
        rw [hq.first] at he
        cases he
        exact .self s
      · obtain ⟨q, hqp, hlt, _, hdepth, hqe, hnew⟩ := hq.pushed j e he (by omega)
        have hqne : e.node ≠ q.node := by
          intro heq
          rw [heq] at hqe hv hne
          exact hne (hloops _ hqe v hv)
        have hqd := ih _ hlt hqp hqe hqne fun i hi => hno i (by omega)
        obtain ⟨m, hm⟩ := exists_dist (hq.walk he)
        obtain ⟨k, f, hf, hnode, hfd⟩ := hq.first_of_dist hm
        have hle := hqd.le_succ hm hqe
        -- it was not expanded before its pusher, so it is no nearer
        have hkq : e.pusher < k := hf.lt_of_new hqp (hnode ▸ hnew) (hnode ▸ hqne)
        have hge := hq.depth_mono (Nat.le_of_lt hkq) hqp hf.place
        have hnear : m ≠ q.depth := by
          intro heq
          subst heq
          exact hno _ hlt _ q _ ⟨hqp, hqe, hnew, hqne, hqd, hm⟩
        have heq : m = e.depth := by omega
        rw [← heq]
        exact hm

/--
If the last pusher of every node is one hop nearer to the source, there is no detour
at all. The first of them would have to be made good by an entry pushed again, and
that entry by a detour before it.
-/
theorem no_detour_of_last (hloops : ∀ x, Hop adj x x → ∀ y, Hop adj x y → y = x)
    (hlast : ∀ j f, First entries j f → 0 < j → ∃ i p m, LastPusher adj entries j f.node i p ∧
      Dist (Hop adj) s p.node m ∧ f.depth = m + 1) {i m : Nat} {v : α} {p : Entry α} :
    ¬ Detour adj s entries i v p m := by
  induction i using Nat.strongRecOn generalizing v p m with
  | ind i ih =>
  intro hd
  obtain ⟨j, f, hf, rfl, hdepth⟩ := hq.first_of_dist hd.far
  have hij := hd.lt_first hf rfl
  obtain ⟨k, w, m', hw, hwd, hfd⟩ := hlast j f hf (by omega)
  have hik := hw.last i p hij hd.place hd.hop hd.new
  have hpd := hd.near.least _ (hq.walk hd.place)
  have hpw := hq.depth_mono hik hd.place hw.place
  obtain ⟨q, hqp, hqk, _, hqd, hqw, hnew⟩ := hq.pushed k w hw.place (by
    by_contra hk
    obtain rfl : k = 0 := by omega
    have heq : w = ⟨s, 0, 0⟩ := Option.some.inj (hw.place.symm.trans hq.first)
    rw [heq] at hpw
    have hzero : p.depth = 0 := Nat.le_zero.mp hpw
    omega)
  obtain ⟨l, g, hg, hgw, hgd⟩ := hq.first_of_dist hwd
  have hne : w.node ≠ q.node := by
    intro heq
    rw [heq] at hqw
    have hfq := hloops _ hqw f.node (heq ▸ hw.hop)
    rw [hfq, ← heq] at hd
    have hsame := hd.far.unique hwd
    omega
  have hkl : w.pusher < l := hg.lt_of_new hqp (hgw ▸ hnew) (hgw ▸ hne)
  have hqg := hq.depth_mono (Nat.le_of_lt hkl) hqp hg.place
  have hqi : w.pusher < i := by
    by_contra hge
    have hle := hq.depth_mono (Nat.le_of_not_lt hge) hd.place hqp
    omega
  have hqdist := depth_of_no_detour hq hloops hqp hqw hne fun i' hi' v' p' m'' =>
    ih i' (by omega)
  have hqm : q.depth = m' := by omega
  rw [hqm] at hqdist
  exact ih _ hqi ⟨hqp, hqw, hnew, hne, hqdist, hwd⟩

/-! ## The way back -/

variable {n : Nat} {parent : α → Option α} (hparents : Parents adj entries n parent)

include hparents

/-- What was pushed has a parent. -/
theorem exists_parent {j : Nat} {f : Entry α} (hf : First entries j f) (hj : 0 < j) (hjn : j ≤ n) :
    ∃ i p, parent f.node = some p.node ∧ LastPusher adj entries n f.node i p := by
  rcases hparents f.node with ⟨_, hun⟩ | h
  · obtain ⟨q, hqp, hlt, _, _, hhop⟩ := hq.first_pusher hf hj
    have hmem := hun _ q (by omega) hqp.place hhop
    exact absurd (before_mono (Nat.le_of_lt hlt) hmem) hf.new
  · exact h

/--
From the node that is expanded next, and from every node that another was reached
from, the way back has an end. Where there is no detour it is as long as the node is
far. By induction on the place of the node.
-/
theorem exists_traced (hloops : ∀ x, Hop adj x x → ∀ y, Hop adj x y → y = x) {j : Nat} {f : Entry α}
    (hf : First entries j f) (hjn : j ≤ n) (hend : j = n ∨ ∃ v, Hop adj f.node v ∧ v ≠ f.node) :
    ∃ path, Traced parent f.node path ∧
      ((∀ i v p m, ¬ Detour adj s entries i v p m) → path.length = f.depth + 1) := by
  induction j using Nat.strongRecOn generalizing f with
  | ind j ih =>
      -- a node with an edge to itself leads nowhere else
      have hself : ∀ i p, LastPusher adj entries n f.node i p → i < j := by
        intro i p hlast
        rcases hend with rfl | ⟨v, hv, hne⟩
        · exact hlast.lt
        · refine hf.lt_of_new hlast.place hlast.new fun heq => ?_
          have hloop := hlast.hop
          rw [← heq] at hloop
          exact hne (hloops _ hloop v hv)
      by_cases hj : j = 0
      · subst hj
        have hsource : f = ⟨s, 0, 0⟩ := Option.some.inj (hf.place.symm.trans hq.first)
        subst hsource
        rcases hparents s with ⟨hnone, _⟩ | ⟨i, p, _, hlast⟩
        · exact ⟨[s], .root hnone, fun _ => rfl⟩
        · exact absurd (hself i p hlast) (Nat.not_lt_zero _)
      · obtain ⟨i, p, hsome, hlast⟩ := exists_parent hq hparents hf (by omega) hjn
        have hij := hself i p hlast
        obtain ⟨k, g, hg, hgp, hki⟩ := exists_first hlast.place
        have hne : f.node ≠ g.node := by
          intro heq
          have hle := hf.le hg.place heq.symm
          omega
        have hhop : Hop adj g.node f.node := by
          rw [hgp]
          exact hlast.hop
        obtain ⟨path, htraced, hlen⟩ :=
          ih k (by omega) hg (by omega) (.inr ⟨f.node, hhop, hne⟩)
        rw [← hgp] at hsome
        refine ⟨path ++ [f.node], .step hsome htraced, fun hno => ?_⟩
        have hgd := hq.dist hg
        have hfd := hq.dist hf
        have hle := hgd.le_succ hfd hhop
        have hgi := hq.depth_mono hki hg.place hlast.place
        have hif := hq.depth_mono (Nat.le_of_lt hij) hlast.place hf.place
        have hfar : g.depth ≠ f.depth := by
          intro heq
          rw [heq, hgp] at hgd
          exact hno i f.node p _ ⟨hlast.place, hlast.hop, hlast.new, hgp ▸ hne, hgd, hfd⟩
        rw [List.length_append, hlen hno, List.length_singleton]
        omega

/-- A way back that has an end is a path from the source, on which every edge leads onward. -/
theorem Traced.isPath (hasymm : ∀ a b, lt a b → ¬ lt b a) {v : α} {path : List α}
    (h : Traced parent v path) {j : Nat} {f : Entry α} (hf : First entries j f) (hjn : j ≤ n) (hv : f.node = v) :
    IsPath (Onward (Hop adj) lt s) s v path := by
  induction h generalizing j f with
  | @root v hnone =>
      by_cases hj : j = 0
      · subst hj
        have hsource : f = ⟨s, 0, 0⟩ := Option.some.inj (hf.place.symm.trans hq.first)
        rw [hsource] at hv
        obtain rfl : s = v := hv
        exact .singleton s
      · obtain ⟨i, p, hsome, _⟩ := exists_parent hq hparents hf (by omega) hjn
        rw [hv, hnone] at hsome
        cases hsome
  | @step u v path hsome _ ih =>
      rcases hparents v with ⟨hnone, _⟩ | ⟨i, p, hsome', hlast⟩
      · rw [hsome] at hnone
        cases hnone
      · rw [hsome] at hsome'
        obtain rfl : u = p.node := Option.some.inj hsome'
        obtain ⟨k, g, hg, hgp, hki⟩ := exists_first hlast.place
        have hlt := hlast.lt
        -- the pusher is expanded before what it pushes, or both are the same node
        have hkj : k ≤ j := by
          by_cases hself : f.node = g.node
          · exact hg.le hf.place hself
          · have hij := hf.lt_of_new hlast.place (hv ▸ hlast.new) (hgp ▸ hself)
            omega
        have hg' := hq.dist hg
        have hf' := hq.dist hf
        rw [hgp] at hg'
        rw [hv] at hf'
        refine (ih hg (by omega) hgp).snoc ⟨hlast.hop, fun l m hl hm => ?_, ?_⟩
        · rw [hl.unique hg', hm.unique hf']
          exact hq.depth_mono hkj hg.place hf.place
        · intro m hsu hsv hearlier
          rw [← hv, ← hgp] at hearlier
          rw [← hgp] at hsu
          rw [← hv] at hsv
          have hjk := lt_of_earlier hq hasymm hf hg (hq.depth_eq hf hsv) (hq.depth_eq hg hsu) hearlier
          omega

omit hq in
/--
The way back has an end unless it comes to a node that is its own parent: the parent
of a node, if it is another, was expanded before it.
-/
theorem exists_traced_of_no_own {j : Nat} {f : Entry α} (hf : First entries j f) (hjn : j ≤ n)
    (hno : ∀ x, Ancestor parent f.node x → parent x ≠ some x) : ∃ path, Traced parent f.node path := by
  induction j using Nat.strongRecOn generalizing f with
  | ind j ih =>
      rcases hparents f.node with ⟨hnone, _⟩ | ⟨i, p, hsome, hlast⟩
      · exact ⟨_, .root hnone⟩
      · have hne : f.node ≠ p.node := by
          intro heq
          rw [← heq] at hsome
          exact hno f.node .self hsome
        have hij := hf.lt_of_new hlast.place hlast.new hne
        obtain ⟨k, g, hg, hgp, hki⟩ := exists_first hlast.place
        rw [← hgp] at hsome
        obtain ⟨path, hpath⟩ := ih k (by omega) hg (by omega) fun x hx => hno x (hx.cons hsome)
        exact ⟨_, .step hsome hpath⟩

omit hq in
/-- Every ancestor of the node that is expanded next, but this one, was expanded before, and led to it. -/
theorem Ancestor.exists_path {f : Entry α} (hf : First entries n f) {x : α} (hx : Ancestor parent f.node x) :
    (∃ k g, First entries k g ∧ g.node = x ∧ k ≤ n) ∧ ∃ p, IsPath (Ahead adj entries) x f.node p := by
  induction hx with
  | self => exact ⟨⟨n, f, hf, rfl, Nat.le_refl n⟩, _, .singleton _⟩
  | @parent u w _ hsome ih =>
      obtain ⟨⟨k, g, hg, rfl, _⟩, p, hp⟩ := ih
      rcases hparents g.node with ⟨hnone, _⟩ | ⟨i, q, hsome', hlast⟩
      · rw [hsome] at hnone
        cases hnone
      · rw [hsome] at hsome'
        obtain rfl : w = q.node := Option.some.inj hsome'
        obtain ⟨l, e, he, heq, hli⟩ := exists_first hlast.place
        have hlt := hlast.lt
        refine ⟨⟨l, e, he, heq, by omega⟩, ?_⟩
        by_cases hself : g.node = q.node
        · rw [← hself]
          exact ⟨p, hp⟩
        · have hik := hg.lt_of_new hlast.place hlast.new hself
          exact ⟨_, hp.cons ⟨hlast.hop, l, k, e, g, he, hg, heq, rfl, by omega⟩⟩

/-- Through every ancestor of what is expanded next there is a path that visits no node twice. -/
theorem Ancestor.exists_simple {f : Entry α} (hf : First entries n f) {x : α}
    (hx : Ancestor parent f.node x) : ∃ p, IsPath (Hop adj) s f.node p ∧ p.Nodup ∧ x ∈ p := by
  obtain ⟨⟨k, g, hg, rfl, _⟩, q, hq'⟩ := hx.exists_path hparents hf
  obtain ⟨p, hp⟩ := hq.exists_ahead hg
  obtain ⟨w, q, rfl⟩ := List.exists_cons_of_ne_nil hq'.ne_nil
  obtain rfl : w = g.node := Option.some.inj hq'.head
  have hpath := hp.append hq'
  refine ⟨p ++ q, hpath.mono fun _ _ h => h.1, nodup_of_ahead hpath.hops, ?_⟩
  exact List.mem_append_left _ (List.mem_of_getLast? hp.last)

omit hq in
/-- On a way back that has an end, no node but the one it starts from has an edge to itself. -/
theorem Traced.no_loop {f : Entry α} (hf : First entries n f) {path : List α}
    (h : Traced parent f.node path) {x : α} (hx : x ∈ path) (hne : x ≠ f.node) : ¬ Hop adj x x := by
  intro hloop
  obtain ⟨rest, hrest, _⟩ := h.of_mem hx
  obtain ⟨⟨k, g, hg, rfl, hk⟩, _⟩ := (h.ancestor hx).exists_path hparents hf
  have hkn : k < n := by
    refine Nat.lt_of_le_of_ne hk fun heq => hne ?_
    subst heq
    exact congrArg Entry.node (Option.some.inj (hg.place.symm.trans hf.place))
  -- expanded, it pushed itself, and nothing pushes a node that was expanded
  rcases hparents g.node with ⟨_, hun⟩ | ⟨i, p, hsome, hlast⟩
  · exact hg.new (hun k g hkn hg.place hloop)
  · have hki := hlast.last k g hkn hg.place hloop hg.new
    have hik : i ≤ k := by
      by_contra hlt
      exact hlast.new (mem_before.mpr ⟨k, g, by omega, hg.place, rfl⟩)
    obtain rfl : i = k := by omega
    obtain rfl : p = g := Option.some.inj (hlast.place.symm.trans hg.place)
    exact hrest.not_own_parent .self hsome

/-- On a shortest path the last pusher is one hop nearer to the source. -/
theorem last_of_shortest {f : Entry α} (hf : First entries n f) (hn : 0 < n) {path : List α}
    (htraced : Traced parent f.node path) (hshort : ShortestPath (Hop adj) s f.node path) :
    ∃ i p m, LastPusher adj entries n f.node i p ∧ Dist (Hop adj) s p.node m ∧ f.depth = m + 1 := by
  obtain ⟨i, p, hsome, hlast⟩ := exists_parent hq hparents hf hn (Nat.le_refl n)
  have hfd := hq.dist hf
  have hlen := hshort.length_eq hfd
  have hpath := hshort.path (reachable_iff.mpr ⟨_, hfd.walk⟩)
  refine ⟨i, p, f.depth - 1, hlast, ?_⟩
  cases htraced with
  | root hnone =>
      rw [hsome] at hnone
      cases hnone
  | @step u v rest hsome' hrest =>
      rw [hsome] at hsome'
      cases hsome'
      have hlast' := hrest.last
      have hne : rest ≠ [] := by
        intro h
        rw [h] at hlast'
        cases hlast'
      obtain ⟨_, w, hw, hprefix, hhop⟩ := hpath.dropLast hne
      rw [hlast'] at hw
      cases hw
      have hpos := List.length_pos_iff.mpr hne
      rw [List.length_append, List.length_singleton] at hlen
      refine ⟨⟨walk_iff.mpr ⟨rest, hprefix, by omega⟩, fun m hm => ?_⟩, by omega⟩
      have hle := hfd.least _ (.hop hm hhop)
      omega

end Complete

end IronStack.Lib
