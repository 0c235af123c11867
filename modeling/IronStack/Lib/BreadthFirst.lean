import IronStack.Lib.Walks
import Mathlib.Data.Finset.Card

/-!
# Breadth-first search with repeated entries

A search that marks a node only when it expands it. Until then every neighbour
that is expanded pushes the node again and becomes its parent, so the queue holds
repeated entries and a parent is the neighbour that pushed last, not first. All
entries ever pushed are kept in one list, in the order in which they are taken.
-/

namespace IronStack.Lib

/-- An entry of the queue: a node, the place of the entry that pushed it, and its depth below the source. -/
structure Entry (α : Type) where
  node : α
  pusher : Nat
  depth : Nat

section Search

variable {α : Type} [DecidableEq α]

/-- The nodes that were expanded before the entry at a place. -/
def before (entries : List (Entry α)) (n : Nat) : List α := (entries.take n).map Entry.node

/-- What the entry at place `n` pushes: its neighbours that were not expanded before it. -/
def pushes (adj : α → List α) (entries : List (Entry α)) (n : Nat) (e : Entry α) : List (Entry α) :=
  ((adj e.node).filter fun v => v ∉ before entries n).map fun v => ⟨v, n, e.depth + 1⟩

/-- A search from `s` that has taken `n` entries, and the parents it knows. -/
inductive Explored (adj : α → List α) (s : α) : List (Entry α) → Nat → (α → Option α) → Prop where
  | start : Explored adj s [⟨s, 0, 0⟩] 0 fun _ => none
  | next {entries : List (Entry α)} {n : Nat} {parent : α → Option α} {e : Entry α}
      (h : Explored adj s entries n parent) (hhead : entries[n]? = some e) :
      Explored adj s (entries ++ pushes adj entries n e) (n + 1) fun v =>
        if v ∈ adj e.node ∧ v ∉ before entries n then some e.node else parent v

/-- The first entry of its node. -/
structure First (entries : List (Entry α)) (j : Nat) (e : Entry α) : Prop where
  place : entries[j]? = some e
  new : e.node ∉ before entries j

omit [DecidableEq α] in
theorem mem_before {entries : List (Entry α)} {n : Nat} {v : α} :
    v ∈ before entries n ↔ ∃ i e, i < n ∧ entries[i]? = some e ∧ e.node = v := by
  rw [before, List.mem_map]
  refine ⟨?_, ?_⟩
  · intro ⟨e, he, hv⟩
    obtain ⟨i, hi⟩ := List.mem_iff_getElem?.mp he
    rw [List.getElem?_take] at hi
    split at hi
    · exact ⟨i, e, ‹_›, hi, hv⟩
    · cases hi
  · intro ⟨i, e, hlt, hi, hv⟩
    exact ⟨e, List.mem_iff_getElem?.mpr ⟨i, by rw [List.getElem?_take, if_pos hlt, hi]⟩, hv⟩

omit [DecidableEq α] in
theorem before_append {entries : List (Entry α)} {n : Nat} (h : n ≤ entries.length)
    (l : List (Entry α)) : before (entries ++ l) n = before entries n := by
  rw [before, before, List.take_append_of_le_length h]

omit [DecidableEq α] in
theorem before_mono {entries : List (Entry α)} {m n : Nat} (h : m ≤ n) {v : α}
    (hv : v ∈ before entries m) : v ∈ before entries n := by
  obtain ⟨i, e, hi, hat, hnode⟩ := mem_before.mp hv
  exact mem_before.mpr ⟨i, e, Nat.lt_of_lt_of_le hi h, hat, hnode⟩

omit [DecidableEq α] in
theorem exists_first {entries : List (Entry α)} {i : Nat} {e : Entry α} (h : entries[i]? = some e) :
    ∃ j f, First entries j f ∧ f.node = e.node ∧ j ≤ i := by
  induction i using Nat.strongRecOn generalizing e with
  | ind i ih =>
      by_cases hnew : e.node ∈ before entries i
      · obtain ⟨i', e', hlt, hat, hnode⟩ := mem_before.mp hnew
        obtain ⟨j, f, hfirst, hf, hle⟩ := ih i' hlt hat
        exact ⟨j, f, hfirst, hf.trans hnode, by omega⟩
      · exact ⟨i, e, ⟨h, hnew⟩, rfl, Nat.le_refl _⟩

omit [DecidableEq α] in
theorem First.le {entries : List (Entry α)} {i j : Nat} {e f : Entry α} (h : First entries j f)
    (hat : entries[i]? = some e) (hnode : e.node = f.node) : j ≤ i := by
  by_contra hlt
  exact h.new (mem_before.mpr ⟨i, e, Nat.lt_of_not_le hlt, hat, hnode⟩)

omit [DecidableEq α] in
/-- A node that was not expanded at a place, nor is by it, is first expanded behind it. -/
theorem First.lt_of_new {entries : List (Entry α)} {i j : Nat} {e f : Entry α} (h : First entries j f)
    (hat : entries[i]? = some e) (hnew : f.node ∉ before entries i) (hne : f.node ≠ e.node) : i < j := by
  by_contra hge
  rcases Nat.lt_or_eq_of_le (Nat.le_of_not_lt hge) with hlt | rfl
  · exact hnew (mem_before.mpr ⟨j, f, hlt, h.place, rfl⟩)
  · exact hne (congrArg Entry.node (Option.some.inj (h.place.symm.trans hat)))

omit [DecidableEq α] in
theorem First.unique {entries : List (Entry α)} {i j : Nat} {e f : Entry α} (he : First entries i e)
    (hf : First entries j f) (hnode : e.node = f.node) : i = j ∧ e = f := by
  have hij : i = j := Nat.le_antisymm (he.le hf.place hnode.symm) (hf.le he.place hnode)
  subst hij
  exact ⟨rfl, Option.some.inj (he.place.symm.trans hf.place)⟩

/-- What is known of the entries of a search that has taken `n` of them. -/
structure Queue (adj : α → List α) (lt : α → α → Prop) (s : α) (entries : List (Entry α))
    (n : Nat) : Prop where
  le : n ≤ entries.length
  first : entries[0]? = some ⟨s, 0, 0⟩
  pushed : ∀ j e, entries[j]? = some e → 0 < j → ∃ p, entries[e.pusher]? = some p ∧
    e.pusher < j ∧ e.pusher < n ∧ e.depth = p.depth + 1 ∧ e.node ∈ adj p.node ∧
      e.node ∉ before entries e.pusher
  pushes : ∀ i p, i < n → entries[i]? = some p → ∀ v ∈ adj p.node, v ∉ before entries i →
    ∃ j e, 0 < j ∧ entries[j]? = some e ∧ e.node = v ∧ e.pusher = i
  ordered : ∀ i j e f, 0 < i → i < j → entries[i]? = some e → entries[j]? = some f →
    e.pusher < f.pusher ∨ e.pusher = f.pusher ∧ lt e.node f.node

theorem mem_pushes {adj : α → List α} {entries : List (Entry α)} {n : Nat} {e f : Entry α} :
    f ∈ pushes adj entries n e ↔
      f.node ∈ adj e.node ∧ f.node ∉ before entries n ∧ f.pusher = n ∧ f.depth = e.depth + 1 := by
  simp only [pushes, List.mem_map, List.mem_filter, decide_eq_true_eq]
  refine ⟨?_, ?_⟩
  · intro ⟨v, ⟨hadj, hnew⟩, hf⟩
    rw [← hf]
    exact ⟨hadj, hnew, rfl, rfl⟩
  · intro ⟨hadj, hnew, hpusher, hdepth⟩
    refine ⟨f.node, ⟨hadj, hnew⟩, ?_⟩
    rw [← hpusher, ← hdepth]

variable {adj : α → List α} {lt : α → α → Prop} {s : α} {entries : List (Entry α)} {n : Nat}
  {parent : α → Option α}

omit [DecidableEq α] in
theorem getElem?_append_cases {l l' : List (Entry α)} {j : Nat} {e : Entry α}
    (h : (l ++ l')[j]? = some e) : l[j]? = some e ∨ l.length ≤ j ∧ e ∈ l' := by
  by_cases hlt : j < l.length
  · rw [List.getElem?_append_left hlt] at h
    exact .inl h
  · rw [List.getElem?_append_right (Nat.le_of_not_lt hlt)] at h
    exact .inr ⟨Nat.le_of_not_lt hlt, List.mem_of_getElem? h⟩

/-- The pushes of an entry are sorted as its neighbours are. -/
theorem pairwise_pushes (hsorted : ∀ x, (adj x).Pairwise lt) (e : Entry α) :
    (pushes adj entries n e).Pairwise fun a b => lt a.node b.node := by
  rw [pushes, List.pairwise_map]
  exact (hsorted e.node).filter _

theorem Explored.le (h : Explored adj s entries n parent) : n ≤ entries.length := by
  induction h with
  | start => exact Nat.zero_le _
  | next _ hhead ih =>
      have hlt := (List.getElem?_eq_some_iff.mp hhead).1
      rw [List.length_append]
      omega

theorem Explored.queue (h : Explored adj s entries n parent) (hsorted : ∀ x, (adj x).Pairwise lt) :
    Queue adj lt s entries n := by
  induction h with
  | start =>
      refine ⟨Nat.zero_le _, rfl, ?_, ?_, ?_⟩
      · intro j e hj hpos
        rw [List.getElem?_singleton, if_neg (by omega)] at hj
        cases hj
      · intro i _ hi
        exact absurd hi (Nat.not_lt_zero _)
      · intro i j e f hi hij _ hj
        rw [List.getElem?_singleton, if_neg (by omega)] at hj
        cases hj
  | @next entries n parent head hprev hhead ih =>
      have hlt : n < entries.length := (List.getElem?_eq_some_iff.mp hhead).1
      have hkeep : ∀ {i : Nat} {p : Entry α}, entries[i]? = some p →
          (entries ++ Lib.pushes adj entries n head)[i]? = some p := by
        intro i p hi
        rw [List.getElem?_append_left (List.getElem?_eq_some_iff.mp hi).1, hi]
      refine ⟨(hprev.next hhead).le, hkeep ih.first, ?_, ?_, ?_⟩
      · intro j e hj hpos
        -- an entry from before, or one that was pushed just now
        rcases getElem?_append_cases hj with hold | ⟨hle, hnew⟩
        · obtain ⟨p, hp, hpj, hpn, hdepth, hadj, hbefore⟩ := ih.pushed j e hold hpos
          refine ⟨p, hkeep hp, hpj, by omega, hdepth, hadj, ?_⟩
          rwa [before_append (by omega)]
        · obtain ⟨hadj, hbefore, hpusher, hdepth⟩ := mem_pushes.mp hnew
          rw [hpusher]
          refine ⟨head, hkeep hhead, by omega, by omega, hdepth, hadj, ?_⟩
          rwa [before_append (by omega)]
      · intro i p hi hp v hv hnew
        by_cases hin : i < n
        · have hp' : entries[i]? = some p := by
            rwa [List.getElem?_append_left (by omega)] at hp
          rw [before_append (by omega)] at hnew
          obtain ⟨j, e, hpos, hj, hnode, hpusher⟩ := ih.pushes i p hin hp' v hv hnew
          exact ⟨j, e, hpos, hkeep hj, hnode, hpusher⟩
        · -- the entry that was taken just now
          have hi' : i = n := by omega
          subst hi'
          rw [hkeep hhead] at hp
          cases hp
          rw [before_append (by omega)] at hnew
          have hmem : (⟨v, i, head.depth + 1⟩ : Entry α) ∈ Lib.pushes adj entries i head :=
            mem_pushes.mpr ⟨hv, hnew, rfl, rfl⟩
          obtain ⟨k, hk⟩ := List.mem_iff_getElem?.mp hmem
          refine ⟨entries.length + k, ⟨v, i, head.depth + 1⟩, by omega, ?_, rfl, rfl⟩
          rw [List.getElem?_append_right (by omega), Nat.add_sub_cancel_left, hk]
      · intro i j e f hi hij he hf
        rcases getElem?_append_cases hf with hold | ⟨hle, hnew⟩
        · have hj := (List.getElem?_eq_some_iff.mp hold).1
          rw [List.getElem?_append_left (by omega)] at he
          exact ih.ordered i j e f hi hij he hold
        · obtain ⟨_, _, hpusher, _⟩ := mem_pushes.mp hnew
          rcases getElem?_append_cases he with hold | ⟨hle', _⟩
          · obtain ⟨_, _, _, hpn, _⟩ := ih.pushed i e hold hi
            exact .inl (by omega)
          · -- two pushes of the same entry
            rw [List.getElem?_append_right hle'] at he
            rw [List.getElem?_append_right hle] at hf
            obtain ⟨hi', he'⟩ := List.getElem?_eq_some_iff.mp he
            obtain ⟨hj', hf'⟩ := List.getElem?_eq_some_iff.mp hf
            have hpair := List.pairwise_iff_getElem.mp (pairwise_pushes hsorted head) _ _ hi' hj'
              (by omega)
            rw [he', hf'] at hpair
            obtain ⟨_, _, hpusher', _⟩ := mem_pushes.mp (List.mem_of_getElem? he)
            exact .inr ⟨by omega, hpair⟩

/-! ## Places and depths -/

/-- The edges that the search follows. -/
abbrev Hop (adj : α → List α) (u v : α) : Prop := v ∈ adj u

section Queue

variable (hq : Queue adj lt s entries n)

include hq

omit [DecidableEq α]

/-- Entries are in the order of the entries that pushed them. -/
theorem Queue.pusher_le {i j : Nat} {e f : Entry α} (hi : 0 < i) (hij : i ≤ j)
    (he : entries[i]? = some e) (hf : entries[j]? = some f) : e.pusher ≤ f.pusher := by
  rcases Nat.lt_or_eq_of_le hij with hlt | rfl
  · rcases hq.ordered i j e f hi hlt he hf with h | ⟨h, _⟩
    · exact Nat.le_of_lt h
    · exact Nat.le_of_eq h
  · rw [he] at hf
    cases hf
    exact Nat.le_refl _

/-- Later entries are as deep, or deeper. -/
theorem Queue.depth_mono {i j : Nat} {e f : Entry α} (hij : i ≤ j) (he : entries[i]? = some e)
    (hf : entries[j]? = some f) : e.depth ≤ f.depth := by
  induction j using Nat.strongRecOn generalizing i e f with
  | ind j ih =>
      by_cases hi : i = 0
      · subst hi
        rw [hq.first] at he
        cases he
        exact Nat.zero_le _
      · obtain ⟨p, hp, _, _, hdepth, _⟩ := hq.pushed i e he (by omega)
        obtain ⟨p', hp', hlt, _, hdepth', _⟩ := hq.pushed j f hf (by omega)
        have hle := ih f.pusher hlt (hq.pusher_le (by omega) hij he hf) hp hp'
        omega

/-- An entry is as many hops away as it is deep. -/
theorem Queue.walk {j : Nat} {e : Entry α} (he : entries[j]? = some e) :
    Walk (Hop adj) s e.node e.depth := by
  induction j using Nat.strongRecOn generalizing e with
  | ind j ih =>
      by_cases hj : j = 0
      · subst hj
        rw [hq.first] at he
        cases he
        exact .here
      · obtain ⟨p, hp, hlt, _, hdepth, hadj, _⟩ := hq.pushed j e he (by omega)
        rw [hdepth]
        exact .hop (ih _ hlt hp) hadj

/-- The first entry of a node was pushed by the first entry of its node. -/
theorem Queue.first_pusher {j : Nat} {e : Entry α} (h : First entries j e) (hj : 0 < j) :
    ∃ p, First entries e.pusher p ∧ e.pusher < j ∧ e.pusher < n ∧ e.depth = p.depth + 1 ∧
      Hop adj p.node e.node := by
  obtain ⟨p, hp, hlt, hn, hdepth, hadj, hbefore⟩ := hq.pushed j e h.place hj
  refine ⟨p, ⟨hp, fun hmem => ?_⟩, hlt, hn, hdepth, hadj⟩
  obtain ⟨i, p', hi, hp', hnode⟩ := mem_before.mp hmem
  -- an earlier entry of the pusher's node would have pushed the node earlier
  rw [← hnode] at hadj
  obtain ⟨j', e', hj', he', hsame, hpusher⟩ := hq.pushes i p' (by omega) hp' e.node hadj
    fun hm => hbefore (before_mono (Nat.le_of_lt hi) hm)
  have hle := hq.pusher_le hj (h.le he' hsame) h.place he'
  omega

/-- No entry that was taken has a neighbour that was pushed later than by it. -/
theorem Queue.pusher_le_of_hop {i j : Nat} {p e : Entry α} (hp : entries[i]? = some p) (hi : i < n)
    (he : First entries j e) (hj : 0 < j) (hadj : Hop adj p.node e.node) : e.pusher ≤ i := by
  by_cases hmem : e.node ∈ before entries i
  · obtain ⟨i', e', hlt, he', hnode⟩ := mem_before.mp hmem
    have hle := he.le he' hnode
    obtain ⟨_, _, hpj, _⟩ := hq.pushed j e he.place hj
    omega
  · obtain ⟨j', e', hj', he', hnode, hpusher⟩ := hq.pushes i p hi hp e.node hadj hmem
    have hle := hq.pusher_le hj (he.le he' hnode) he.place he'
    omega

theorem Queue.source_first : First entries 0 ⟨s, 0, 0⟩ := by
  refine ⟨hq.first, ?_⟩
  rw [before, List.take_zero]
  exact List.not_mem_nil

end Queue

/-! ## Searches that have taken every entry -/

section Complete

variable (hq : Queue adj lt s entries entries.length)

include hq

omit [DecidableEq α]

theorem Queue.depth_le_of_walk {m : Nat} {v : α} (h : Walk (Hop adj) s v m) :
    ∃ (j : Nat) (e : Entry α), entries[j]? = some e ∧ e.node = v ∧ e.depth ≤ m := by
  induction h with
  | here => exact ⟨0, _, hq.first, rfl, Nat.le_refl _⟩
  | @hop u v m _ hedge ih =>
      obtain ⟨i, p, hp, hnode, hdepth⟩ := ih
      obtain ⟨j, f, hf, hsame, hle⟩ := exists_first hp
      have hjn := (List.getElem?_eq_some_iff.mp hf.place).1
      have hfp := hq.depth_mono hle hf.place hp
      rw [← hnode, ← hsame] at hedge
      by_cases hmem : v ∈ before entries j
      · obtain ⟨k, e, hk, he, hv⟩ := mem_before.mp hmem
        have hek := hq.depth_mono (Nat.le_of_lt hk) he hf.place
        exact ⟨k, e, he, hv, by omega⟩
      · obtain ⟨k, e, hk, he, hv, hpusher⟩ := hq.pushes j f hjn hf.place v hedge hmem
        obtain ⟨f', hf', _, _, hd, _⟩ := hq.pushed k e he hk
        rw [hpusher, hf.place] at hf'
        cases hf'
        exact ⟨k, e, he, hv, by omega⟩

/-- The first entry of a node is as deep as the node is far. -/
theorem Queue.dist {j : Nat} {e : Entry α} (h : First entries j e) :
    Dist (Hop adj) s e.node e.depth := by
  refine ⟨hq.walk h.place, fun m hm => ?_⟩
  obtain ⟨i, f, hf, hnode, hle⟩ := hq.depth_le_of_walk hm
  have hmono := hq.depth_mono (h.le hf hnode) h.place hf
  omega

/-- Nodes that can be reached have a first entry. -/
theorem Queue.first_of_dist {m : Nat} {v : α} (h : Dist (Hop adj) s v m) :
    ∃ j e, First entries j e ∧ e.node = v ∧ e.depth = m := by
  obtain ⟨i, e, he, hnode, _⟩ := hq.depth_le_of_walk h.walk
  obtain ⟨j, f, hf, hsame, _⟩ := exists_first he
  have hv : f.node = v := hsame.trans hnode
  have hdist := hq.dist hf
  rw [hv] at hdist
  exact ⟨j, f, hf, hv, hdist.unique h⟩

end Complete

/-! ## Parents -/

/-- The last of the `n` entries taken that pushed `v`. -/
structure LastPusher (adj : α → List α) (entries : List (Entry α)) (n : Nat) (v : α) (i : Nat)
    (p : Entry α) : Prop where
  lt : i < n
  place : entries[i]? = some p
  hop : Hop adj p.node v
  new : v ∉ before entries i
  last : ∀ i' p', i' < n → entries[i']? = some p' → Hop adj p'.node v → v ∉ before entries i' →
    i' ≤ i

/-- Nothing that was taken pushed `v`. -/
def Unpushed (adj : α → List α) (entries : List (Entry α)) (n : Nat) (v : α) : Prop :=
  ∀ i p, i < n → entries[i]? = some p → Hop adj p.node v → v ∈ before entries i

omit [DecidableEq α] in
theorem Unpushed.append {v : α} (h : Unpushed adj entries n v) (hn : n ≤ entries.length)
    (l : List (Entry α)) : Unpushed adj (entries ++ l) n v := by
  intro i p hi hp hhop
  rw [List.getElem?_append_left (by omega)] at hp
  rw [before_append (by omega)]
  exact h i p hi hp hhop

omit [DecidableEq α] in
theorem LastPusher.append {v : α} {i : Nat} {p : Entry α} (h : LastPusher adj entries n v i p)
    (hn : n ≤ entries.length) (l : List (Entry α)) : LastPusher adj (entries ++ l) n v i p := by
  have hlt := h.lt
  refine ⟨hlt, ?_, h.hop, ?_, ?_⟩
  · rw [List.getElem?_append_left (by omega), h.place]
  · rw [before_append (by omega)]
    exact h.new
  · intro i' p' hi' hp' hhop hnew
    rw [List.getElem?_append_left (by omega)] at hp'
    rw [before_append (by omega)] at hnew
    exact h.last i' p' hi' hp' hhop hnew

/-- What a search that has taken `n` of the entries knows of parents. -/
def Parents (adj : α → List α) (entries : List (Entry α)) (n : Nat) (parent : α → Option α) : Prop :=
  ∀ v, (parent v = none ∧ Unpushed adj entries n v) ∨
    ∃ i p, parent v = some p.node ∧ LastPusher adj entries n v i p

omit [DecidableEq α] in
theorem Parents.append (h : Parents adj entries n parent) (hn : n ≤ entries.length)
    (l : List (Entry α)) : Parents adj (entries ++ l) n parent := by
  intro v
  rcases h v with ⟨hnone, hun⟩ | ⟨i, p, hsome, hlast⟩
  · exact .inl ⟨hnone, hun.append hn l⟩
  · exact .inr ⟨i, p, hsome, hlast.append hn l⟩

/-- The parent of a node is the last entry that pushed it. -/
theorem Explored.parents (h : Explored adj s entries n parent) : Parents adj entries n parent := by
  intro v
  induction h with
  | start => exact .inl ⟨rfl, fun i _ hi => absurd hi (Nat.not_lt_zero _)⟩
  | @next entries n parent head hprev hhead ih =>
      have hlt : n < entries.length := (List.getElem?_eq_some_iff.mp hhead).1
      have hplace : (entries ++ pushes adj entries n head)[n]? = some head := by
        rw [List.getElem?_append_left hlt, hhead]
      have hbefore : before (entries ++ pushes adj entries n head) n = before entries n :=
        before_append (by omega) _
      dsimp only
      by_cases hpush : v ∈ adj head.node ∧ v ∉ before entries n
      · rw [if_pos hpush]
        refine .inr ⟨n, head, rfl, by omega, hplace, hpush.1, ?_, fun i' _ hi' _ _ _ => by omega⟩
        rw [hbefore]
        exact hpush.2
      · rw [if_neg hpush]
        -- the entry that was taken just now does not push `v`
        have hmore : ∀ p', (entries ++ pushes adj entries n head)[n]? = some p' →
            Hop adj p'.node v → v ∈ before (entries ++ pushes adj entries n head) n := by
          intro p' hp' hhop
          rw [hplace] at hp'
          cases hp'
          rw [hbefore]
          by_contra hnew
          exact hpush ⟨hhop, hnew⟩
        rcases ih with ⟨hnone, hun⟩ | ⟨i, p, hsome, hlast⟩
        · refine .inl ⟨hnone, fun i p hi hp hhop => ?_⟩
          rcases Nat.lt_or_eq_of_le (Nat.lt_succ_iff.mp hi) with hlt' | rfl
          · exact hun.append (by omega) _ i p hlt' hp hhop
          · exact hmore p hp hhop
        · have hlast' := hlast.append (by omega) (pushes adj entries n head)
          refine .inr ⟨i, p, hsome, by have := hlast.lt; omega, hlast'.place, hlast'.hop,
            hlast'.new, fun i' p' hi' hp' hhop hnew => ?_⟩
          rcases Nat.lt_or_eq_of_le (Nat.lt_succ_iff.mp hi') with hlt' | rfl
          · exact hlast'.last i' p' hlt' hp' hhop hnew
          · exact absurd (hmore p' hp' hhop) hnew

/-! ## The end of a search -/

theorem Explored.unique {entries' : List (Entry α)} {parent' : α → Option α}
    (h : Explored adj s entries n parent) (h' : Explored adj s entries' n parent') :
    entries = entries' ∧ parent = parent' := by
  induction h generalizing entries' parent' with
  | start =>
      cases h'
      exact ⟨rfl, rfl⟩
  | next _ hhead ih =>
      cases h' with
      | next hprev' hhead' =>
          obtain ⟨rfl, rfl⟩ := ih hprev'
          rw [hhead] at hhead'
          cases hhead'
          exact ⟨rfl, rfl⟩

/-- A search goes through every place before its own, with fewer entries. -/
theorem Explored.back {m : Nat} (h : Explored adj s entries n parent) (hm : m ≤ n) :
    ∃ l parent', Explored adj s l m parent' ∧ l <+: entries := by
  induction h with
  | start =>
      obtain rfl : m = 0 := by omega
      exact ⟨_, _, .start, List.prefix_refl _⟩
  | @next entries n parent head hprev hhead ih =>
      rcases Nat.lt_or_eq_of_le hm with hlt | rfl
      · obtain ⟨l, parent', hl, hprefix⟩ := ih (by omega)
        exact ⟨l, parent', hl, hprefix.trans (List.prefix_append _ _)⟩
      · exact ⟨_, _, .next hprev hhead, List.prefix_refl _⟩

/-- A search that has taken every entry holds all entries of every search from its source. -/
theorem Explored.prefix_end {entries' : List (Entry α)} {parent' : α → Option α}
    (h : Explored adj s entries n parent) (hend : Explored adj s entries' entries'.length parent') :
    n ≤ entries'.length ∧ entries <+: entries' := by
  have hn : n ≤ entries'.length := by
    by_contra hlt
    obtain ⟨l, _, hl, _⟩ := h.back (Nat.lt_of_not_le hlt)
    cases hl with
    | next hprev hhead =>
        obtain ⟨rfl, _⟩ := hprev.unique hend
        rw [List.getElem?_eq_none (Nat.le_refl _)] at hhead
        cases hhead
  obtain ⟨l, _, hl, hprefix⟩ := hend.back hn
  obtain ⟨rfl, _⟩ := h.unique hl
  exact ⟨hn, hprefix⟩

omit [DecidableEq α] in
theorem before_succ {e : Entry α} (h : entries[n]? = some e) :
    before entries (n + 1) = before entries n ++ [e.node] := by
  rw [before, before, List.take_add_one, h, List.map_append]
  rfl

/-- Every entry is of the source or of a neighbour. -/
theorem Explored.node_mem {U : List α} (h : Explored adj s entries n parent)
    (hU : ∀ x, ∀ v ∈ adj x, v ∈ U) : ∀ e ∈ entries, e.node ∈ s :: U := by
  induction h with
  | start =>
      intro e he
      rw [List.mem_singleton.mp he]
      exact List.mem_cons_self
  | next _ _ ih =>
      intro e he
      rcases List.mem_append.mp he with hold | hnew
      · exact ih e hold
      · exact List.mem_cons_of_mem _ (hU _ _ (mem_pushes.mp hnew).1)

/-- The entries in front of the queue whose nodes were expanded already. -/
def stale (entries : List (Entry α)) (n : Nat) : List (Entry α) :=
  (entries.drop n).takeWhile fun e => e.node ∈ before entries n

theorem length_stale_next {e : Entry α} (h : entries[n]? = some e) (hmem : e.node ∈ before entries n) :
    (stale (entries ++ pushes adj entries n e) (n + 1)).length < (stale entries n).length := by
  obtain ⟨hlt, hget⟩ := List.getElem?_eq_some_iff.mp h
  have hsame : ∀ v, v ∈ before (entries ++ pushes adj entries n e) (n + 1) ↔ v ∈ before entries n := by
    intro v
    rw [before_append (by omega), before_succ h, List.mem_append, List.mem_singleton]
    refine ⟨fun hv => hv.elim id fun heq => heq ▸ hmem, .inl⟩
  have hnone : (pushes adj entries n e).takeWhile (fun f => f.node ∈ before entries n) = [] := by
    cases hpushes : pushes adj entries n e with
    | nil => rfl
    | cons f rest =>
        have hf : f ∈ pushes adj entries n e := by
          rw [hpushes]
          exact List.mem_cons_self
        exact List.takeWhile_cons_of_neg (by simpa using (mem_pushes.mp hf).2.1)
  have hdrop : entries.drop n = e :: entries.drop (n + 1) := by
    rw [List.drop_eq_getElem_cons hlt, hget]
  simp only [stale, hsame]
  rw [List.drop_append_of_le_length (by omega), hdrop, List.takeWhile_cons_of_pos (by simpa using hmem),
    List.takeWhile_append, hnone, List.append_nil, List.length_cons]
  split
  · omega
  · omega

/--
**A search comes to an end.** With finitely many nodes, what holds at the end of a
search and is passed on from each place to the one before it holds of the search.
Either another node is expanded, or the queue gets closer to one that will be.
-/
theorem Explored.end_induction {U : List α} (hU : ∀ x, ∀ v ∈ adj x, v ∈ U)
    {motive : List (Entry α) → Nat → (α → Option α) → Prop}
    (hend : ∀ entries parent, Explored adj s entries entries.length parent →
      motive entries entries.length parent)
    (hstep : ∀ entries n parent e, Explored adj s entries n parent → entries[n]? = some e →
      (∀ entries' parent', Explored adj s entries' (n + 1) parent' →
        motive entries' (n + 1) parent') → motive entries n parent)
    (h : Explored adj s entries n parent) : motive entries n parent := by
  induction ha : ((s :: U).toFinset \ (before entries n).toFinset).card using Nat.strongRecOn
    generalizing entries n parent with
  | ind a iha =>
  induction hb : (stale entries n).length using Nat.strongRecOn generalizing entries n parent with
  | ind b ihb =>
  rcases Nat.lt_or_eq_of_le h.le with hlt | heq
  · have hhead : entries[n]? = some entries[n] := List.getElem?_eq_getElem hlt
    refine hstep entries n parent _ h hhead fun entries' parent' h' => ?_
    obtain ⟨rfl, rfl⟩ := h'.unique (.next h hhead)
    have hbefore : before (entries ++ pushes adj entries n entries[n]) (n + 1) =
        before entries n ++ [entries[n].node] := by
      rw [before_append (by omega), before_succ hhead]
    by_cases hmem : entries[n].node ∈ before entries n
    · refine ihb _ ?_ h' ?_ rfl
      · rw [← hb]
        exact length_stale_next hhead hmem
      · have hset : (before entries n ++ [entries[n].node]).toFinset = (before entries n).toFinset := by
          ext v
          simp only [List.mem_toFinset, List.mem_append, List.mem_singleton]
          exact ⟨fun hv => hv.elim id fun heq => heq ▸ hmem, .inl⟩
        rw [← ha, hbefore, hset]
    · refine iha _ ?_ h' rfl
      rw [← ha, hbefore]
      refine Finset.card_lt_card (Finset.ssubset_iff_of_subset ?_ |>.mpr ⟨entries[n].node, ?_, ?_⟩)
      · intro v hv
        simp only [Finset.mem_sdiff, List.mem_toFinset, List.mem_append, not_or] at hv ⊢
        exact ⟨hv.1, hv.2.1⟩
      · simp only [Finset.mem_sdiff, List.mem_toFinset]
        exact ⟨h.node_mem hU _ (List.getElem_mem hlt), hmem⟩
      · simp
  · subst heq
    exact hend entries parent h

/-- With finitely many nodes there is a search that has taken every entry. -/
theorem exists_end {U : List α} (hU : ∀ x, ∀ v ∈ adj x, v ∈ U) (s : α) :
    ∃ entries parent, Explored adj s entries entries.length parent := by
  refine @Explored.end_induction _ _ adj s _ _ _ U hU
    (motive := fun _ _ _ => ∃ entries parent, Explored adj s entries entries.length parent)
    (fun entries parent h => ⟨entries, parent, h⟩) (fun _ _ _ _ h hhead ih => ih _ _ (h.next hhead))
    .start

end Search

end IronStack.Lib
