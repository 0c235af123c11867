import Mathlib.Logic.Function.Basic
import Mathlib.Logic.Relation
import Mathlib.Order.Lattice

/-!
# Flooding

Nodes pass on what is later than anything they know: a node that learns a version
sends it over all its links, except back over the one it came by. Copies that are on
their way may be overtaken, and a node may send what it knows once more.

When nothing is on its way any more, every node knows all that the nodes it is
linked to know.
-/

namespace IronStack.Lib

/-- Links between nodes, each with the one that goes the other way. -/
structure Wiring (ν ε : Type*) where
  source : ε → ν
  target : ε → ν
  reverse : ε → ε
  source_reverse : ∀ e, source (reverse e) = target e
  target_reverse : ∀ e, target (reverse e) = source e

namespace Wiring

variable {ν ε : Type*} (w : Wiring ν ε)

/-- There is a link from one node to another. -/
def Adjacent (a b : ν) : Prop := ∃ e, w.source e = a ∧ w.target e = b

theorem Adjacent.symm {w : Wiring ν ε} {a b : ν} (h : w.Adjacent a b) : w.Adjacent b a := by
  obtain ⟨e, rfl, rfl⟩ := h
  exact ⟨w.reverse e, w.source_reverse e, w.target_reverse e⟩

/-- There are links that lead from one node to another. -/
def Connected : ν → ν → Prop := Relation.ReflTransGen w.Adjacent

theorem Connected.symm {w : Wiring ν ε} {a b : ν} (h : w.Connected a b) : w.Connected b a := by
  induction h with
  | refl => exact .refl
  | tail _ hlink ih => exact .head hlink.symm ih

end Wiring

/-- A version of something, on its way over a link. -/
structure Copy (ε κ α : Type*) where
  link : ε
  key : κ
  version : α

/-- What every node knows of everything, and what is on its way. -/
structure Flood (ν ε κ α : Type*) where
  known : ν → κ → α
  inFlight : List (Copy ε κ α)

namespace Flood

variable {ν ε κ α : Type*} [DecidableEq ν] [DecidableEq κ] [Preorder α] (w : Wiring ν ε)

/-- A node takes notice of a version. -/
def learn (f : Flood ν ε κ α) (n : ν) (k : κ) (v : α) : ν → κ → α :=
  Function.update f.known n (Function.update (f.known n) k v)

/-- A version goes out from a node over every link to another node, except perhaps over some. -/
structure Spreads (n : ν) (k : κ) (v : α) (spared : ε → Prop) (copies : List (Copy ε κ α)) : Prop where
  from_node : ∀ c ∈ copies, w.source c.link = n ∧ c.key = k ∧ c.version = v
  everywhere : ∀ e, w.source e = n → w.target e ≠ n → ¬ spared e → ∃ c ∈ copies, c.link = e

/-- What can happen. -/
inductive Step : Flood ν ε κ α → Flood ν ε κ α → Prop
  /-- A node has a new version of its own. -/
  | originate {f : Flood ν ε κ α} {n : ν} {k : κ} {v : α} {copies : List (Copy ε κ α)} :
      f.known n k ≤ v → Spreads w n k v (fun _ => False) copies →
      Step f ⟨f.learn n k v, f.inFlight ++ copies⟩
  /-- A copy arrives of a version that is known. -/
  | drop {f : Flood ν ε κ α} {before after : List (Copy ε κ α)} {c : Copy ε κ α} :
      f.inFlight = before ++ c :: after → c.version ≤ f.known (w.target c.link) c.key →
      Step f ⟨f.known, before ++ after⟩
  /-- A copy arrives of a version that is later, and is passed on. -/
  | take {f : Flood ν ε κ α} {before after copies : List (Copy ε κ α)} {c : Copy ε κ α} :
      f.inFlight = before ++ c :: after → f.known (w.target c.link) c.key ≤ c.version →
      Spreads w (w.target c.link) c.key c.version (· = w.reverse c.link) copies →
      Step f ⟨f.learn (w.target c.link) c.key c.version, before ++ after ++ copies⟩
  /-- What a node knows is sent once more, as it is or in an earlier version. -/
  | resend {f : Flood ν ε κ α} {copies : List (Copy ε κ α)} :
      (∀ c ∈ copies, c.version ≤ f.known (w.source c.link) c.key) →
      Step f ⟨f.known, f.inFlight ++ copies⟩

/-- Nothing is on its way that its sender does not know, and no link is behind. -/
structure Covers (f : Flood ν ε κ α) : Prop where
  carried : ∀ c ∈ f.inFlight, c.version ≤ f.known (w.source c.link) c.key
  /-- The other end knows as much, or what it lacks is on its way. -/
  offered : ∀ e k, f.known (w.source e) k ≤ f.known (w.target e) k ∨
    ∃ c ∈ f.inFlight, c.link = e ∧ c.key = k ∧ f.known (w.source e) k ≤ c.version

variable {w} {f f' : Flood ν ε κ α}

omit [DecidableEq ν] [DecidableEq κ] in
/-- At the start, when every node knows the same and nothing is on its way. -/
theorem covers_start {known : ν → κ → α} (h : ∀ a b k, known a k ≤ known b k) :
    Covers w ⟨known, []⟩ where
  carried := fun _ hc => by cases hc
  offered := fun e k => .inl (h _ _ k)

omit [Preorder α] in
theorem learn_self (f : Flood ν ε κ α) (n : ν) (k : κ) (v : α) : f.learn n k v n k = v := by
  rw [learn, Function.update_self, Function.update_self]

omit [Preorder α] in
theorem learn_of_ne (f : Flood ν ε κ α) {n m : ν} {k j : κ} (v : α) (h : ¬ (m = n ∧ j = k)) :
    f.learn n k v m j = f.known m j := by
  rw [learn]
  by_cases hm : m = n
  · subst hm
    rw [Function.update_self, Function.update_of_ne fun hj => h ⟨rfl, hj⟩]
  · rw [Function.update_of_ne hm]

/-- A node never knows less than it did. -/
theorem le_learn {n : ν} {k : κ} {v : α} (h : f.known n k ≤ v) (m : ν) (j : κ) :
    f.known m j ≤ f.learn n k v m j := by
  by_cases hmj : m = n ∧ j = k
  · obtain ⟨rfl, rfl⟩ := hmj
    rwa [learn_self]
  · rw [learn_of_ne f v hmj]

omit [DecidableEq ν] [DecidableEq κ] in
/-- What holds of a link stays so when its source learns nothing and its copies are still there. -/
theorem offered_of_le {g : Flood ν ε κ α} {e : ε} {k : κ}
    (h : f.known (w.source e) k ≤ f.known (w.target e) k ∨
      ∃ c ∈ f.inFlight, c.link = e ∧ c.key = k ∧ f.known (w.source e) k ≤ c.version)
    (hsource : g.known (w.source e) k = f.known (w.source e) k)
    (htarget : f.known (w.target e) k ≤ g.known (w.target e) k)
    (hcopies : ∀ c ∈ f.inFlight, c.link = e → c.key = k →
      c ∈ g.inFlight ∨ c.version ≤ g.known (w.target e) k) :
    g.known (w.source e) k ≤ g.known (w.target e) k ∨
      ∃ c ∈ g.inFlight, c.link = e ∧ c.key = k ∧ g.known (w.source e) k ≤ c.version := by
  rw [hsource]
  rcases h with h | ⟨c, hc, hlink, hkey, hle⟩
  · exact .inl (h.trans htarget)
  · rcases hcopies c hc hlink hkey with hstill | harrived
    · exact .inr ⟨c, hstill, hlink, hkey, hle⟩
    · exact .inl (hle.trans harrived)

/-- A version that a node learns and passes on, except over the link by which it came. -/
theorem Covers.spread (h : Covers w f) {n : ν} {k : κ} {v : α} {spared : ε → Prop}
    {rest copies : List (Copy ε κ α)} (hknown : f.known n k ≤ v) (hspread : Spreads w n k v spared copies)
    (hrest : ∀ c ∈ rest, c ∈ f.inFlight)
    (hgone : ∀ c ∈ f.inFlight, c ∈ rest ∨ w.target c.link = n ∧ c.key = k ∧ c.version = v)
    (hspared : ∀ e, spared e → w.source e = n → v ≤ f.known (w.target e) k) :
    Covers w (⟨f.learn n k v, rest ++ copies⟩ : Flood ν ε κ α) where
  carried := by
    intro c hc
    rcases List.mem_append.mp hc with hc | hc
    · exact (h.carried c (hrest c hc)).trans (le_learn hknown _ _)
    · obtain ⟨hsource, hkey, hversion⟩ := hspread.from_node c hc
      rw [hsource, hkey, hversion]
      exact (learn_self f n k v).ge
  offered := by
    intro e j
    by_cases hnew : w.source e = n ∧ j = k
    -- a link out of the node that learned: the version goes over it, or is at its other end
    · obtain ⟨hsource, rfl⟩ := hnew
      by_cases hback : w.target e = n
      · rw [hsource, hback]
        exact .inl le_rfl
      by_cases hskip : spared e
      · refine .inl ?_
        dsimp only
        rw [hsource, learn_self]
        exact (hspared e hskip hsource).trans (le_learn hknown _ _)
      · obtain ⟨c, hc, hlink⟩ := hspread.everywhere e hsource hback hskip
        obtain ⟨_, hkey, hversion⟩ := hspread.from_node c hc
        refine .inr ⟨c, List.mem_append_right _ hc, hlink, hkey, ?_⟩
        dsimp only
        rw [hsource, learn_self, hversion]
    -- any other link: what was on its way still is, or has just arrived
    · refine offered_of_le (h.offered e j) (learn_of_ne f v hnew) (le_learn hknown _ _) ?_
      intro c hc hlink hkey
      rcases hgone c hc with hc | ⟨htarget, hck, hversion⟩
      · exact .inl (List.mem_append_left _ hc)
      · refine .inr ?_
        rw [← hlink, htarget, ← hkey, hck, hversion]
        exact (learn_self f n k v).ge

/-- **No step leaves a link behind.** -/
theorem Covers.step (h : Covers w f) (hs : Step w f f') : Covers w f' := by
  cases hs with
  | @originate n k v copies hknown hspread =>
      exact h.spread hknown hspread (fun c hc => hc) (fun c hc => .inl hc) fun _ hfalse _ => hfalse.elim
  | @drop before after c hflight hknown =>
      have hmem : ∀ d, d ∈ f.inFlight ↔ d = c ∨ d ∈ before ++ after := by
        intro d
        rw [hflight, List.mem_append, List.mem_cons, List.mem_append, or_left_comm]
      refine ⟨fun d hd => h.carried d ((hmem d).mpr (.inr hd)), fun e k => ?_⟩
      refine offered_of_le (h.offered e k) rfl le_rfl fun d hd hlink hkey => ?_
      rcases (hmem d).mp hd with rfl | hd
      · rw [hlink, hkey] at hknown
        exact .inr hknown
      · exact .inl hd
  | @take before after copies c hflight hknown hspread =>
      have hmem : ∀ d, d ∈ f.inFlight ↔ d = c ∨ d ∈ before ++ after := by
        intro d
        rw [hflight, List.mem_append, List.mem_cons, List.mem_append, or_left_comm]
      refine h.spread hknown hspread (fun d hd => (hmem d).mpr (.inr hd)) ?_ ?_
      · intro d hd
        rcases (hmem d).mp hd with rfl | hd
        · exact .inr ⟨rfl, rfl, rfl⟩
        · exact .inl hd
      · rintro e rfl _
        rw [w.target_reverse]
        exact h.carried c ((hmem c).mpr (.inl rfl))
  | @resend copies hknown =>
      refine ⟨fun c hc => ?_, fun e k => ?_⟩
      · rcases List.mem_append.mp hc with hc | hc
        · exact h.carried c hc
        · exact hknown c hc
      · exact offered_of_le (h.offered e k) rfl le_rfl fun c hc _ _ => .inl (List.mem_append_left _ hc)

omit [DecidableEq ν] [DecidableEq κ] in
/-- **Agreement**: when nothing is on its way, a node knows all that a connected one knows. -/
theorem Covers.agree (h : Covers w f) (hquiet : f.inFlight = []) {a b : ν} (hconn : w.Connected a b) (k : κ) :
    f.known a k ≤ f.known b k := by
  induction hconn with
  | refl => exact le_rfl
  | tail _ hlink ih =>
      obtain ⟨e, rfl, rfl⟩ := hlink
      rcases h.offered e k with hle | ⟨c, hc, _⟩
      · exact ih.trans hle
      · rw [hquiet] at hc
        cases hc

section Linear

variable {α : Type*} [LinearOrder α] {f : Flood ν ε κ α}

omit [LinearOrder α] in
theorem learn_known (f : Flood ν ε κ α) (n : ν) (k : κ) : f.learn n k (f.known n k) = f.known := by
  rw [learn, Function.update_eq_self, Function.update_eq_self]

/-- A copy arrives, and is passed on unless the version is known. What is passed on may be known all the same. -/
theorem Covers.receive (h : Covers w f) {before after copies : List (Copy ε κ α)} {c : Copy ε κ α}
    (hflight : f.inFlight = before ++ c :: after)
    (hcopies : (c.version ≤ f.known (w.target c.link) c.key ∧ copies = []) ∨
      Spreads w (w.target c.link) c.key c.version (· = w.reverse c.link) copies) :
    Covers w (⟨f.learn (w.target c.link) c.key (max (f.known (w.target c.link) c.key) c.version),
      before ++ after ++ copies⟩ : Flood ν ε κ α) := by
  by_cases hle : c.version ≤ f.known (w.target c.link) c.key
  · rw [max_eq_left hle, learn_known]
    have hdropped := h.step (.drop hflight hle)
    rcases hcopies with ⟨_, rfl⟩ | hspread
    · rwa [List.append_nil]
    · refine hdropped.step (.resend fun d hd => ?_)
      obtain ⟨hsource, hkey, hversion⟩ := hspread.from_node d hd
      rw [hsource, hkey, hversion]
      exact hle
  · have hlt := not_le.mp hle
    rw [max_eq_right hlt.le]
    rcases hcopies with ⟨hknown, _⟩ | hspread
    · exact absurd hknown hle
    · exact h.step (.take hflight hlt.le hspread)

end Linear

end Flood

end IronStack.Lib
