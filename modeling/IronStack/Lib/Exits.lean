import Mathlib.Data.List.Nodup
import Mathlib.Logic.Function.Basic

/-!
# Walks that use up exits

Each node has exits, in an order. A walk leaves every node by its first exit, which is
then gone, up to the node that it is after. Walks from one node follow one another, each
with the exits that are left. From a walk its loops are erased: where it comes back to a
node, it goes on as if it had not left.
-/

namespace IronStack.Lib

variable {α : Type} [DecidableEq α]

/-! ## Loops -/

/-- A walk without its loops. -/
def loopErase : List α → List α
  | [] => []
  | v :: walk =>
      if v ∈ walk then loopErase (walk.dropWhile (· ≠ v))
      else v :: loopErase walk
termination_by walk => walk.length
decreasing_by
  · have hle := (List.dropWhile_sublist (l := walk) (· ≠ v)).length_le
    rw [List.length_cons]
    omega
  · rw [List.length_cons]
    omega

theorem loopErase_of_mem {x : α} {xs : List α} (h : x ∈ xs) :
    loopErase (x :: xs) = loopErase (xs.dropWhile (· ≠ x)) := by
  rw [loopErase, if_pos h]

theorem loopErase_of_not_mem {x : α} {xs : List α} (h : x ∉ xs) :
    loopErase (x :: xs) = x :: loopErase xs := by
  rw [loopErase, if_neg h]

theorem loopErase_of_nodup {l : List α} (h : l.Nodup) : loopErase l = l := by
  induction l with
  | nil => rw [loopErase]
  | cons x xs ih =>
      obtain ⟨hx, hxs⟩ := List.nodup_cons.mp h
      rw [loopErase_of_not_mem hx, ih hxs]

theorem dropWhile_ne_of_not_mem {x : α} {a : List α} (h : x ∉ a) (b : List α) :
    (a ++ b).dropWhile (· ≠ x) = b.dropWhile (· ≠ x) := by
  refine List.dropWhile_append_of_pos fun y hy => ?_
  rw [decide_eq_true_eq]
  rintro rfl
  exact h hy

/-- **A loop of a walk that has no other yet** is erased. -/
theorem loopErase_loop {a b c : List α} {v : α} (h : (a ++ v :: b).Nodup) :
    loopErase (a ++ v :: (b ++ v :: c)) = loopErase (a ++ v :: c) := by
  induction a with
  | nil =>
      have hv : v ∉ b := (List.nodup_cons.mp h).1
      rw [List.nil_append, loopErase_of_mem (List.mem_append_right _ List.mem_cons_self),
        dropWhile_ne_of_not_mem hv]
      rw [List.dropWhile_cons_of_neg (by simp), List.nil_append]
  | cons x a ih =>
      rw [List.cons_append] at h
      obtain ⟨hx, hrest⟩ := List.nodup_cons.mp h
      rw [List.mem_append, List.mem_cons, not_or, not_or] at hx
      obtain ⟨ha, hv, hb⟩ := hx
      rw [List.cons_append, List.cons_append]
      by_cases hc : x ∈ c
      · -- both go on where `x` is next
        have hleft : x ∈ a ++ v :: (b ++ v :: c) := by simp [hc]
        have hright : x ∈ a ++ v :: c := by simp [hc]
        rw [loopErase_of_mem hleft, loopErase_of_mem hright, dropWhile_ne_of_not_mem ha,
          dropWhile_ne_of_not_mem ha, List.dropWhile_cons_of_pos (by simpa using Ne.symm hv),
          dropWhile_ne_of_not_mem hb, List.dropWhile_cons_of_pos (by simpa using Ne.symm hv)]
      · have hleft : x ∉ a ++ v :: (b ++ v :: c) := by simp [ha, hv, hb, hc]
        have hright : x ∉ a ++ v :: c := by simp [ha, hv, hc]
        rw [loopErase_of_not_mem hleft, loopErase_of_not_mem hright, ih hrest]

/-- A walk without its loops starts where the walk does. -/
theorem head?_loopErase (walk : List α) : (loopErase walk).head? = walk.head? := by
  induction walk using loopErase.induct with
  | case1 => rw [loopErase]
  | case2 v walk hv ih =>
      obtain ⟨a, b, rfl, hnot⟩ := List.eq_append_cons_of_mem hv
      rw [loopErase_of_mem hv, ih, dropWhile_ne_of_not_mem hnot, List.dropWhile_cons_of_neg (by simp)]
      rfl
  | case3 v walk hv _ => rw [loopErase_of_not_mem hv, List.head?_cons, List.head?_cons]

/-- A path, the last node in front, that the walk takes back to one of its nodes. -/
theorem loopErase_back {a b c : List α} {v : α} (h : (a ++ v :: b).Nodup) :
    loopErase ((a ++ v :: b).reverse ++ v :: c) = loopErase (b.reverse ++ v :: c) := by
  have hreverse : (b.reverse ++ v :: a.reverse).Nodup := by
    have hnodup := List.nodup_reverse.mpr h
    simpa using hnodup
  have hsplit : (a ++ v :: b).reverse ++ v :: c = b.reverse ++ v :: (a.reverse ++ v :: c) := by simp
  rw [hsplit, loopErase_loop hreverse]

/-! ## Walks -/

/-- The exits that are left of each node, in their order. -/
abbrev Exits (α : Type) := α → List α

/-- A walk to `d`, with the exits that are there before and after it. -/
inductive ExitWalk (d : α) : Exits α → α → List α → Exits α → Prop
  | arrive {exits : Exits α} : ExitWalk d exits d [d] exits
  | leave {exits exits' : Exits α} {u v : α} {rest walk : List α} (hne : u ≠ d) (hexit : exits u = v :: rest)
      (htail : ExitWalk d (Function.update exits u rest) v walk exits') :
      ExitWalk d exits u (u :: walk) exits'

/-- **The exits determine the walk.** -/
theorem ExitWalk.unique {d u : α} {exits exits₁ exits₂ : Exits α} {walk₁ walk₂ : List α}
    (h₁ : ExitWalk d exits u walk₁ exits₁) (h₂ : ExitWalk d exits u walk₂ exits₂) :
    walk₁ = walk₂ ∧ exits₁ = exits₂ := by
  induction h₁ generalizing walk₂ with
  | arrive =>
      cases h₂ with
      | arrive => exact ⟨rfl, rfl⟩
      | leave hne _ _ => exact absurd rfl hne
  | leave hne hexit _ ih =>
      cases h₂ with
      | arrive => exact absurd rfl hne
      | leave _ hexit' htail' =>
          obtain ⟨rfl, rfl⟩ := List.cons.inj (hexit.symm.trans hexit')
          obtain ⟨rfl, rfl⟩ := ih htail'
          exact ⟨rfl, rfl⟩

theorem ExitWalk.head {d u : α} {exits exits' : Exits α} {walk : List α}
    (h : ExitWalk d exits u walk exits') :
    ∃ tail, walk = u :: tail := by
  cases h with
  | arrive => exact ⟨[], rfl⟩
  | leave _ _ _ => exact ⟨_, rfl⟩

/-- An exit that is taken is gone, and no other. -/
theorem update_subset {u v : α} {exits : Exits α} {rest : List α} (hexit : exits u = v :: rest) (w : α) :
    Function.update exits u rest w ⊆ exits w := by
  intro x hx
  by_cases hw : w = u
  · subst hw
    rw [Function.update_self] at hx
    rw [hexit]
    exact List.mem_cons_of_mem _ hx
  · rwa [Function.update_of_ne hw] at hx

theorem ExitWalk.exits_subset {d u : α} {exits exits' : Exits α} {walk : List α}
    (h : ExitWalk d exits u walk exits') (w : α) : exits' w ⊆ exits w := by
  induction h with
  | arrive => exact List.Subset.refl _
  | leave _ hexit _ ih => exact List.Subset.trans ih (update_subset hexit w)

/-- A node that no exit leads to keeps its own, unless the walk starts there. -/
theorem ExitWalk.exits_eq {d u s : α} {exits exits' : Exits α} {walk : List α}
    (h : ExitWalk d exits u walk exits') (hne : u ≠ s) (hs : ∀ w, s ∉ exits w) : exits' s = exits s := by
  induction h with
  | arrive => rfl
  | @leave exits exits' u v rest walk _ hexit _ ih =>
      have hv : v ≠ s := by
        rintro rfl
        refine hs u ?_
        rw [hexit]
        exact List.mem_cons_self
      rw [ih hv fun w hmem => hs w (update_subset hexit w hmem), Function.update_of_ne (Ne.symm hne)]

/-- A walk does not come to a node that no exit leads to. -/
theorem ExitWalk.not_mem {d u s : α} {exits exits' : Exits α} {walk : List α}
    (h : ExitWalk d exits u walk exits') (hne : u ≠ s) (hd : d ≠ s) (hs : ∀ w, s ∉ exits w) : s ∉ walk := by
  induction h with
  | arrive => exact fun hmem => hd (List.mem_singleton.mp hmem).symm
  | @leave exits exits' u v rest walk _ hexit _ ih =>
      have hv : v ≠ s := by
        rintro rfl
        refine hs u ?_
        rw [hexit]
        exact List.mem_cons_self
      refine fun hmem => (List.mem_cons.mp hmem).elim (fun heq => hne heq.symm) ?_
      exact ih hv fun w hmem => hs w (update_subset hexit w hmem)

/-- The first walk takes the first exit of its start, also without its loops, and no other of its exits. -/
theorem ExitWalk.second {d s : α} {exits exits' : Exits α} {walk : List α}
    (h : ExitWalk d exits s walk exits') (hne : s ≠ d) (hs : ∀ w, s ∉ exits w) :
    ∃ u, exits s = u :: exits' s ∧ (loopErase walk).tail.head? = some u := by
  cases h with
  | arrive => exact absurd rfl hne
  | @leave _ _ _ v rest walk _ hexit htail =>
      have hv : v ≠ s := by
        rintro rfl
        refine hs v ?_
        rw [hexit]
        exact List.mem_cons_self
      have hs' := fun w hmem => hs w (update_subset hexit w hmem)
      obtain ⟨tail, rfl⟩ := htail.head
      refine ⟨v, ?_, ?_⟩
      · rw [htail.exits_eq hv hs', Function.update_self, hexit]
      · rw [loopErase_of_not_mem (htail.not_mem hv hne.symm hs'), List.tail_cons, head?_loopErase,
          List.head?_cons]

/-! ## One walk after the other -/

/-- Walks from `s` to `d`, each with the exits that are left. -/
inductive ExitWalks (s d : α) : Exits α → List (List α) → Prop
  | nil {exits : Exits α} : ExitWalks s d exits []
  | cons {exits exits' : Exits α} {walk : List α} {walks : List (List α)} (h : ExitWalk d exits s walk exits')
      (htail : ExitWalks s d exits' walks) : ExitWalks s d exits (walk :: walks)

theorem ExitWalks.unique {s d : α} {exits : Exits α} {walks₁ walks₂ : List (List α)}
    (h₁ : ExitWalks s d exits walks₁) (h₂ : ExitWalks s d exits walks₂)
    (hlen : walks₁.length = walks₂.length) : walks₁ = walks₂ := by
  induction h₁ generalizing walks₂ with
  | nil => exact (List.eq_nil_of_length_eq_zero hlen.symm).symm
  | cons hwalk _ ih =>
      cases h₂ with
      | nil => cases hlen
      | cons hwalk' htail' =>
          obtain ⟨rfl, rfl⟩ := hwalk.unique hwalk'
          rw [ih htail' (Nat.succ.inj hlen)]

/-- **The walks leave their start by its exits, in their order**, also without their loops. -/
theorem ExitWalks.seconds {s d : α} {exits : Exits α} {walks : List (List α)}
    (h : ExitWalks s d exits walks) (hne : s ≠ d) (hs : ∀ w, s ∉ exits w) :
    (walks.map fun walk => (loopErase walk).tail.head?) <+: (exits s).map some := by
  induction h with
  | nil => exact List.nil_prefix
  | cons hwalk _ ih =>
      obtain ⟨u, hfirst, hsecond⟩ := hwalk.second hne hs
      rw [List.map_cons, hfirst, List.map_cons, hsecond, List.prefix_cons_inj]
      exact ih fun w hmem => hs w (hwalk.exits_subset w hmem)

end IronStack.Lib
