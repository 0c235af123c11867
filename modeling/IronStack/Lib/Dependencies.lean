import Mathlib.Data.Fintype.Order
import Mathlib.Logic.Relation

/-!
# Dependencies

A relation `needs` says what a thing needs before it can be had. A list is in order
if everything in it stands behind what it needs. Where nothing needs itself in the
end there is always something that can be had next, and what has been put in order
cannot need itself.
-/

namespace IronStack.Lib

variable {τ : Type*} {needs : τ → τ → Prop}

/-- Nothing needs itself, directly or through others. -/
def Acyclic (needs : τ → τ → Prop) : Prop := ∀ t, ¬ Relation.TransGen needs t t

/-- Everything in the list stands behind all that it needs. -/
def InOrder (needs : τ → τ → Prop) (l : List τ) : Prop :=
  ∀ pre t post, l = pre ++ t :: post → ∀ u, needs t u → u ∈ pre

theorem inOrder_nil : InOrder needs [] := by
  intro pre t post h
  cases pre <;> cases h

theorem InOrder.snoc {l : List τ} {t : τ} (h : InOrder needs l) (ht : ∀ u, needs t u → u ∈ l) :
    InOrder needs (l ++ [t]) := by
  intro pre t' post heq u hu
  rcases List.eq_nil_or_concat post with rfl | ⟨post, last, rfl⟩
  · obtain ⟨rfl, hlast⟩ := List.append_inj' heq rfl
    rw [List.singleton_inj] at hlast
    exact ht u (hlast ▸ hu)
  · rw [List.concat_eq_append, ← List.cons_append, ← List.append_assoc] at heq
    exact h pre t' post (List.append_inj' heq rfl).1 u hu

/-- What is needed stands further in front. -/
theorem InOrder.idxOf_lt [DecidableEq τ] {l : List τ} (h : InOrder needs l) {t u : τ} (ht : t ∈ l)
    (hu : needs t u) : l.idxOf u < l.idxOf t := by
  obtain ⟨pre, post, rfl, hpre⟩ := List.eq_append_cons_of_mem ht
  have hmem := h pre t post rfl u hu
  rw [List.idxOf_append_of_mem hmem, List.idxOf_append_of_notMem hpre, List.idxOf_cons_self]
  exact Nat.lt_add_right _ (List.idxOf_lt_length_of_mem hmem)

/-- **An order excludes cycles**, if everything that needs something is in it. -/
theorem InOrder.acyclic {l : List τ} (h : InOrder needs l) (hall : ∀ t u, needs t u → t ∈ l) :
    Acyclic needs := by
  classical
  have hdecr : ∀ t u, Relation.TransGen needs t u → l.idxOf u < l.idxOf t := by
    intro t u htu
    induction htu with
    | single hu => exact h.idxOf_lt (hall _ _ hu) hu
    | tail _ hu ih => exact (h.idxOf_lt (hall _ _ hu) hu).trans ih
  intro t hcycle
  exact Nat.lt_irrefl _ (hdecr t t hcycle)

/-- **Without cycles something comes first**: of the things that are left, one needs none of the
others. -/
theorem Acyclic.exists_first [Finite τ] (h : Acyclic needs) {left : List τ} (hne : left ≠ []) :
    ∃ t ∈ left, ∀ u ∈ left, ¬ needs t u := by
  have hwf : WellFounded fun u t => Relation.TransGen needs t u := by
    have htrans : IsTrans τ fun u t => Relation.TransGen needs t u :=
      ⟨fun _ _ _ hba hcb => hcb.trans hba⟩
    have hirrefl : Std.Irrefl fun u t => Relation.TransGen needs t u := ⟨h⟩
    exact Finite.wellFounded_of_trans_of_irrefl _
  obtain ⟨t, ht, hmin⟩ := hwf.has_min {t | t ∈ left} (List.exists_mem_of_ne_nil left hne)
  exact ⟨t, ht, fun u hu hneeds => hmin u hu (.single hneeds)⟩

end IronStack.Lib
