import Mathlib.Data.List.Basic

/-!
# Two lists merged into one

Every element of the result comes from one list or the other, and each list keeps
its order. A list is always the merge of what satisfies a predicate and of what
does not, and it is so in one way only.
-/

namespace IronStack.Lib

variable {α : Type}

/-- The third list is made of the other two, each in its order. -/
inductive Merges : List α → List α → List α → Prop
  | nil : Merges [] [] []
  | left {x : α} {xs ys zs : List α} : Merges xs ys zs → Merges (x :: xs) ys (x :: zs)
  | right {y : α} {xs ys zs : List α} : Merges xs ys zs → Merges xs (y :: ys) (y :: zs)

theorem Merges.length_eq {xs ys zs : List α} (h : Merges xs ys zs) :
    zs.length = xs.length + ys.length := by
  induction h with
  | nil => rfl
  | left _ ih => rw [List.length_cons, List.length_cons, ih]; omega
  | right _ ih => rw [List.length_cons, List.length_cons, ih]; omega

theorem Merges.eq_of_nil_right {xs zs : List α} (h : Merges xs [] zs) : zs = xs := by
  generalize hys : ([] : List α) = ys at h
  induction h with
  | nil => rfl
  | left _ ih => rw [ih hys]
  | right _ _ => cases hys

theorem Merges.filter (p : α → Bool) {xs ys zs : List α} (h : Merges xs ys zs) :
    Merges (xs.filter p) (ys.filter p) (zs.filter p) := by
  induction h with
  | nil => exact .nil
  | @left x _ _ _ _ ih =>
      rw [List.filter_cons, List.filter_cons]
      split
      · exact .left ih
      · exact ih
  | @right y _ _ _ _ ih =>
      rw [List.filter_cons, List.filter_cons]
      split
      · exact .right ih
      · exact ih

theorem merges_filter (p : α → Bool) (zs : List α) :
    Merges (zs.filter p) (zs.filter fun z => !p z) zs := by
  induction zs with
  | nil => exact .nil
  | cons z zs ih =>
      cases hz : p z with
      | true =>
          rw [List.filter_cons_of_pos hz, List.filter_cons_of_neg (by simp [hz])]
          exact .left ih
      | false =>
          rw [List.filter_cons_of_neg (by simp [hz]), List.filter_cons_of_pos (by simp [hz])]
          exact .right ih

/-- What is merged with the rejected elements of a list is the accepted ones. -/
theorem Merges.left_eq_filter {p : α → Bool} {xs zs : List α}
    (h : Merges xs (zs.filter fun z => !p z) zs) : xs = zs.filter p := by
  have haccepted : Merges (xs.filter p) [] (zs.filter p) := by
    have hnone : (zs.filter fun z => !p z).filter p = [] := by
      rw [List.filter_filter]
      simp
    have hfilter := h.filter p
    rwa [hnone] at hfilter
  have heq := haccepted.eq_of_nil_right
  -- nothing of `xs` is rejected: there would be too few accepted elements left
  have hlen : (xs.filter p).length = xs.length := by
    have hall := h.length_eq
    have hsplit := (merges_filter p zs).length_eq
    rw [heq] at hsplit
    omega
  rw [heq, List.length_filter_eq_length_iff.mp hlen |> List.filter_eq_self.mpr]

end IronStack.Lib
