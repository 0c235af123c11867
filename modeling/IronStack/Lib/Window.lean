import Mathlib.Algebra.Order.Ring.Nat
import Mathlib.Data.List.Basic

/-!
# The newest of a series

A counter that is read again and again gives a series of counts, here with the newest
one first, so that a window over it is a prefix. The differences of consecutive counts
telescope: over a window they add up to what the counter has gained in it.
-/

namespace IronStack.Lib

/-! ## Differences -/

/-- By how much each count exceeds the one before it. The first has none, and exceeds it by nothing. -/
def differences : List Nat → List Nat
  | [] => []
  | count :: older => (count - older.headD count) :: differences older

/-- The count just before the `k` newest ones, or the first one if these are all. -/
def countBefore (k : Nat) (past : List Nat) : Nat := (past.drop k).headD (past.getLastD 0)

theorem countBefore_succ (k count d : Nat) (older : List Nat) :
    countBefore (k + 1) (count :: d :: older) = countBefore k (d :: older) := by
  unfold countBefore
  rw [List.drop_succ_cons]
  rfl

/-- A counter that only grows was not above its newest count before. -/
theorem countBefore_le {past : List Nat} (k : Nat) (h : past.Pairwise (· ≥ ·)) :
    countBefore k past ≤ past.headD 0 := by
  induction past generalizing k with
  | nil => simp [countBefore]
  | cons count older ih =>
      cases k with
      | zero => exact Nat.le_refl _
      | succ k =>
          cases older with
          | nil => simp [countBefore]
          | cons d older =>
              obtain ⟨hle, htail⟩ := List.pairwise_cons.mp h
              rw [countBefore_succ]
              have hd : countBefore k (d :: older) ≤ d := ih k htail
              exact Nat.le_trans hd (hle d List.mem_cons_self)

/-- **The differences in a window add up to what the counter has gained in it.** -/
theorem sum_take_differences {past : List Nat} (k : Nat) (h : past.Pairwise (· ≥ ·)) :
    ((differences past).take k).sum = past.headD 0 - countBefore k past := by
  induction past generalizing k with
  | nil => simp [differences]
  | cons count older ih =>
      cases k with
      | zero => simp [countBefore]
      | succ k =>
          cases older with
          | nil => simp [differences, countBefore]
          | cons d older =>
              obtain ⟨hle, htail⟩ := List.pairwise_cons.mp h
              have hgain : count ≥ d := hle d List.mem_cons_self
              have hsum := ih k htail
              have hbefore := countBefore_le k htail
              rw [List.headD_cons] at hsum hbefore
              rw [differences, List.take_succ_cons, List.sum_cons, hsum, countBefore_succ,
                List.headD_cons, List.headD_cons]
              omega

end IronStack.Lib
