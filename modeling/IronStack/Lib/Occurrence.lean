import Mathlib.Data.List.Infix
import Mathlib.Data.Nat.Find

/-!
# Where a list first ends with another

A list is read from the front until what has been read ends with a token. There is such a
place if the token is somewhere in the list, and then there is one first place.
-/

namespace IronStack.Lib

variable {α : Type*}

/-- What has been read up to a place ends with the token. -/
structure EndsAt (token l : List α) (k : Nat) : Prop where
  within : k ≤ l.length
  suffix : token <:+ l.take k

/-- It does, for the first time. -/
structure FirstEnd (token l : List α) (k : Nat) : Prop where
  ends : EndsAt token l k
  first : ∀ j < k, ¬ EndsAt token l j

variable {token l : List α} {j k : Nat}

theorem EndsAt.length_le (h : EndsAt token l k) : token.length ≤ k := by
  have hle := h.suffix.length_le
  rw [List.length_take_of_le h.within] at hle
  exact hle

/-- The part before the place is as long as the token, and is the token. -/
theorem endsAt_iff (hk : k ≤ l.length) :
    EndsAt token l k ↔ (l.take k).drop (k - token.length) = token := by
  have hlen : (l.take k).length = k := List.length_take_of_le hk
  refine ⟨?_, ?_⟩
  · intro h
    have hdrop := List.suffix_iff_eq_drop.mp h.suffix
    rw [hlen] at hdrop
    exact hdrop.symm
  · intro h
    refine ⟨hk, ?_⟩
    rw [← h]
    exact List.drop_suffix _ _

theorem exists_endsAt_iff : (∃ k, EndsAt token l k) ↔ token <:+: l := by
  refine ⟨?_, ?_⟩
  · intro ⟨k, h⟩
    exact h.suffix.isInfix.trans (List.take_prefix k l).isInfix
  · rintro ⟨before, after, rfl⟩
    refine ⟨(before ++ token).length, (List.prefix_append _ after).length_le, ?_⟩
    rw [List.take_left]
    exact List.suffix_append before token

theorem exists_firstEnd_iff : (∃ k, FirstEnd token l k) ↔ token <:+: l := by
  classical
  rw [← exists_endsAt_iff]
  refine ⟨?_, ?_⟩
  · intro ⟨k, h⟩
    exact ⟨k, h.ends⟩
  · intro h
    exact ⟨Nat.find h, Nat.find_spec h, fun _ hlt => Nat.find_min h hlt⟩

theorem FirstEnd.unique (hj : FirstEnd token l j) (hk : FirstEnd token l k) : j = k := by
  rcases Nat.lt_trichotomy j k with hlt | heq | hlt
  · exact absurd hj.ends (hk.first j hlt)
  · exact heq
  · exact absurd hk.ends (hj.first k hlt)

end IronStack.Lib
