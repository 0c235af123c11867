import Mathlib.Data.List.Basic
import Mathlib.Data.List.Induction
import Mathlib.Order.Lattice

/-!
# Remembering the latest of something

A register keeps the latest value that it was offered, until it forgets it. What was
offered counts as known as long as the register keeps something as late.
-/

namespace IronStack.Lib

/-- What can happen to a register. -/
inductive Offer (V : Type*) where
  | offer (v : V)
  | forget

variable {V : Type*} [LinearOrder V]

/-- A later value takes the place of an earlier one. -/
def keepLatest : Option V → Offer V → Option V
  | none, .offer v => some v
  | some w, .offer v => if w < v then some v else some w
  | _, .forget => none

theorem keepLatest_forget (w : Option V) : keepLatest w .forget = none := by
  cases w with
  | none => rfl
  | some w => rfl

/-- What is kept in the end. -/
def latest (es : List (Offer V)) : Option V := es.foldl keepLatest none

theorem latest_append (es : List (Offer V)) (e : Offer V) : latest (es ++ [e]) = keepLatest (latest es) e :=
  List.foldl_concat ..

/-- Something as late was offered, and has not been forgotten since. -/
def Known (es : List (Offer V)) (v : V) : Prop :=
  ∃ before w after, es = before ++ .offer w :: after ∧ v ≤ w ∧ Offer.forget ∉ after

theorem known_append_offer {es : List (Offer V)} {v w : V} :
    Known (es ++ [.offer w]) v ↔ v ≤ w ∨ Known es v := by
  refine ⟨fun ⟨before, u, after, heq, hle, hno⟩ => ?_, fun h => ?_⟩
  · rcases List.eq_nil_or_concat after with rfl | ⟨after, e, rfl⟩
    · obtain ⟨_, hlast⟩ := List.append_inj' heq rfl
      obtain rfl : w = u := Offer.offer.inj (List.singleton_inj.mp hlast)
      exact .inl hle
    · rw [List.concat_eq_append, ← List.cons_append, ← List.append_assoc] at heq
      obtain ⟨hes, _⟩ := List.append_inj' heq rfl
      rw [List.concat_eq_append, List.mem_append, not_or] at hno
      exact .inr ⟨before, u, after, hes, hle, hno.1⟩
  · rcases h with h | ⟨before, u, after, rfl, hle, hno⟩
    · exact ⟨es, w, [], rfl, h, List.not_mem_nil⟩
    · refine ⟨before, u, after ++ [.offer w], by simp, hle, ?_⟩
      rw [List.mem_append, not_or]
      exact ⟨hno, by simp⟩

theorem not_known_append_forget {es : List (Offer V)} {v : V} : ¬ Known (es ++ [.forget]) v := by
  intro ⟨before, w, after, heq, _, hno⟩
  rcases List.eq_nil_or_concat after with rfl | ⟨after, e, rfl⟩
  · obtain ⟨_, hlast⟩ := List.append_inj' heq rfl
    cases hlast
  · rw [List.concat_eq_append, ← List.cons_append, ← List.append_assoc] at heq
    obtain ⟨_, hlast⟩ := List.append_inj' heq rfl
    rw [List.concat_eq_append, ← List.singleton_inj.mp hlast] at hno
    exact hno (List.mem_append_right _ (List.mem_singleton.mpr rfl))

/-- **The register tells what is known.** -/
theorem known_iff {es : List (Offer V)} {v : V} : Known es v ↔ ∃ w, latest es = some w ∧ v ≤ w := by
  induction es using List.reverseRecOn with
  | nil =>
      refine ⟨fun ⟨before, w, after, heq, _⟩ => ?_, fun ⟨w, hw, _⟩ => nomatch hw⟩
      cases List.append_eq_nil_iff.mp heq.symm |>.2
  | append_singleton es e ih =>
      rw [latest_append]
      cases e with
      | forget =>
          rw [keepLatest_forget]
          exact ⟨fun h => absurd h not_known_append_forget, fun ⟨_, hw, _⟩ => nomatch hw⟩
      | offer u =>
          rw [known_append_offer, ih]
          cases hlast : latest es with
          | none =>
              refine ⟨fun h => ?_, fun ⟨w, hw, hle⟩ => .inl ?_⟩
              · rcases h with h | ⟨_, hnone, _⟩
                · exact ⟨u, rfl, h⟩
                · cases hnone
              · rw [Option.some.inj hw]
                exact hle
          | some t =>
              rw [keepLatest]
              split
              · rename_i hlt
                refine ⟨fun h => ⟨u, rfl, ?_⟩, fun ⟨w, hw, hle⟩ => .inl ?_⟩
                · rcases h with h | ⟨w, hw, hle⟩
                  · exact h
                  · rw [← Option.some.inj hw] at hle
                    exact hle.trans hlt.le
                · rw [Option.some.inj hw]
                  exact hle
              · rename_i hge
                refine ⟨fun h => ⟨t, rfl, ?_⟩, fun ⟨w, hw, hle⟩ => .inr ⟨w, hw, hle⟩⟩
                rcases h with h | ⟨w, hw, hle⟩
                · exact h.trans (not_lt.mp hge)
                · rw [← Option.some.inj hw] at hle
                  exact hle

end IronStack.Lib
