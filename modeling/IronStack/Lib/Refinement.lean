import Mathlib.Data.List.Basic

/-!
# Refinement of a step function

A component `step : σ → ο → Except ε (σ × ρ)` may fail, and stands for a simpler one that
cannot, `spec : α → ο → α × ρ`, through what each of its states means, `abs : σ → α`. It
*refines* the simpler one on a list of operations if none of them fails, each gives what
the simpler one gives, and every state means the simpler one's.

For a component that does so only under a condition, the rule below leads from one step
to runs: where the condition is exact for a step, it is exact for a run.
-/

namespace IronStack.Lib

variable {σ α ο ρ ε : Type*}

/-- No operation fails, and every state and every result is the simpler component's. -/
def Refines (step : σ → ο → Except ε (σ × ρ)) (spec : α → ο → α × ρ) (abs : σ → α) : σ → α → List ο → Prop
  | s, a, [] => abs s = a
  | s, a, o :: os =>
      abs s = a ∧ ∃ s', step s o = .ok (s', (spec a o).2) ∧ Refines step spec abs s' (spec a o).1 os

/-- Every operation of a list meets a condition in the state it is applied to, as far as they succeed. -/
def Along (step : σ → ο → Except ε (σ × ρ)) (ok : σ → ο → Prop) : σ → List ο → Prop
  | _, [] => True
  | s, o :: os =>
      ok s o ∧
        match step s o with
        | .ok (s', _) => Along step ok s' os
        | .error _ => True

section

variable {step : σ → ο → Except ε (σ × ρ)} {spec : α → ο → α × ρ} {abs : σ → α}

theorem along_cons_of_ok {ok : σ → ο → Prop} {s s' : σ} {o : ο} {r : ρ} {os : List ο}
    (h : step s o = .ok (s', r)) : Along step ok s (o :: os) ↔ ok s o ∧ Along step ok s' os := by
  rw [Along, h]

/--
**A condition that is exact for one step is exact for runs.** `Inv` is what is known of a
state, and `adm` what the operations of the runs in question meet.
-/
theorem refines_iff (Inv : σ → Prop) {adm ok : σ → ο → Prop}
    (hinv : ∀ s o s' r, Inv s → adm s o → ok s o → step s o = .ok (s', r) → Inv s')
    (hstep : ∀ s o, Inv s → adm s o →
      ((∃ s', step s o = .ok (s', (spec (abs s) o).2) ∧ abs s' = (spec (abs s) o).1) ↔ ok s o)) :
    ∀ (os : List ο) (s : σ), Inv s → Along step adm s os →
      (Refines step spec abs s (abs s) os ↔ Along step ok s os)
  | [], _, _, _ => ⟨fun _ => trivial, fun _ => rfl⟩
  | o :: os, s, hs, hadm => by
      have hiff := hstep s o hs hadm.1
      have next : ∀ s', step s o = .ok (s', (spec (abs s) o).2) → abs s' = (spec (abs s) o).1 → ok s o →
          (Refines step spec abs s' (spec (abs s) o).1 os ↔ Along step ok s' os) := by
        intro s' h habs hok
        have hadm' := ((along_cons_of_ok h).mp hadm).2
        rw [← habs]
        exact refines_iff Inv hinv hstep os s' (hinv s o s' _ hs hadm.1 hok h) hadm'
      refine ⟨?_, ?_⟩
      · intro ⟨_, s', h, hrest⟩
        have habs : abs s' = (spec (abs s) o).1 := by
          cases os with
          | nil => exact hrest
          | cons o os => exact hrest.1
        have hok := hiff.mp ⟨s', h, habs⟩
        exact (along_cons_of_ok h).mpr ⟨hok, (next s' h habs hok).mp hrest⟩
      · intro hok
        obtain ⟨s', h, habs⟩ := hiff.mpr hok.1
        have hrest := ((along_cons_of_ok h).mp hok).2
        exact ⟨rfl, s', h, (next s' h habs hok.1).mpr hrest⟩

end

end IronStack.Lib
