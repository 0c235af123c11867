import Mathlib.Data.List.Basic

/-!
# Runs of a step function

A component is a partial step function `step : σ → ι → Option σ`: what it does
on an input, or `none` where it stops dead (an abort) or the input cannot occur.
A **run** is a chain of transitions of it.

Properties of interest come in two shapes: *an invariant holds in every state a
run reaches*, and *every transition of a run is good*. For a component with a
known defect both are only true of the runs that stay away from it, so the rules
below take a guard on the transitions, and the last one says when such a guard
is exact.
-/

namespace IronStack.Lib

variable {σ ι : Type*}

/-- One transition: where it started, the input, where it ended. -/
structure Transition (σ ι : Type*) where
  source : σ
  input : ι
  target : σ

/-- A relation between any two members of a list, by what stands around them. -/
theorem pairwise_iff_split {α : Type*} {R : α → α → Prop} {l : List α} :
    l.Pairwise R ↔ ∀ before a between b after, l = before ++ a :: between ++ b :: after → R a b := by
  refine ⟨fun h before a between b after heq => ?_, fun h => ?_⟩
  · rw [heq, List.append_assoc, List.cons_append] at h
    have hcons := (List.pairwise_append.mp h).2.1
    exact (List.pairwise_cons.mp hcons).1 b (List.mem_append_right _ List.mem_cons_self)
  · induction l with
    | nil => exact .nil
    | cons a l ih =>
        refine List.pairwise_cons.mpr ⟨fun b hb => ?_, ih fun before x between y after heq => ?_⟩
        · obtain ⟨between, after, rfl⟩ := List.append_of_mem hb
          exact h [] a between b after rfl
        · exact h (a :: before) x between y after (by rw [heq]; rfl)

/-- Something like `E` has happened, and nothing like `K` since. -/
def Unrevoked {α : Type*} (E K : α → Prop) (l : List α) : Prop :=
  ∃ before x after, l = before ++ x :: after ∧ E x ∧ ∀ y ∈ after, ¬ K y

theorem not_unrevoked_nil {α : Type*} {E K : α → Prop} : ¬ Unrevoked E K [] := by
  intro ⟨before, x, after, heq, _⟩
  cases (List.append_eq_nil_iff.mp heq.symm).2

theorem unrevoked_concat {α : Type*} {E K : α → Prop} {l : List α} {x : α} :
    Unrevoked E K (l ++ [x]) ↔ E x ∨ Unrevoked E K l ∧ ¬ K x := by
  refine ⟨fun ⟨before, y, after, heq, hy, hno⟩ => ?_, fun h => ?_⟩
  · rcases List.eq_nil_or_concat after with rfl | ⟨after, z, rfl⟩
    · obtain ⟨_, hlast⟩ := List.append_inj' heq rfl
      rw [List.singleton_inj.mp hlast]
      exact .inl hy
    · rw [List.concat_eq_append, ← List.cons_append, ← List.append_assoc] at heq
      obtain ⟨hl, hlast⟩ := List.append_inj' heq rfl
      rw [List.concat_eq_append, List.forall_mem_append] at hno
      rw [List.singleton_inj.mp hlast]
      exact .inr ⟨⟨before, y, after, hl, hy, hno.1⟩, hno.2 z (List.mem_singleton.mpr rfl)⟩
  · rcases h with h | ⟨⟨before, y, after, rfl, hy, hno⟩, hx⟩
    · exact ⟨l, x, [], rfl, h, fun _ hmem => absurd hmem List.not_mem_nil⟩
    · refine ⟨before, y, after ++ [x], by rw [List.append_assoc]; rfl, hy, ?_⟩
      exact List.forall_mem_append.mpr ⟨hno, fun z hz => List.mem_singleton.mp hz ▸ hx⟩

/-- `Run step s ts s'`: the transitions `ts`, chained, lead from `s` to `s'`. -/
inductive Run (step : σ → ι → Option σ) (s : σ) : List (Transition σ ι) → σ → Prop
  | nil : Run step s [] s
  | snoc {ts : List (Transition σ ι)} {u v : σ} {i : ι} :
      Run step s ts u → step u i = some v → Run step s (ts ++ [⟨u, i, v⟩]) v

/-- Feeding a list of inputs to the step function, keeping the transitions. -/
def record (step : σ → ι → Option σ) (s : σ) : List ι → Option (List (Transition σ ι) × σ)
  | [] => some ([], s)
  | i :: is =>
      match step s i with
      | none => none
      | some v => (record step v is).map fun r => (⟨s, i, v⟩ :: r.1, r.2)

namespace Run

variable {step : σ → ι → Option σ} {s u v : σ} {ts : List (Transition σ ι)}

theorem cons {i : ι} (h : step s i = some u) (hr : Run step u ts v) :
    Run step s (⟨s, i, u⟩ :: ts) v := by
  induction hr with
  | nil => exact show Run step s ([] ++ [_]) u from .snoc .nil h
  | snoc _ hs ih => exact .snoc ih hs

/-- A recorded run is a run. -/
theorem of_record {is : List ι} (h : record step s is = some (ts, v)) : Run step s ts v := by
  induction is generalizing s ts with
  | nil =>
      simp only [record, Option.some.injEq, Prod.mk.injEq] at h
      obtain ⟨rfl, rfl⟩ := h
      exact .nil
  | cons i is ih =>
      rw [record] at h
      split at h
      · exact absurd h (by simp)
      · rename_i w hw
        obtain ⟨⟨ts', v'⟩, hr, heq⟩ := Option.map_eq_some_iff.mp h
        simp only [Prod.mk.injEq] at heq
        obtain ⟨rfl, rfl⟩ := heq
        exact cons hw (ih hr)

/-- A run that can be recorded and passes a test. -/
theorem exists_of_test (step : σ → ι → Option σ) (s : σ) (is : List ι)
    (p : List (Transition σ ι) → σ → Bool)
    (h : ((record step s is).any fun r => p r.1 r.2) = true) :
    ∃ ts v, Run step s ts v ∧ p ts v = true := by
  cases hr : record step s is with
  | none => simp [hr] at h
  | some r => exact ⟨r.1, r.2, of_record hr, by simpa [hr] using h⟩

/-- Every transition of a run is a step. -/
theorem step_of_mem (hr : Run step s ts v) {t : Transition σ ι} (ht : t ∈ ts) :
    step t.source t.input = some t.target := by
  induction hr with
  | nil => exact absurd ht (by simp)
  | snoc _ hs ih =>
      rcases List.mem_append.mp ht with h | h
      · exact ih h
      · rw [List.mem_singleton.mp h]
        exact hs

/-- A run leads up to each of its transitions. -/
theorem before (hr : Run step s ts v) {l l' : List (Transition σ ι)} {t : Transition σ ι}
    (h : ts = l ++ t :: l') : Run step s l t.source := by
  induction hr generalizing l' with
  | nil => exact absurd h (by simp)
  | snoc hr _ ih =>
      rcases List.eq_nil_or_concat l' with rfl | ⟨l', t', rfl⟩
      · obtain ⟨rfl, ht⟩ := List.append_inj' h rfl
        rw [← List.singleton_inj.mp ht]
        exact hr
      · rw [List.concat_eq_append, ← List.cons_append, ← List.append_assoc] at h
        exact ih (List.append_inj' h rfl).1

/-- An invariant that only the steps meeting a guard preserve, over the runs that keep to it. -/
theorem invariant_guarded (Inv : σ → Prop) (ok : σ → ι → Prop) (hr : Run step s ts v)
    (h0 : Inv s) (hstep : ∀ u i v, Inv u → ok u i → step u i = some v → Inv v)
    (hok : ∀ t ∈ ts, ok t.source t.input) :
    Inv v ∧ ∀ t ∈ ts, Inv t.source ∧ Inv t.target := by
  induction hr with
  | nil => exact ⟨h0, by simp⟩
  | snoc _ hs ih =>
      have ih' := ih fun t ht => hok t (List.mem_append_left _ ht)
      have hg := hok _ (List.mem_append_right _ (List.mem_singleton.mpr rfl))
      have hv := hstep _ _ _ ih'.1 hg hs
      refine ⟨hv, ?_⟩
      intro t ht
      rcases List.mem_append.mp ht with h | h
      · exact ih'.2 t h
      · rw [List.mem_singleton.mp h]
        exact ⟨ih'.1, hv⟩

/-- An invariant of the steps is an invariant of the states a run goes through. -/
theorem invariant (Inv : σ → Prop) (hr : Run step s ts v) (h0 : Inv s)
    (hstep : ∀ u i v, Inv u → step u i = some v → Inv v) :
    Inv v ∧ ∀ t ∈ ts, Inv t.source ∧ Inv t.target :=
  hr.invariant_guarded Inv (fun _ _ => True) h0
    (fun u i v hu _ hs => hstep u i v hu hs) fun _ _ => trivial

/--
**A guard that is exact for one step is exact for runs.** Let `Good` be a
property of transitions that keeps a run in `P`. If from any state with the
invariant `Inv` and in `P` a step is good exactly when it meets the guard, then
the transitions of a run are all good exactly when its steps all meet the guard.
Only the steps `within` the ones that the run may take count.
-/
theorem forall_good_iff_within (Inv P : σ → Prop) (within : σ → ι → Prop) {Good : Transition σ ι → Prop}
    {ok : σ → ι → Prop} (hr : Run step s ts v) (h0 : Inv s) (hP : P s)
    (hwithin : ∀ t ∈ ts, within t.source t.input)
    (hinv : ∀ u i v, Inv u → step u i = some v → Inv v)
    (hgood : ∀ u i v, Inv u → P u → within u i → step u i = some v → Good ⟨u, i, v⟩ → P v)
    (hstep : ∀ u i v, Inv u → P u → within u i → step u i = some v → (Good ⟨u, i, v⟩ ↔ ok u i)) :
    (∀ t ∈ ts, Good t) ↔ ∀ t ∈ ts, ok t.source t.input := by
  have key : Inv v ∧ ((∀ t ∈ ts, Good t) → P v) ∧
      ((∀ t ∈ ts, Good t) ↔ ∀ t ∈ ts, ok t.source t.input) := by
    induction hr with
    | nil => exact ⟨h0, fun _ => hP, by simp⟩
    | @snoc ts u v i _ hs ih =>
        obtain ⟨hI, hlast, hiff⟩ := ih fun t ht => hwithin t (List.mem_append_left _ ht)
        have hw : within u i := hwithin ⟨u, i, v⟩ (List.mem_append_right _ (by simp))
        refine ⟨hinv _ _ _ hI hs, fun h => ?_, ?_⟩
        · exact hgood u i v hI (hlast fun t ht => h t (List.mem_append_left _ ht)) hw hs
            (h _ (List.mem_append_right _ (by simp)))
        simp only [List.forall_mem_append, List.forall_mem_singleton]
        refine ⟨?_, ?_⟩
        · intro ⟨hold, hnew⟩
          exact ⟨hiff.mp hold, (hstep _ _ _ hI (hlast hold) hw hs).mp hnew⟩
        · intro ⟨hold, hnew⟩
          have hold' := hiff.mpr hold
          exact ⟨hold', (hstep _ _ _ hI (hlast hold') hw hs).mpr hnew⟩
  exact key.2.2

/-- The same for a run that may take any steps. -/
theorem forall_good_iff (Inv P : σ → Prop) {Good : Transition σ ι → Prop} {ok : σ → ι → Prop}
    (hr : Run step s ts v) (h0 : Inv s) (hP : P s)
    (hinv : ∀ u i v, Inv u → step u i = some v → Inv v)
    (hgood : ∀ u i v, Inv u → P u → step u i = some v → Good ⟨u, i, v⟩ → P v)
    (hstep : ∀ u i v, Inv u → P u → step u i = some v → (Good ⟨u, i, v⟩ ↔ ok u i)) :
    (∀ t ∈ ts, Good t) ↔ ∀ t ∈ ts, ok t.source t.input :=
  hr.forall_good_iff_within Inv P (fun _ _ => True) h0 hP (fun _ _ => trivial) hinv
    (fun u i v hu hp _ hs => hgood u i v hu hp hs) fun u i v hu hp _ hs => hstep u i v hu hp hs

end Run

end IronStack.Lib
