import Mathlib.Data.List.Chain
import Mathlib.Tactic.Linarith

/-!
# Stamps of a clock and a bounded counter

Events are stamped with the largest time that a clock has shown, and with a number
that counts the events since then. The number has a bound, at which it starts again
from 0. Stamps are compared in lexicographic order; they increase for as long as the
clock moves on at least once in as many events as there are numbers.
-/

namespace IronStack.Lib

/-- The largest time that has been shown, and how many events there were since it was shown first. -/
structure Stamp where
  time : Nat
  number : Nat
deriving DecidableEq

namespace Stamp

/-- The lexicographic order. -/
def Before (a b : Stamp) : Prop := a.time < b.time ∨ a.time = b.time ∧ a.number < b.number

theorem Before.trans {a b c : Stamp} (hab : Before a b) (hbc : Before b c) : Before a c := by
  rcases hab with hab | ⟨hab, hab'⟩
  · rcases hbc with hbc | ⟨hbc, _⟩
    · exact .inl (hab.trans hbc)
    · exact .inl (hbc ▸ hab)
  · rcases hbc with hbc | ⟨hbc, hbc'⟩
    · exact .inl (hab ▸ hbc)
    · exact .inr ⟨hab.trans hbc, hab'.trans hbc'⟩

instance : IsTrans Stamp Before := ⟨fun _ _ _ => Before.trans⟩

/-- The stamp of the next event. -/
def next (bound : Nat) (s : Stamp) (now : Nat) : Stamp :=
  if s.time < now then ⟨now, 0⟩ else ⟨s.time, (s.number + 1) % bound⟩

/-- The last stamp, after events at some times. -/
def last (bound : Nat) (times : List Nat) : Stamp := times.foldl (next bound) ⟨0, 0⟩

/-- The stamps of events at some times. -/
def all (bound : Nat) (s : Stamp) : List Nat → List Stamp
  | [] => []
  | now :: times => s.next bound now :: all bound (s.next bound now) times

theorem last_append (bound : Nat) (times : List Nat) (now : Nat) :
    last bound (times ++ [now]) = (last bound times).next bound now := List.foldl_concat ..

theorem all_append (bound : Nat) (s : Stamp) (times : List Nat) (now : Nat) :
    all bound s (times ++ [now]) = all bound s times ++ [(times.foldl (next bound) s).next bound now] := by
  induction times generalizing s with
  | nil => rfl
  | cons t times ih => exact congrArg _ (ih (s.next bound t))

end Stamp

/-! ## What the clock shows -/

/-- The largest time shown. -/
def top (times : List Nat) : Nat := times.foldl max 0

/-- How many events there were since the largest time was shown first. -/
def idle (times : List Nat) : Nat :=
  (times.foldl (fun s now => if s.1 < now then (now, 0) else (s.1, s.2 + 1)) (0, 0)).2

theorem top_append (times : List Nat) (now : Nat) : top (times ++ [now]) = max (top times) now :=
  List.foldl_concat ..

theorem idle_append (times : List Nat) (now : Nat) :
    idle (times ++ [now]) = if top times < now then 0 else idle times + 1 := by
  have hfst : (times.foldl (fun s now => if s.1 < now then (now, 0) else (s.1, s.2 + 1)) (0, 0)).1 =
    top times := by
    induction times using List.reverseRecOn with
    | nil => rfl
    | append_singleton times t ih =>
        rw [top_append, List.foldl_concat, ih]
        split
        · omega
        · omega
  rw [idle, List.foldl_concat, hfst]
  split
  · rfl
  · rfl

theorem lt_top_iff {t : Nat} {times : List Nat} : top times < t ↔ 0 < t ∧ ∀ u ∈ times, u < t := by
  induction times using List.reverseRecOn with
  | nil => exact ⟨fun h => ⟨h, fun _ hu => absurd hu List.not_mem_nil⟩, fun h => h.1⟩
  | append_singleton times u ih =>
      rw [top_append, Nat.max_lt, ih, List.forall_mem_append, List.forall_mem_singleton]
      exact and_assoc

/-- The last events of an idle stretch. -/
theorem exists_of_le_idle {n : Nat} {times : List Nat} (h : n ≤ idle times) :
    ∃ before stretch, times = before ++ stretch ∧ stretch.length = n ∧ ∀ t ∈ stretch, t ≤ top before := by
  induction times using List.reverseRecOn generalizing n with
  | nil =>
      obtain rfl : n = 0 := Nat.le_zero.mp h
      exact ⟨[], [], rfl, rfl, fun _ ht => absurd ht List.not_mem_nil⟩
  | append_singleton times now ih =>
      cases n with
      | zero =>
          exact ⟨times ++ [now], [], (List.append_nil _).symm, rfl,
            fun _ ht => absurd ht List.not_mem_nil⟩
      | succ n =>
          rw [idle_append] at h
          split at h
          · omega
          · rename_i hnow
            obtain ⟨before, stretch, rfl, hlen, hle⟩ := ih (Nat.le_of_succ_le_succ h)
            have htop : ∀ l : List Nat, (∀ t ∈ l, t ≤ top before) → top (before ++ l) = top before := by
              intro l
              induction l using List.reverseRecOn with
              | nil => intro _; rw [List.append_nil]
              | append_singleton l t ihl =>
                  intro hl
                  rw [List.forall_mem_append, List.forall_mem_singleton] at hl
                  rw [← List.append_assoc, top_append, ihl hl.1, Nat.max_eq_left hl.2]
            rw [htop stretch hle] at hnow
            refine ⟨before, stretch ++ [now], List.append_assoc .., by rw [List.length_append, hlen]; rfl, ?_⟩
            rw [List.forall_mem_append, List.forall_mem_singleton]
            exact ⟨hle, Nat.not_lt.mp hnow⟩

/-- Events that do not get beyond the largest time are idle. -/
theorem le_idle {before stretch : List Nat} (h : ∀ t ∈ stretch, t ≤ top before) :
    stretch.length ≤ idle (before ++ stretch) ∧ top (before ++ stretch) = top before := by
  induction stretch using List.reverseRecOn with
  | nil => exact ⟨Nat.zero_le _, congrArg top (List.append_nil _)⟩
  | append_singleton stretch t ih =>
      rw [List.forall_mem_append, List.forall_mem_singleton] at h
      obtain ⟨hlen, htop⟩ := ih h.1
      rw [← List.append_assoc, idle_append, top_append, htop, if_neg (Nat.not_lt.mpr h.2), List.length_append]
      exact ⟨Nat.succ_le_succ hlen, Nat.max_eq_left h.2⟩

/-! ## Stamps increase -/

/-- The counter never starts again. -/
def Busy (bound : Nat) (times : List Nat) : Prop :=
    ∀ before after, times = before ++ after → idle before < bound

theorem Busy.idle_lt {bound : Nat} {times : List Nat} (h : Busy bound times) : idle times < bound :=
  h times [] (List.append_nil _).symm

theorem Busy.of_append {bound : Nat} {times l : List Nat} (h : Busy bound (times ++ l)) : Busy bound times :=
  fun before after heq => h before (after ++ l) (by rw [heq, List.append_assoc])

/-- It is busy exactly if among any `bound` events in a row one is at a time larger than all before. -/
theorem busy_iff {bound : Nat} {times : List Nat} :
    Busy bound times ↔ ∀ before stretch after, times = before ++ stretch ++ after → stretch.length = bound →
      ∃ t ∈ stretch, 0 < t ∧ ∀ u ∈ before, u < t := by
  refine ⟨fun h before stretch after heq hlen => ?_, fun h before after heq => ?_⟩
  · by_contra hnone
    have hle : ∀ t ∈ stretch, t ≤ top before :=
      fun t ht => Nat.not_lt.mp fun hlt => hnone ⟨t, ht, lt_top_iff.mp hlt⟩
    have hidle := h (before ++ stretch) after heq
    have hlong := (le_idle hle).1
    omega
  · by_contra hidle
    obtain ⟨before', stretch, rfl, hlen, hle⟩ := exists_of_le_idle (Nat.not_lt.mp hidle)
    obtain ⟨t, ht, hlt⟩ := h before' stretch after heq hlen
    exact Nat.not_lt.mpr (hle t ht) (lt_top_iff.mpr hlt)

theorem time_last (bound : Nat) (times : List Nat) : (Stamp.last bound times).time = top times := by
  induction times using List.reverseRecOn with
  | nil => rfl
  | append_singleton times now ih =>
      rw [Stamp.last_append, Stamp.next, top_append, ih]
      split
      · exact (Nat.max_eq_right (Nat.le_of_lt ‹_›)).symm
      · exact (Nat.max_eq_left (Nat.not_lt.mp ‹_›)).symm

/-- As long as the counter has not started again it counts the idle events. -/
theorem Busy.number_last {bound : Nat} {times : List Nat} (h : Busy bound times) :
    (Stamp.last bound times).number = idle times := by
  induction times using List.reverseRecOn with
  | nil => rfl
  | append_singleton times now ih =>
      have hnow := h.idle_lt
      rw [idle_append] at hnow
      rw [Stamp.last_append, Stamp.next, idle_append, time_last, ih h.of_append]
      split
      · rfl
      · rename_i hle
        rw [if_neg hle] at hnow
        exact Nat.mod_eq_of_lt hnow

/-- The next stamp is later unless the counter starts again. -/
theorem Busy.before_next_iff {bound : Nat} {times : List Nat} (h : Busy bound times) (now : Nat) :
    (Stamp.last bound times).Before ((Stamp.last bound times).next bound now) ↔
      idle (times ++ [now]) < bound := by
  have hidle := h.idle_lt
  rw [Stamp.next, idle_append, time_last]
  split
  · rename_i hlt
    refine ⟨fun _ => by omega, fun _ => .inl ?_⟩
    rw [time_last]
    exact hlt
  · rw [Stamp.Before, h.number_last, time_last]
    refine ⟨fun hbefore => ?_, fun hlt => .inr ⟨rfl, ?_⟩⟩
    · rcases hbefore with hbefore | ⟨_, hbefore⟩
      · exact absurd hbefore (Nat.lt_irrefl _)
      · by_contra hwrap
        have heq : idle times + 1 = bound := by omega
        rw [heq, Nat.mod_self] at hbefore
        exact Nat.not_lt_zero _ hbefore
    · show idle times < (idle times + 1) % bound
      rw [Nat.mod_eq_of_lt hlt]
      exact Nat.lt_succ_self _

theorem last_mem_all {bound : Nat} {times : List Nat} (h : times ≠ []) :
    Stamp.last bound times ∈ Stamp.all bound ⟨0, 0⟩ times := by
  obtain ⟨times, now, rfl⟩ := List.eq_nil_or_concat times |>.resolve_left h
  rw [List.concat_eq_append, Stamp.all_append, Stamp.last_append]
  exact List.mem_append_right _ (List.mem_singleton.mpr rfl)

/-- In a busy history every stamp is the last one, or before it. -/
theorem Busy.increasing {bound : Nat} {times : List Nat} (h : Busy bound times) :
    (Stamp.all bound ⟨0, 0⟩ times).Pairwise Stamp.Before ∧
      ∀ a ∈ Stamp.all bound ⟨0, 0⟩ times, a = Stamp.last bound times ∨ a.Before (Stamp.last bound times) := by
  induction times using List.reverseRecOn with
  | nil => exact ⟨.nil, fun _ ha => absurd ha List.not_mem_nil⟩
  | append_singleton times now ih =>
      obtain ⟨hpairwise, hlast⟩ := ih h.of_append
      have hnext := (h.of_append.before_next_iff now).mpr h.idle_lt
      have hbefore : ∀ a ∈ Stamp.all bound ⟨0, 0⟩ times,
          a.Before ((Stamp.last bound times).next bound now) := by
        intro a ha
        rcases hlast a ha with rfl | ha
        · exact hnext
        · exact ha.trans hnext
      rw [Stamp.all_append, Stamp.last_append]
      refine ⟨List.pairwise_append.mpr ⟨hpairwise, List.pairwise_singleton .., fun a ha b hb => ?_⟩,
        fun a ha => ?_⟩
      · rw [List.mem_singleton.mp hb]
        exact hbefore a ha
      · rcases List.mem_append.mp ha with ha | ha
        · exact .inr (hbefore a ha)
        · exact .inl (List.mem_singleton.mp ha)

/--
**Stamps increase exactly when the clock moves on often enough**: when among any
`bound` events in a row there is one at a time that is larger than every time before.
-/
theorem increasing_iff {bound : Nat} (hbound : 1 < bound) {times : List Nat} :
    (Stamp.all bound ⟨0, 0⟩ times).Pairwise Stamp.Before ↔ Busy bound times := by
  refine ⟨fun h => ?_, fun h => h.increasing.1⟩
  induction times using List.reverseRecOn with
  | nil =>
      intro before after heq
      rw [(List.append_eq_nil_iff.mp heq.symm).1]
      exact Nat.lt_trans Nat.zero_lt_one hbound
  | append_singleton times now ih =>
      rw [Stamp.all_append] at h
      obtain ⟨hpairwise, _, hlater⟩ := List.pairwise_append.mp h
      have hbusy := ih hpairwise
      have hidle : idle (times ++ [now]) < bound := by
        by_cases hnil : times = []
        · subst hnil
          show idle ([] ++ [now]) < bound
          rw [idle_append]
          split
          · omega
          · exact hbound
        · refine (hbusy.before_next_iff now).mp ?_
          exact hlater _ (last_mem_all hnil) _ (List.mem_singleton.mpr rfl)
      intro before after heq
      rcases List.eq_nil_or_concat after with rfl | ⟨after, t, rfl⟩
      · rw [← List.append_nil before, ← heq]
        exact hidle
      · rw [List.concat_eq_append, ← List.append_assoc] at heq
        exact hbusy before after (List.append_inj' heq rfl).1

end IronStack.Lib
