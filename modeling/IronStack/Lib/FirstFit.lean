import Mathlib.Data.List.Basic

/-!
# Draining a list through a row of acceptors

A list is offered to one acceptor after the other. Each takes elements off the
front for as long as it accepts them and leaves the rest to the next. The
question is when every element ends up with the *first* acceptor that would have
it; the answer is exactly when the list comes sorted by first acceptor.
-/

namespace IronStack.Lib

variable {α : Type*}

/-- What each acceptor takes, and what is left in the end. -/
def drain : List (α → Bool) → List α → List (List α) × List α
  | [], l => ([], l)
  | p :: ps, l => (l.takeWhile p :: (drain ps (l.dropWhile p)).1, (drain ps (l.dropWhile p)).2)

/-- The position of the first acceptor that would have `a`; their number if none would. -/
def firstFit (ps : List (α → Bool)) (a : α) : Nat := ps.findIdx (· a)

/-- The elements come in the order of their first acceptors. -/
def FitOrdered (ps : List (α → Bool)) (l : List α) : Prop :=
  l.Pairwise fun a b => firstFit ps a ≤ firstFit ps b

theorem firstFit_cons_pos {p : α → Bool} {ps : List (α → Bool)} {a : α} (h : p a = true) :
    firstFit (p :: ps) a = 0 := by
  simp [firstFit, List.findIdx_cons, h]

theorem firstFit_cons_neg {p : α → Bool} {ps : List (α → Bool)} {a : α} (h : p a = false) :
    firstFit (p :: ps) a = firstFit ps a + 1 := by
  simp [firstFit, List.findIdx_cons, h]

@[simp] theorem drain_length (ps : List (α → Bool)) (l : List α) :
    (drain ps l).1.length = ps.length := by
  induction ps generalizing l with
  | nil => rfl
  | cons p ps ih => simp [drain, ih]

/-- Nothing is lost: what was taken, in order, followed by what is left, is the list. -/
theorem drain_flatten (ps : List (α → Bool)) (l : List α) :
    (drain ps l).1.flatten ++ (drain ps l).2 = l := by
  induction ps generalizing l with
  | nil => rfl
  | cons p ps ih =>
      simp only [drain, List.flatten_cons, List.append_assoc, ih]
      exact List.takeWhile_append_dropWhile

/-- What an acceptor took was in the list. -/
theorem mem_of_taken {ps : List (α → Bool)} {l : List α} {i : Nat} {taken : List α} {a : α}
    (hi : (drain ps l).1[i]? = some taken) (ha : a ∈ taken) : a ∈ l := by
  rw [← drain_flatten ps l]
  exact List.mem_append_left _ (List.mem_flatten.mpr ⟨taken, List.mem_of_getElem? hi, ha⟩)

/-- In a list ordered for `p :: ps` the elements `p` accepts all stand in front. -/
theorem FitOrdered.drop {p : α → Bool} {ps : List (α → Bool)} {l : List α}
    (h : FitOrdered (p :: ps) l) :
    (∀ a ∈ l.dropWhile p, p a = false) ∧ FitOrdered ps (l.dropWhile p) := by
  induction l with
  | nil => exact ⟨by simp, List.Pairwise.nil⟩
  | cons a l ih =>
      obtain ⟨hle, htl⟩ := List.pairwise_cons.mp h
      by_cases hp : p a = true
      · rw [List.dropWhile_cons_of_pos hp]
        exact ih htl
      · have hp' : p a = false := by simpa using hp
        rw [List.dropWhile_cons_of_neg hp]
        have hall : ∀ b ∈ a :: l, p b = false := by
          intro b hb
          rcases List.mem_cons.mp hb with rfl | hb
          · exact hp'
          · by_contra hc
            have := hle b hb
            rw [firstFit_cons_neg hp', firstFit_cons_pos (by simpa using hc)] at this
            omega
        refine ⟨hall, List.Pairwise.imp_of_mem ?_ h⟩
        intro b c hb hc hbc
        rw [firstFit_cons_neg (hall b hb), firstFit_cons_neg (hall c hc)] at hbc
        omega

/-- An ordered list whose elements all have an acceptor is drained, each element by its first. -/
theorem drain_of_fitOrdered {ps : List (α → Bool)} {l : List α} (h : FitOrdered ps l)
    (hfit : ∀ a ∈ l, ∃ p ∈ ps, p a = true) :
    (drain ps l).2 = [] ∧
      ∀ (i : Nat) (taken : List α), (drain ps l).1[i]? = some taken →
        ∀ a ∈ taken, firstFit ps a = i := by
  induction ps generalizing l with
  | nil =>
      cases l with
      | nil => exact ⟨rfl, by simp [drain]⟩
      | cons a l => exact absurd (hfit a (by simp)) (by simp)
  | cons p ps ih =>
      obtain ⟨hrej, hord⟩ := h.drop
      have hfit' : ∀ a ∈ l.dropWhile p, ∃ q ∈ ps, q a = true := by
        intro a ha
        obtain ⟨q, hq, hqa⟩ := hfit a ((List.dropWhile_sublist p).subset ha)
        rcases List.mem_cons.mp hq with rfl | hq
        · rw [hrej a ha] at hqa
          exact absurd hqa (by simp)
        · exact ⟨q, hq, hqa⟩
      obtain ⟨hleft, htaken⟩ := ih hord hfit'
      refine ⟨hleft, ?_⟩
      intro i taken hi a ha
      cases i with
      | zero =>
          simp only [drain, List.getElem?_cons_zero, Option.some.injEq] at hi
          subst hi
          exact firstFit_cons_pos (List.all_eq_true.mp List.all_takeWhile a ha)
      | succ i =>
          simp only [drain, List.getElem?_cons_succ] at hi
          rw [firstFit_cons_neg (hrej a (mem_of_taken hi ha)), htaken i taken hi a ha]

/-- Conversely, if each acceptor took only what it is the first to accept, the list was ordered. -/
theorem fitOrdered_of_drain {ps : List (α → Bool)} {l : List α} (hleft : (drain ps l).2 = [])
    (htaken : ∀ (i : Nat) (taken : List α), (drain ps l).1[i]? = some taken →
      ∀ a ∈ taken, firstFit ps a = i) :
    FitOrdered ps l := by
  have hl : (drain ps l).1.flatten = l := by
    have := drain_flatten ps l
    rwa [hleft, List.append_nil] at this
  unfold FitOrdered
  rw [← hl, List.pairwise_flatten]
  refine ⟨?_, ?_⟩
  · intro taken hmem
    obtain ⟨i, hi⟩ := List.mem_iff_getElem?.mp hmem
    refine List.pairwise_of_forall_mem_list ?_
    intro a ha b hb
    have hfa := htaken i taken hi a ha
    have hfb := htaken i taken hi b hb
    omega
  · rw [List.pairwise_iff_getElem]
    intro i j hi hj hij a ha b hb
    have hfa := htaken i _ (List.getElem?_eq_getElem hi) a ha
    have hfb := htaken j _ (List.getElem?_eq_getElem hj) b hb
    omega

/-- **Every element goes to its first acceptor exactly when the list is ordered.** -/
theorem drain_firstFit_iff {ps : List (α → Bool)} {l : List α}
    (hfit : ∀ a ∈ l, ∃ p ∈ ps, p a = true) :
    ((drain ps l).2 = [] ∧ ∀ (i : Nat) (taken : List α), (drain ps l).1[i]? = some taken →
        ∀ a ∈ taken, firstFit ps a = i) ↔ FitOrdered ps l :=
  ⟨fun h => fitOrdered_of_drain h.1 h.2, fun h => drain_of_fitOrdered h hfit⟩

end IronStack.Lib
