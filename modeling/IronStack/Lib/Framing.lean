import Mathlib.Data.List.Basic

/-!
# Messages that begin with their own length

A stream is cut into messages by the header each of them begins with, which says
how long it is. A header that announces less than itself is no message.
-/

namespace IronStack.Lib

/-- How long a header is, and the length it announces for its message. -/
structure Framing (α : Type) where
  header : Nat
  len : List α → Nat
  header_pos : 0 < header
  len_append : ∀ s t, header ≤ s.length → len (s ++ t) = len s

namespace Framing

variable {α : Type} (f : Framing α)

/-- A header that announces less than itself. -/
structure Short (s : List α) : Prop where
  whole : f.header ≤ s.length
  short : f.len s < f.header

/-- The first message of a stream, and the stream behind it. -/
def cut (s : List α) : Option (List α × List α) :=
  if f.header ≤ f.len s ∧ f.len s ≤ s.length then some (s.take (f.len s), s.drop (f.len s))
  else none

/-- The places that cutting comes to, as long as the messages satisfy `ok`. -/
inductive ComesTo (ok : List α → Prop) : List α → List α → Prop where
  | here (s : List α) : ComesTo ok s s
  | next {s m rest r : List α} (hcut : f.cut s = some (m, rest)) (hok : ok m)
      (hrest : ComesTo ok rest r) : ComesTo ok s r

variable {f}

theorem cut_of_le {s : List α} (hlen : f.header ≤ f.len s) (hs : f.len s ≤ s.length) :
    f.cut s = some (s.take (f.len s), s.drop (f.len s)) := if_pos ⟨hlen, hs⟩

theorem Short.cut {s : List α} (h : f.Short s) : f.cut s = none :=
  if_neg fun hc => absurd hc.1 (Nat.not_le.mpr h.short)

/-- A message is as long as it says, and nothing is lost behind it. -/
theorem cut_eq_some_iff {s m rest : List α} :
    f.cut s = some (m, rest) ↔ s = m ++ rest ∧ f.header ≤ m.length ∧ f.len m = m.length := by
  refine ⟨?_, ?_⟩
  · intro h
    unfold Framing.cut at h
    split at h
    · rename_i hle
      cases h
      have hm : (s.take (f.len s)).length = f.len s := List.length_take_of_le hle.2
      have hsplit : s = s.take (f.len s) ++ s.drop (f.len s) := (List.take_append_drop _ _).symm
      have hlen := f.len_append (s.take (f.len s)) (s.drop (f.len s)) (by rw [hm]; exact hle.1)
      rw [← hsplit] at hlen
      exact ⟨hsplit, by rw [hm]; exact hle.1, by rw [hm, ← hlen]⟩
    · exact absurd h (by simp)
  · intro ⟨hs, hheader, hlen⟩
    have hall : f.len s = m.length := by rw [hs, f.len_append m rest hheader, hlen]
    rw [cut_of_le (by rw [hall]; exact hheader) (by rw [hall, hs, List.length_append]; omega), hall,
      hs, List.take_left, List.drop_left]

/-- The messages of a stream leave less and less of it. -/
theorem length_lt_of_cut {s m rest : List α} (h : f.cut s = some (m, rest)) :
    rest.length < s.length := by
  obtain ⟨rfl, hheader, _⟩ := cut_eq_some_iff.mp h
  have hpos := f.header_pos
  rw [List.length_append]
  omega

/-! ## A stream of messages -/

variable (f) in
/-- The messages that a stream is cut into, one after the other, and what is left behind them. -/
inductive Cuts : List α → List (List α) → List α → Prop where
  | nil (s : List α) : Cuts s [] s
  | cons {s m r rest : List α} {ms : List (List α)} (hcut : f.cut s = some (m, r))
      (hrest : Cuts r ms rest) : Cuts s (m :: ms) rest

variable (f) in
/-- A message that is as long as it says. -/
def Whole (m : List α) : Prop := f.header ≤ m.length ∧ f.len m = m.length

/-- **A stream of messages is cut into these messages exactly if each is as long as it says.** -/
theorem cuts_iff {s rest : List α} {ms : List (List α)} :
    f.Cuts s ms rest ↔ s = ms.flatten ++ rest ∧ ∀ m ∈ ms, f.Whole m := by
  induction ms generalizing s with
  | nil =>
      refine ⟨?_, ?_⟩
      · intro h
        cases h
        exact ⟨rfl, fun _ hm => absurd hm List.not_mem_nil⟩
      · rintro ⟨rfl, _⟩
        exact .nil _
  | cons m ms ih =>
      rw [List.flatten_cons, List.append_assoc, List.forall_mem_cons]
      refine ⟨?_, ?_⟩
      · intro h
        cases h with
        | cons hcut hrest =>
            obtain ⟨hs, hwhole⟩ := cut_eq_some_iff.mp hcut
            obtain ⟨rfl, hall⟩ := ih.mp hrest
            exact ⟨hs, hwhole, hall⟩
      · rintro ⟨hs, hwhole, hall⟩
        exact .cons (cut_eq_some_iff.mpr ⟨hs, hwhole⟩) (ih.mpr ⟨rfl, hall⟩)

theorem Cuts.snoc {s m r rest : List α} {ms : List (List α)} (h : f.Cuts s ms r)
    (hcut : f.cut r = some (m, rest)) : f.Cuts s (ms ++ [m]) rest := by
  induction h with
  | nil _ => exact .cons hcut (.nil _)
  | cons hcut' _ ih => exact .cons hcut' (ih hcut)

/-- A stream of whole messages is cut into these and no others. -/
theorem Cuts.rest_of_flatten {s r : List α} {ms ns : List (List α)} (h : f.Cuts s ms r)
    (hs : s = ns.flatten) (hwhole : ∀ n ∈ ns, f.Whole n) : ∃ left, ns = ms ++ left ∧ r = left.flatten := by
  induction h generalizing ns with
  | nil _ => exact ⟨ns, rfl, hs⟩
  | cons hcut _ ih =>
      cases ns with
      | nil =>
          rw [hs] at hcut
          exact absurd (length_lt_of_cut hcut) (Nat.not_lt_zero _)
      | cons n ns =>
          obtain ⟨hn, hns⟩ := List.forall_mem_cons.mp hwhole
          rw [cut_eq_some_iff.mpr ⟨hs, hn⟩] at hcut
          cases hcut
          obtain ⟨left, rfl, hr⟩ := ih rfl hns
          exact ⟨left, rfl, hr⟩

end Framing

end IronStack.Lib
