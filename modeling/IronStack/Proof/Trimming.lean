import IronStack.Text.StringUtils
import Mathlib.Data.List.DropRight

/-!
# Trimming

The end that the trimmer starts from is the last character, and not the one behind it, so
that a text loses its last character where there are no blanks behind it. What it
returns has none, and trimming it again takes one more: every text gets shorter.

A text is trimmed twice as once only where nothing is left of it; and where nothing should
be left, that is so as long as the loops look at it at all.
-/

namespace IronStack.Proof

open Lib StringUtils

namespace Trimming

/-- A blank, of the kind that is trimmed. -/
def blank (c : Char) : Bool := c == ' '

/-- The text without the maximal runs of blanks in front and behind. -/
def strip (input : Text) : Text := (input.dropWhile blank).rdropWhile blank

/-- The text is trimmed to what is between the blanks, and that is not trimmed any further. -/
def Trims (input : Text) : Prop :=
  trimLeadingAndTrailingWhitespace input = strip input ∧
    trimLeadingAndTrailingWhitespace (trimLeadingAndTrailingWhitespace input) =
      trimLeadingAndTrailingWhitespace input

theorem blank_iff {c : Char} : blank c = true ↔ c = ' ' := beq_iff_eq

theorem strip_eq_nil_iff {input : Text} : strip input = [] ↔ ∀ c ∈ input, c = ' ' := by
  rw [strip, List.rdropWhile_eq_nil_iff]
  constructor
  · intro h c hc
    rw [← List.takeWhile_append_dropWhile (p := blank) (l := input)] at hc
    rcases List.mem_append.mp hc with hfront | hrest
    · exact blank_iff.mp (List.mem_takeWhile_imp hfront)
    · exact blank_iff.mp (h c hrest)
  · intro h c hc
    exact blank_iff.mpr (h c ((List.dropWhile_sublist blank).subset hc))

/-! ## The loops -/

section Loops

variable {input : Text}

/-- The turns of the first loop, where the limit is an `int`. -/
theorem toNat_toInt32 (x : UInt32) : x.toInt32.toInt.toNat = if x.toNat < 2 ^ 31 then x.toNat else 0 := by
  have hx := UInt32.toNat_lt x
  rw [Int32.toInt, UInt32.toBitVec_toInt32, BitVec.toInt_eq_toNat_cond, UInt32.toNat_toBitVec]
  split <;> split <;> omega

/-- The turns of the second loop, where the counter is one. -/
theorem toNat_lastCounter (x : UInt32) : ((x - 1).toInt32.toInt + 1).toNat =
    if 1 ≤ x.toNat ∧ x.toNat ≤ 2 ^ 31 then x.toNat else 0 := by
  have hx := UInt32.toNat_lt x
  have hpred : (x - 1).toNat = if x.toNat = 0 then 2 ^ 32 - 1 else x.toNat - 1 := by
    rw [UInt32.toNat_sub]
    have hone : (1 : UInt32).toNat = 1 := rfl
    rw [hone]
    split <;> omega
  rw [Int32.toInt, UInt32.toBitVec_toInt32, BitVec.toInt_eq_toNat_cond, UInt32.toNat_toBitVec, hpred]
  split <;> split <;> split <;> omega

/-- The end never gets behind the last character. -/
theorem trailingBlanks_le {bound : Nat} : ∀ (turns : Nat) (offsetEnd : UInt32), turns ≤ bound + 1 →
    offsetEnd.toNat ≤ bound → (trailingBlanks input turns offsetEnd).toNat ≤ bound
  | 0, _, _, hend => hend
  | counter + 1, offsetEnd, hturns, hend => by
      rw [trailingBlanks]
      split
      · refine trailingBlanks_le counter _ (by omega) ?_
        rw [UInt32.toNat_ofNat']
        exact (Nat.mod_le _ _).trans (by omega)
      · exact hend

/-- Where all is blank, the end gets to the front. -/
theorem trailingBlanks_blank (h : ∀ c ∈ input, c = ' ') : ∀ turns, 0 < turns → turns ≤ input.length →
    ∀ offsetEnd, trailingBlanks input turns offsetEnd = 0
  | counter + 1, _, hle, offsetEnd => by
      have hread : input[counter]? = some ' ' := by
        rw [List.getElem?_eq_getElem (by omega), h _ (List.getElem_mem _)]
      rw [trailingBlanks, if_pos hread]
      cases counter with
      | zero => rfl
      | succ counter => exact trailingBlanks_blank h (counter + 1) (by omega) (by omega) _

end Loops

section Whole

variable {input : Text}

/-- **A text gets shorter.** -/
theorem trim_length_lt (h : input ≠ []) :
    (trimLeadingAndTrailingWhitespace input).length < input.length := by
  have hpos := List.length_pos_iff.mpr h
  have hend : (trailingBlanks input (((UInt32.ofNat input.length) - 1).toInt32.toInt + 1).toNat
      (UInt32.ofNat (input.length - 1))).toNat ≤ input.length - 1 := by
    refine trailingBlanks_le _ _ ?_ ?_
    · rw [toNat_lastCounter, UInt32.toNat_ofNat']
      have hmod := Nat.mod_le input.length (2 ^ 32)
      split <;> omega
    · rw [UInt32.toNat_ofNat']
      exact Nat.mod_le _ _
  rw [trimLeadingAndTrailingWhitespace, if_neg h]
  dsimp only
  split
  · rename_i hlt
    rw [List.length_take, UInt32.toNat_sub_of_le _ _ (UInt32.le_of_lt hlt)]
    omega
  · exact hpos

/-- **What is returned is trimmed again**, unless there is nothing left. -/
theorem trim_trim_iff : trimLeadingAndTrailingWhitespace (trimLeadingAndTrailingWhitespace input) =
    trimLeadingAndTrailingWhitespace input ↔ trimLeadingAndTrailingWhitespace input = [] := by
  constructor
  · intro h
    by_contra hne
    have hlt := trim_length_lt hne
    rw [h] at hlt
    exact Nat.lt_irrefl _ hlt
  · intro h
    rw [h]
    rfl

/-- Blanks are trimmed to nothing, as long as the second loop looks at them. -/
theorem trim_blank_iff (h : ∀ c ∈ input, c = ' ') : trimLeadingAndTrailingWhitespace input = [] ↔
    input = [] ∨ 1 ≤ input.length % 2 ^ 32 ∧ input.length % 2 ^ 32 ≤ 2 ^ 31 := by
  by_cases hempty : input = []
  · rw [hempty]
    exact ⟨fun _ => .inl rfl, fun _ => rfl⟩
  have hpos := List.length_pos_iff.mpr hempty
  have hmod := Nat.mod_le input.length (2 ^ 32)
  rw [trimLeadingAndTrailingWhitespace, if_neg hempty]
  dsimp only
  rw [toNat_toInt32, toNat_lastCounter, UInt32.toNat_ofNat']
  by_cases hseen : 1 ≤ input.length % 2 ^ 32 ∧ input.length % 2 ^ 32 ≤ 2 ^ 31
  · rw [if_pos hseen, trailingBlanks_blank h _ hseen.1 hmod, if_neg (by simp)]
    exact ⟨fun _ => .inr hseen, fun _ => rfl⟩
  · -- no loop makes a turn, and all but the last character stays
    have hturns : ¬ input.length % 2 ^ 32 < 2 ^ 31 ∨ input.length % 2 ^ 32 = 0 := by omega
    have hfront : (if input.length % 2 ^ 32 < 2 ^ 31 then input.length % 2 ^ 32 else 0) = 0 := by
      split <;> omega
    have hend : (UInt32.ofNat (input.length - 1)).toNat = (input.length - 1) % 2 ^ 32 :=
      UInt32.toNat_ofNat'
    have hlast : 0 < (input.length - 1) % 2 ^ 32 := by omega
    have hlt : (0 : UInt32) < UInt32.ofNat (input.length - 1) := by
      rw [UInt32.lt_iff_toNat_lt, hend]
      exact hlast
    rw [if_neg hseen, hfront, leadingBlanks, trailingBlanks, if_pos hlt]
    refine ⟨fun hnil => ?_, fun hcase => ?_⟩
    · have hlen := congrArg List.length hnil
      rw [List.length_take, List.length_drop, List.length_nil, UInt32.sub_zero, hend] at hlen
      have hzero : (0 : UInt32).toNat = 0 := rfl
      omega
    · rcases hcase with hnil | hseen'
      · exact absurd hnil hempty
      · exact absurd hseen' hseen

/-- **A text is trimmed right exactly where it is all blank**, and not so long that the loops pass
it by. -/
theorem trims_iff : Trims input ↔ (∀ c ∈ input, c = ' ') ∧
    (input = [] ∨ 1 ≤ input.length % 2 ^ 32 ∧ input.length % 2 ^ 32 ≤ 2 ^ 31) := by
  rw [Trims, trim_trim_iff]
  constructor
  · rintro ⟨hstrip, hnil⟩
    have hblank := strip_eq_nil_iff.mp (hstrip.symm.trans hnil)
    exact ⟨hblank, (trim_blank_iff hblank).mp hnil⟩
  · rintro ⟨hblank, hlen⟩
    have hnil := (trim_blank_iff hblank).mpr hlen
    exact ⟨hnil.trans (strip_eq_nil_iff.mpr hblank).symm, hnil⟩

/-- The only character of a text is taken for the end of it. -/
theorem lastCharacter_lost :
    trimLeadingAndTrailingWhitespace ['a'] = [] ∧ strip ['a'] = ['a'] ∧ ¬ Trims ['a'] := by
  have htrim : trimLeadingAndTrailingWhitespace ['a'] = [] := rfl
  have hstrip : strip ['a'] = ['a'] := rfl
  refine ⟨htrim, hstrip, fun h => ?_⟩
  have hsame := h.1
  rw [htrim, hstrip] at hsame
  cases hsame

end Whole

end Trimming

end IronStack.Proof
