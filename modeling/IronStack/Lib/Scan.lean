import Mathlib.Data.List.Basic
import Mathlib.Data.List.Induction
import Mathlib.Data.List.TakeWhile
import Mathlib.Data.Nat.Digits.Defs
import Mathlib.Tactic.IntervalCases

/-!
# Scanning text

Words are taken off the front of a text, as far as their characters go. Of the numbers
that the C library scans only a beginning has to be one: spaces before it are skipped,
a sign is taken, what is behind the digits is left. A number that does not fit a long
word is clamped, a negative one wraps around. A *numeral* is a whole text of digits.
-/

namespace IronStack.Lib

abbrev Text := List Char

/-! ## Strings of C -/

/-- The character that ends a string. -/
def nul : Char := Char.ofNat 0

/-- What the C library finds in a string, which is all of it up to a NUL. -/
def cStr (l : Text) : Text := l.takeWhile (· ≠ nul)

theorem cStr_of_not_mem {l : Text} (h : nul ∉ l) : cStr l = l := by
  rw [cStr, List.takeWhile_eq_self_iff]
  intro c hc
  exact decide_eq_true fun heq : c = nul => h (heq ▸ hc)

/-- A size that is kept as an `int`. -/
def intSize (l : Text) : Int := (UInt32.ofNat l.length).toInt32.toInt

theorem intSize_eq (l : Text) : intSize l = Int.bmod l.length (2 ^ 32) := by
  rw [intSize, Int32.toInt, UInt32.toBitVec_toInt32, BitVec.toInt_eq_toNat_bmod, UInt32.toNat_toBitVec,
    UInt32.toNat_ofNat', Int.natCast_emod, Int.emod_bmod]

theorem intSize_of_lt {l : Text} (h : l.length < 2 ^ 31) : intSize l = l.length := by
  rw [intSize_eq]
  exact Int.bmod_eq_of_le (by omega) (by omega)

/-! ## Words -/

section Words

variable {p : Char → Bool} {word rest : Text}

/-- A word of such characters does not go on here. -/
def Ends (p : Char → Bool) (rest : Text) : Prop := ∀ c ∈ rest.head?, p c = false

theorem ends_nil (p : Char → Bool) : Ends p [] := fun _ hc => by cases hc

theorem ends_cons {c : Char} (h : p c = false) (rest : Text) : Ends p (c :: rest) := by
  intro c' hc'
  obtain rfl := Option.some.inj hc'
  exact h

theorem ends_dropWhile (p : Char → Bool) (l : Text) : Ends p (l.dropWhile p) := by
  intro c hc
  have hhead := List.head?_dropWhile_not p l
  rw [hc] at hhead
  exact hhead

theorem takeWhile_of_ends (h : Ends p rest) : rest.takeWhile p = [] := by
  cases rest with
  | nil => rfl
  | cons c rest => rw [List.takeWhile_cons_of_neg (by rw [h c rfl]; exact Bool.false_ne_true)]

theorem dropWhile_of_ends (h : Ends p rest) : rest.dropWhile p = rest := by
  cases rest with
  | nil => rfl
  | cons c rest => rw [List.dropWhile_cons_of_neg (by rw [h c rfl]; exact Bool.false_ne_true)]

/-- **A word is taken whole**, and nothing behind it. -/
theorem takeWhile_append_of_ends (hword : ∀ c ∈ word, p c = true) (h : Ends p rest) :
    (word ++ rest).takeWhile p = word := by
  rw [List.takeWhile_append_of_pos hword, takeWhile_of_ends h, List.append_nil]

theorem dropWhile_append_of_ends (hword : ∀ c ∈ word, p c = true) (h : Ends p rest) :
    (word ++ rest).dropWhile p = rest := by
  rw [List.dropWhile_append_of_pos hword, dropWhile_of_ends h]

end Words

/-! ## Numerals -/

/-- The number that a text of digits stands for. -/
def numberOf (digits : Text) : Nat := Nat.ofDigitChars 10 digits 0

/-- The number of a whole text, if it is one of digits that is not too large. -/
def numeral (bound : Nat) (l : Text) : Option Nat :=
  if l ≠ [] ∧ l.all Char.isDigit ∧ numberOf l ≤ bound then some (numberOf l) else none

theorem numeral_eq_some {bound n : Nat} {l : Text} :
    numeral bound l = some n ↔ l ≠ [] ∧ l.all Char.isDigit ∧ n ≤ bound ∧ numberOf l = n := by
  rw [numeral]
  split
  · rename_i h
    rw [Option.some_inj]
    exact ⟨fun heq => ⟨h.1, h.2.1, heq ▸ h.2.2, heq⟩, fun heq => heq.2.2.2⟩
  · rename_i h
    exact ⟨nofun, fun ⟨hne, hdigits, hle, heq⟩ => absurd ⟨hne, hdigits, heq ▸ hle⟩ h⟩

/-- A numeral with no zero in front of other digits. -/
def Canonical (l : Text) : Prop :=
  l ≠ [] ∧ (∀ c ∈ l, c.isDigit = true) ∧ (l.head? = some '0' → l = ['0'])

theorem digitChar_of_isDigit {c : Char} (h : c.isDigit = true) :
    (c.toNat - '0'.toNat).digitChar = c ∧ c.toNat - '0'.toNat < 10 := by
  obtain ⟨hlow, hhigh⟩ := Char.isDigit_iff_toNat.mp h
  have hzero : '0'.toNat = 48 := rfl
  have hnine : '9'.toNat = 57 := rfl
  obtain ⟨n, hn⟩ : ∃ n, n = c.toNat - '0'.toNat := ⟨_, rfl⟩
  have hlt : n < 10 := by omega
  have hc : c = Char.ofNat (48 + n) := by
    rw [hn, hzero, Nat.add_sub_cancel' (by omega), Char.ofNat_toNat]
  rw [← hn]
  refine ⟨?_, hlt⟩
  rw [hc]
  interval_cases n <;> rfl

theorem numberOf_append (digits : Text) (c : Char) :
    numberOf (digits ++ [c]) = 10 * numberOf digits + (c.toNat - '0'.toNat) := by
  rw [numberOf, Nat.ofDigitChars_append, Nat.ofDigitChars_cons, Nat.ofDigitChars_nil, numberOf]

/-- Such a numeral is what is written of its number. -/
theorem toDigits_numberOf {l : Text} (h : Canonical l) : Nat.toDigits 10 (numberOf l) = l := by
  induction l using List.reverseRecOn with
  | nil => exact absurd rfl h.1
  | append_singleton digits c ih =>
      obtain ⟨-, hdigits, hzero⟩ := h
      obtain ⟨hchar, hlt⟩ := digitChar_of_isDigit (hdigits c (by simp))
      rw [numberOf_append]
      by_cases hempty : digits = []
      · rw [hempty, numberOf, Nat.ofDigitChars_nil, Nat.mul_zero, Nat.zero_add,
          Nat.toDigits_of_lt_base hlt, hchar, List.nil_append]
      · have hhead : digits.head? ≠ some '0' := by
          intro heq
          have hwhole := hzero (by rw [List.head?_append_of_ne_nil _ hempty, heq])
          have hlen := congrArg List.length hwhole
          rw [List.length_append, List.length_singleton, List.length_singleton] at hlen
          exact hempty (List.length_eq_zero_iff.mp (by omega))
        have hrest := ih ⟨hempty, fun d hd => hdigits d (List.mem_append_left _ hd),
          fun heq => absurd heq hhead⟩
        have hpos : 0 < numberOf digits := by
          refine Nat.pos_of_ne_zero fun hnone => hhead ?_
          rw [← hrest, hnone]
          rfl
        rw [← Nat.toDigits_append_toDigits (by omega) hpos hlt, hrest, Nat.toDigits_of_lt_base hlt,
          hchar]

theorem canonical_toDigits (n : Nat) : Canonical (Nat.toDigits 10 n) := by
  refine ⟨Nat.toDigits_ne_nil, fun c hc => Nat.isDigit_of_mem_toDigits (by omega) (by omega) hc, ?_⟩
  induction n using Nat.strongRecOn with
  | ind n ih =>
      intro hhead
      by_cases hlt : n < 10
      · rw [Nat.toDigits_of_lt_base hlt] at hhead ⊢
        rw [List.head?_cons, Option.some_inj] at hhead
        rw [hhead]
      · -- the first digit is the one of a tenth of the number
        rw [Nat.toDigits_of_base_le (by omega) (by omega),
          List.head?_append_of_ne_nil _ Nat.toDigits_ne_nil] at hhead
        have hnumber := congrArg numberOf (ih (n / 10) (by omega) hhead)
        rw [numberOf, Nat.ofDigitChars_ten_toDigits] at hnumber
        have hzero : numberOf ['0'] = 0 := rfl
        omega

/-- **What is written of a number** is its numeral without zeros in front. -/
theorem eq_toDigits_iff {l : Text} {n : Nat} :
    l = Nat.toDigits 10 n ↔ Canonical l ∧ numberOf l = n := by
  constructor
  · rintro rfl
    exact ⟨canonical_toDigits n, Nat.ofDigitChars_ten_toDigits⟩
  · rintro ⟨hcanonical, rfl⟩
    exact (toDigits_numberOf hcanonical).symm

/-! ## Numbers that are scanned -/

/-- `isspace` -/
def isSpace (c : Char) : Bool := c == ' ' || ('\t' ≤ c && c ≤ '\r')

/-- The sign in front of a number, and whether it is negative. -/
def scanSign : Text → Bool × Text
  | '-' :: rest => (true, rest)
  | '+' :: rest => (false, rest)
  | l => (false, l)

/-- The digits at the front of a text, of which there has to be one, and what is behind them. -/
def scanDigits (l : Text) : Option (Nat × Text) :=
  if l.takeWhile Char.isDigit = [] then none
  else some (numberOf (l.takeWhile Char.isDigit), l.dropWhile Char.isDigit)

/-- A number with its sign, and what is behind it. -/
def scanNumber (l : Text) : Option (Bool × Nat × Text) :=
  let (negative, digits) := scanSign (l.dropWhile isSpace)
  (scanDigits digits).map fun (n, rest) => (negative, n, rest)

/-- `strtoul` of a number in 64 bits. -/
def strtoul (negative : Bool) (n : Nat) : Nat :=
  if 2 ^ 64 ≤ n then 2 ^ 64 - 1 else if negative then (2 ^ 64 - n) % 2 ^ 64 else n

/-- `strtol` of a number in 64 bits. -/
def strtol (negative : Bool) (n : Nat) : Int :=
  if negative then max (-2 ^ 63) (-n) else min (2 ^ 63 - 1) n

/-- The conversion `%u` of `scanf`, before it is stored in fewer bits. -/
def scanUnsigned (l : Text) : Option Nat := (scanNumber l).map fun (negative, n, _) => strtoul negative n

/-- The conversion `%d` of `scanf` into 32 bits, and what is behind it. -/
def scanInt (l : Text) : Option (Int × Text) :=
  (scanNumber l).map fun (negative, n, rest) => (Int.bmod (strtol negative n) (2 ^ 32), rest)

section Digits

variable {digits rest : Text}

theorem isDigit_ne {c : Char} (h : c.isDigit = true) : isSpace c = false ∧ c ≠ '-' ∧ c ≠ '+' := by
  have hc := (Char.isDigit_iff_toNat.mp h).1
  have hne : ∀ d : Char, d.toNat < '0'.toNat → c ≠ d := by
    rintro d hd rfl
    omega
  refine ⟨?_, hne '-' (by decide), hne '+' (by decide)⟩
  have htab : ¬ c ≤ '\r' := by
    intro hle
    have hle' : c.toNat ≤ '\r'.toNat := UInt32.le_iff_toNat_le.mp hle
    have hgap : '\r'.toNat < '0'.toNat := by decide
    omega
  rw [isSpace, beq_eq_false_iff_ne.mpr (hne ' ' (by decide)), decide_eq_false htab, Bool.and_false,
    Bool.or_false]

/-- A number that begins with a digit has no sign in front of it, and is not skipped. -/
theorem scanNumber_of_digits (hne : digits ≠ []) (hdigits : ∀ c ∈ digits, c.isDigit = true)
    (h : Ends Char.isDigit rest) : scanNumber (digits ++ rest) = some (false, numberOf digits, rest) := by
  have hfirst : (digits ++ rest).dropWhile isSpace = digits ++ rest ∧
      scanSign (digits ++ rest) = (false, digits ++ rest) := by
    cases digits with
    | nil => exact absurd rfl hne
    | cons c digits =>
        obtain ⟨hspace, hminus, hplus⟩ := isDigit_ne (hdigits c List.mem_cons_self)
        refine ⟨dropWhile_of_ends (ends_cons hspace _), ?_⟩
        rw [List.cons_append, scanSign]
        · rintro rest' heq
          exact hminus (List.cons.inj heq).1
        · rintro rest' heq
          exact hplus (List.cons.inj heq).1
  rw [scanNumber, hfirst.1, hfirst.2]
  dsimp only
  rw [scanDigits, takeWhile_append_of_ends hdigits h, dropWhile_append_of_ends hdigits h, if_neg hne]
  rfl

/-- **A numeral is scanned** as the number that it is. -/
theorem scanUnsigned_of_numeral {bound n : Nat} {l : Text} (h : numeral bound l = some n)
    (hbound : bound < 2 ^ 64) : scanUnsigned l = some n := by
  obtain ⟨hne, hdigits, hle, rfl⟩ := numeral_eq_some.mp h
  have hscan := scanNumber_of_digits hne (List.all_eq_true.mp hdigits) (ends_nil _)
  rw [List.append_nil] at hscan
  rw [scanUnsigned, hscan, Option.map_some]
  dsimp only
  rw [strtoul, if_neg (by omega), if_neg Bool.false_ne_true]

/-- What is written of a number is scanned as it. -/
theorem scanInt_toDigits {n : Nat} (hn : n < 2 ^ 31) (h : Ends Char.isDigit rest) :
    scanInt (Nat.toDigits 10 n ++ rest) = some ((n : Int), rest) := by
  have hdigits : ∀ c ∈ Nat.toDigits 10 n, c.isDigit = true :=
    fun c hc => Nat.isDigit_of_mem_toDigits (by decide) (by decide) hc
  have hsmall : Int.bmod (min (2 ^ 63 - 1) (n : Int)) (2 ^ 32) = n := by
    rw [min_eq_right (by omega)]
    exact Int.bmod_eq_of_le (by omega) (by omega)
  rw [scanInt, scanNumber_of_digits Nat.toDigits_ne_nil hdigits h, numberOf, Nat.ofDigitChars_ten_toDigits,
    Option.map_some]
  dsimp only
  rw [strtol, if_neg Bool.false_ne_true, hsmall]

end Digits

end IronStack.Lib
