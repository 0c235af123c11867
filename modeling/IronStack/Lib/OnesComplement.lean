import Mathlib.Data.Nat.ModEq
import IronStack.Lib.Wire

/-!
# One's-complement sums

Numbers up to `m` (all bits of a word) are added with the carry going round: what
runs over is added back in at the low end. The sum is the plain one modulo `m`, but
that it is 0 only if all that is added is. A sum in a wide register has its carries
folded in at the end instead; two folds do, if it is not as large as the square of a
word. A word next to a sum *verifies* it if both come to all bits.
-/

namespace IronStack.Lib

section Around

variable {m : Nat}

/-- The sum of two numbers, with the carry going round. -/
def addAround (m a b : Nat) : Nat := if a + b ≤ m then a + b else a + b - m

/-- The sum of some numbers, with the carries going round. -/
def sumAround (m : Nat) (words : List Nat) : Nat := words.foldl (addAround m) 0

/-- Adding a number keeps the sum in its width, and it is right but for the carry. -/
theorem addAround_spec {a b : Nat} (ha : a ≤ m) (hb : b ≤ m) :
    addAround m a b ≤ m ∧ addAround m a b ≡ a + b [MOD m] ∧ (addAround m a b = 0 ↔ a + b = 0) := by
  unfold addAround
  split
  · exact ⟨by omega, Nat.ModEq.refl _, Iff.rfl⟩
  · refine ⟨by omega, ?_, by omega⟩
    have hcarry : a + b - m + m ≡ a + b - m [MOD m] := Nat.add_modEq_right
    rw [Nat.sub_add_cancel (by omega)] at hcarry
    exact hcarry.symm

theorem foldl_addAround {words : List Nat} (h : ∀ w ∈ words, w ≤ m) {a : Nat} (ha : a ≤ m) :
    words.foldl (addAround m) a ≤ m ∧ words.foldl (addAround m) a ≡ a + words.sum [MOD m] ∧
      (words.foldl (addAround m) a = 0 ↔ a + words.sum = 0) := by
  induction words generalizing a with
  | nil => exact ⟨ha, Nat.ModEq.refl _, Iff.rfl⟩
  | cons w words ih =>
      obtain ⟨hle, hmod, hzero⟩ := addAround_spec ha (h w List.mem_cons_self)
      obtain ⟨hle', hmod', hzero'⟩ := ih (fun w' hw' => h w' (List.mem_cons_of_mem _ hw')) hle
      rw [List.foldl_cons, List.sum_cons, ← Nat.add_assoc]
      refine ⟨hle', hmod'.trans (hmod.add_right _), ?_⟩
      rw [hzero']
      omega

/-- **A sum comes to all bits** if the words do, modulo all bits, and are not all 0. -/
theorem sumAround_eq_iff {words : List Nat} (h : ∀ w ∈ words, w ≤ m) :
    sumAround m words = m ↔ m ∣ words.sum ∧ (words.sum = 0 → m = 0) := by
  obtain ⟨hle, hmod, hzero⟩ := foldl_addAround h (Nat.zero_le m)
  rw [Nat.zero_add] at hmod hzero
  refine ⟨fun heq => ?_, fun ⟨hdvd, hpos⟩ => ?_⟩
  · rw [sumAround] at heq
    refine ⟨(Nat.modEq_zero_iff_dvd).mp (hmod.symm.trans ?_), fun hsum => ?_⟩
    · rw [heq]
      exact Nat.modEq_zero_iff_dvd.mpr (Nat.dvd_refl m)
    · rw [← heq]
      exact hzero.mpr hsum
  · have hround : m ∣ sumAround m words :=
      Nat.modEq_zero_iff_dvd.mp (hmod.trans (Nat.modEq_zero_iff_dvd.mpr hdvd))
    -- of the two numbers that are 0 modulo all bits, it is not 0
    by_cases hall : sumAround m words = 0
    · rw [hall]
      exact (hpos (hzero.mp hall)).symm
    · exact Nat.le_antisymm hle (Nat.le_of_dvd (Nat.pos_of_ne_zero hall) hround)

/-! ## Carries that are folded in at the end -/

/-- What is above the width of a word is added in below. -/
def foldCarry (m n : Nat) : Nat := n % (m + 1) + n / (m + 1)

theorem foldCarry_modEq (n : Nat) : foldCarry m n ≡ n [MOD m] := by
  have hsplit : n = foldCarry m n + m * (n / (m + 1)) := by
    have h := Nat.mod_add_div n (m + 1)
    rw [Nat.add_mul, Nat.one_mul] at h
    rw [foldCarry]
    omega
  have hmul : foldCarry m n + m * (n / (m + 1)) ≡ foldCarry m n [MOD m] :=
    Nat.add_mul_mod_self_left _ _ _
  rw [← hsplit] at hmul
  exact hmul.symm

/-- **Two folds are enough.** -/
theorem foldCarry_twice_le {n : Nat} (h : n < (m + 1) * (m + 1)) : foldCarry m (foldCarry m n) ≤ m := by
  have hlow : n % (m + 1) < m + 1 := Nat.mod_lt _ (by omega)
  have hhigh : n / (m + 1) < m + 1 := Nat.div_lt_of_lt_mul h
  have honce : foldCarry m n ≤ 2 * m := by
    rw [foldCarry]
    omega
  by_cases hfits : foldCarry m n < m + 1
  · rw [foldCarry, Nat.mod_eq_of_lt hfits, Nat.div_eq_of_lt hfits]
    omega
  · -- one carry is left, and there is room for it
    have hone : foldCarry m n / (m + 1) = 1 := Nat.div_eq_of_lt_le (by omega) (by omega)
    have hrest := Nat.mod_add_div (foldCarry m n) (m + 1)
    rw [hone, Nat.mul_one] at hrest
    rw [foldCarry, hone]
    omega

/-- The complement of a sum is what the sum lacks. -/
theorem add_sub_foldCarry {n : Nat} (h : n < (m + 1) * (m + 1)) :
    n + (m - foldCarry m (foldCarry m n)) ≡ 0 [MOD m] := by
  have htwice := (foldCarry_modEq (foldCarry m n)).trans (foldCarry_modEq n)
  have hle := foldCarry_twice_le h
  have hadd := htwice.symm.add_right (m - foldCarry m (foldCarry m n))
  rw [Nat.add_sub_cancel' hle] at hadd
  exact hadd.trans (Nat.modEq_zero_iff_dvd.mpr (Nat.dvd_refl m))

end Around

/-! ## The words of a record -/

/-- The words of two bytes, the first one higher. The last may lack its second byte, which is then 0. -/
def words16 : Bytes → List Nat
  | x :: y :: rest => (x.toNat * 256 + y.toNat) :: words16 rest
  | [x] => [x.toNat * 256]
  | [] => []

/-- The last byte of a record of odd length, 0 of any other. -/
def oddByte : Bytes → UInt8
  | _ :: _ :: rest => oddByte rest
  | [x] => x
  | [] => 0

/-- **The Internet checksum of a record**, before it is complemented. -/
def internetSum (l : Bytes) : Nat := sumAround 65535 (words16 l)

theorem words16_le (l : Bytes) : ∀ w ∈ words16 l, w ≤ 65535 := by
  fun_induction words16 l with
  | case1 x y rest ih =>
      have hx := UInt8.toNat_lt x
      have hy := UInt8.toNat_lt y
      intro w hw
      rcases List.mem_cons.mp hw with rfl | hw
      · omega
      · exact ih w hw
  | case2 x =>
      have hx := UInt8.toNat_lt x
      intro w hw
      rw [List.mem_singleton.mp hw]
      omega
  | case3 => exact fun w hw => absurd hw (List.not_mem_nil)

theorem sum_words16_le (l : Bytes) : (words16 l).sum ≤ 65535 * ((l.length + 1) / 2) := by
  fun_induction words16 l with
  | case1 x y rest ih =>
      have hx := UInt8.toNat_lt x
      have hy := UInt8.toNat_lt y
      rw [List.sum_cons, List.length_cons, List.length_cons]
      omega
  | case2 x =>
      have hx := UInt8.toNat_lt x
      rw [List.sum_cons, List.sum_nil, List.length_singleton]
      omega
  | case3 => exact Nat.zero_le _

/-- Behind whole words, words go on. -/
theorem words16_append {l : Bytes} (h : l.length % 2 = 0) (r : Bytes) :
    words16 (l ++ r) = words16 l ++ words16 r := by
  fun_induction words16 l with
  | case1 x y rest ih =>
      rw [List.cons_append, List.cons_append, words16,
        ih (by rw [List.length_cons, List.length_cons] at h; omega), List.cons_append]
  | case2 x => exact absurd h (by rw [List.length_singleton]; decide)
  | case3 => rfl

theorem oddByte_append {l : Bytes} (h : l.length % 2 = 0) (r : Bytes) : oddByte (l ++ r) = oddByte r := by
  fun_induction oddByte l with
  | case1 x y rest ih =>
      rw [List.cons_append, List.cons_append, oddByte,
        ih (by rw [List.length_cons, List.length_cons] at h; omega)]
  | case2 x => exact absurd h (by rw [List.length_singleton]; decide)
  | case3 => rfl

/-- A record has no odd byte, or it is the last one. -/
theorem oddByte_eq_ite (l : Bytes) : oddByte l = if l.length % 2 = 1 then l.getLastD 0 else 0 := by
  fun_induction oddByte l with
  | case1 x y rest ih =>
      have hparity : (x :: y :: rest).length % 2 = rest.length % 2 := by
        rw [List.length_cons, List.length_cons]
        omega
      rw [ih, hparity]
      cases rest with
      | nil => rfl
      | cons z rest => rfl
  | case2 x => rfl
  | case3 => rfl

theorem oddByte_eq_zero_iff (l : Bytes) : oddByte l = 0 ↔ l.length % 2 = 0 ∨ l.getLast? = some 0 := by
  rw [oddByte_eq_ite]
  cases l with
  | nil => exact ⟨fun _ => .inl rfl, fun _ => rfl⟩
  | cons x l =>
      rw [List.getLastD_eq_getLast?, List.getLast?_eq_some_getLast (List.cons_ne_nil x l), Option.getD_some,
        Option.some_inj]
      split
      · exact ⟨.inr, fun h => h.resolve_left (by omega)⟩
      · exact ⟨fun _ => .inl (by omega), fun _ => rfl⟩

/-- **The sum of a record with its checksum in it** comes to all bits where it does modulo all bits. -/
theorem internetSum_eq_iff {l : Bytes} (hpos : (words16 l).sum ≠ 0) :
    internetSum l = 65535 ↔ (words16 l).sum ≡ 0 [MOD 65535] := by
  rw [internetSum, sumAround_eq_iff (words16_le l), Nat.modEq_zero_iff_dvd]
  exact ⟨And.left, fun h => ⟨h, fun hzero => absurd hzero hpos⟩⟩

end IronStack.Lib
