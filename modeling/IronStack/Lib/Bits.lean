import Mathlib.Tactic.Ring

/-!
# Words and prefixes

Two ways in which a word carries more than one thing. Fields share it under masks
that do not overlap; and a *prefix* of it, all but its `n` low bits, stands for
the set of words that agree with it there. Of two such sets the one is contained
in the other when it ignores no more bits, and the two agree where the other looks.
-/

namespace IronStack.Lib

/-! ## Words made of fields -/

/-- A word put together from fields, each a value under a mask. -/
def packFields (fields : List (UInt32 × UInt32)) : UInt32 :=
  fields.foldl (fun w f => w ||| (f.1 &&& f.2)) 0

theorem or_and_mask (a b m : UInt32) : (a ||| b) &&& m = (a &&& m) ||| (b &&& m) := by
  apply UInt32.toBitVec_inj.mp
  ext i hi
  simp [Bool.and_or_distrib_right]

/-- A mask in its place takes the bits that it takes of the word moved. -/
theorem and_shiftLeft (w m shift : UInt32) : w &&& (m <<< shift) = ((w >>> shift) &&& m) <<< shift := by
  apply UInt32.toBitVec_inj.mp
  ext i hi
  by_cases hlow : i < shift.toNat % 32
  · simp [hlow]
  · have hback : shift.toNat % 32 + (i - shift.toNat % 32) = i := by omega
    simp [hlow, hback, BitVec.getLsbD_eq_getElem hi]

theorem foldl_or_and_of_disjoint {fields : List (UInt32 × UInt32)} {m : UInt32}
    (h : ∀ f ∈ fields, f.2 &&& m = 0) (w : UInt32) :
    fields.foldl (fun w f => w ||| (f.1 &&& f.2)) w &&& m = w &&& m := by
  induction fields generalizing w with
  | nil => rfl
  | cons f fields ih =>
      have hf : f.1 &&& f.2 &&& m = 0 := by
        rw [UInt32.and_assoc, h f List.mem_cons_self, UInt32.and_zero]
      rw [List.foldl_cons, ih fun f' hf' => h f' (List.mem_cons_of_mem _ hf'), or_and_mask, hf,
        UInt32.or_zero]

/-- **A field is read back through its mask**, if no two masks share a bit. -/
theorem packFields_and {fields : List (UInt32 × UInt32)}
    (hdisj : fields.Pairwise fun f g => f.2 &&& g.2 = 0) {f : UInt32 × UInt32} (hf : f ∈ fields) :
    packFields fields &&& f.2 = f.1 &&& f.2 := by
  obtain ⟨before, behind, rfl⟩ := List.append_of_mem hf
  obtain ⟨_, htail, hcross⟩ := List.pairwise_append.mp hdisj
  have hbehind : ∀ g ∈ behind, g.2 &&& f.2 = 0 := fun g hg => by
    rw [UInt32.and_comm]
    exact (List.pairwise_cons.mp htail).1 g hg
  have hbefore : ∀ g ∈ before, g.2 &&& f.2 = 0 := fun g hg => hcross g hg f List.mem_cons_self
  rw [packFields, List.foldl_append, List.foldl_cons, foldl_or_and_of_disjoint hbehind, or_and_mask,
    foldl_or_and_of_disjoint hbefore, UInt32.zero_and, UInt32.zero_or, UInt32.and_assoc,
    UInt32.and_self]

/-! ## Prefixes -/

/-- `x` agrees with `a` on all but the `n` low bits. -/
def SamePrefix (n a x : Nat) : Prop := a / 2 ^ n = x / 2 ^ n

instance (n a x : Nat) : Decidable (SamePrefix n a x) := inferInstanceAs (Decidable (_ = _))

theorem SamePrefix.refl (n a : Nat) : SamePrefix n a a := rfl

/-- Words that agree on a longer prefix agree on a shorter one. -/
theorem SamePrefix.mono {n m a x : Nat} (h : SamePrefix n a x) (hnm : n ≤ m) : SamePrefix m a x := by
  obtain ⟨k, rfl⟩ := Nat.exists_eq_add_of_le hnm
  unfold SamePrefix at h ⊢
  rw [Nat.pow_add, ← Nat.div_div_eq_div_mul, ← Nat.div_div_eq_div_mul, h]

/-- Two words of `w` bits that agree on all but the `n` low bits, but not on all but `m < n`. -/
theorem exists_differ_below {w n m a : Nat} (ha : a < 2 ^ w) (hn : n ≤ w) (hmn : m < n) :
    ∃ x y, x < 2 ^ w ∧ y < 2 ^ w ∧ SamePrefix n a x ∧ SamePrefix n a y ∧ ¬ SamePrefix m x y := by
  have hpow : 2 ^ m < 2 ^ n := Nat.pow_lt_pow_right (by decide) hmn
  have hbase : a / 2 ^ n * 2 ^ n + 2 ^ n ≤ 2 ^ w := by
    have hsplit : 2 ^ w = 2 ^ (w - n) * 2 ^ n := by
      rw [← Nat.pow_add, Nat.sub_add_cancel hn]
    have hlt : a / 2 ^ n < 2 ^ (w - n) :=
      Nat.div_lt_of_lt_mul (by rw [Nat.mul_comm, ← hsplit]; exact ha)
    calc a / 2 ^ n * 2 ^ n + 2 ^ n = (a / 2 ^ n + 1) * 2 ^ n := by ring
      _ ≤ 2 ^ (w - n) * 2 ^ n := Nat.mul_le_mul_right _ hlt
      _ = 2 ^ w := hsplit.symm
  have hpos : 0 < 2 ^ m := Nat.two_pow_pos m
  -- the prefix of `a` with all bits clear behind it, and the same with bit `m` set
  refine ⟨a / 2 ^ n * 2 ^ n, a / 2 ^ n * 2 ^ n + 2 ^ m, by omega, by omega, ?_, ?_, ?_⟩
  · unfold SamePrefix
    rw [Nat.mul_div_cancel _ (Nat.two_pow_pos n)]
  · unfold SamePrefix
    rw [Nat.mul_comm, Nat.mul_add_div (Nat.two_pow_pos n), Nat.div_eq_of_lt hpow, Nat.add_zero]
  · unfold SamePrefix
    rw [Nat.add_div_right _ hpos]
    exact (Nat.lt_succ_self _).ne

/-- **When one prefix covers another**, over words of `w` bits. -/
theorem forall_samePrefix_iff {w n m a b : Nat} (ha : a < 2 ^ w) (hn : n ≤ w) :
    (∀ x, x < 2 ^ w → SamePrefix n a x → SamePrefix m b x) ↔ n ≤ m ∧ SamePrefix m b a := by
  refine ⟨?_, ?_⟩
  · intro h
    refine ⟨?_, h a ha (.refl n a)⟩
    by_contra hlt
    obtain ⟨x, y, hx, hy, hax, hay, hxy⟩ := exists_differ_below ha hn (Nat.lt_of_not_le hlt)
    exact hxy ((h x hx hax).symm.trans (h y hy hay))
  · intro ⟨hnm, hba⟩ x _ hax
    exact hba.trans (hax.mono hnm)

end IronStack.Lib
