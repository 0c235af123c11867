import IronStack.Switch.SwitchCommander

/-!
# Lists of ports

A list of ports is numbers and ranges with commas between them. The ones that count from
zero are read, and one is added to each. Much else is read besides: a number with
anything behind it, one with a blank or a sign before it, one that does not fit in 16
bits, and commas in a row. The loop over a range never ends if the range ends at the
largest number of 16 bits, as its counter has no number to stop at.
-/

namespace IronStack.Proof.NumberSet

open IronStack Lib SwitchCommander StringUtils

/-- The largest number of a port, so that one more still has 16 bits. -/
abbrev maxPort : Nat := 65534

/-- A number or a range. -/
inductive Item : Text → Nat → Nat → Prop
  | number {t : Text} {n : Nat} : numeral maxPort t = some n → Item t n n
  | range {s t : Text} {a b : Nat} : numeral maxPort s = some a → numeral maxPort t = some b →
      Item (s ++ '-' :: t) a b

/-- Numbers and ranges with commas between them, and what they are. -/
inductive Listing : Text → List (Nat × Nat) → Prop
  | empty : Listing [] []
  | last {t : Text} {a b : Nat} : Item t a b → Listing t [(a, b)]
  | cons {t rest : Text} {a b : Nat} {items : List (Nat × Nat)} :
      Item t a b → rest ≠ [] → Listing rest items → Listing (t ++ ',' :: rest) ((a, b) :: items)

/-- A number of a range, with one added. -/
def Shifted (item : Nat × Nat) (x : UInt16) : Prop := item.1 + 1 ≤ x.toNat ∧ x.toNat ≤ item.2 + 1

theorem shifted_self {a : Nat} {x : UInt16} : Shifted (a, a) x ↔ x.toNat = a + 1 := by
  simp only [Shifted]
  omega

theorem shifted_first {a b : Nat} {x : UInt16} (h : a ≤ b) :
    Shifted (a, b) x ↔ x.toNat = a + 1 ∨ Shifted (a + 1, b) x := by
  simp only [Shifted]
  omega

theorem not_shifted {a b : Nat} (x : UInt16) (h : b < a) : ¬Shifted (a, b) x := by
  simp only [Shifted]
  omega

/-- What is read of a list of ports, and that nothing else is read. -/
structure Reads (input : Text) (outcome : Bool × Finset UInt16) : Prop where
  succeeds : outcome.1 = true ↔ ∃ items, Listing input items
  result : ∀ items, Listing input items → ∀ x, x ∈ outcome.2 ↔ ∃ item ∈ items, Shifted item x

/-! ## Tokens -/

section Tokens

variable {separators word rest current : Text}

/-- A word without separators goes into the token. -/
theorem tokenizeFrom_word (h : ∀ c ∈ word, c ∉ separators) :
    tokenizeFrom separators current (word ++ rest) = tokenizeFrom separators (current ++ word) rest := by
  induction word generalizing current with
  | nil => rw [List.nil_append, List.append_nil]
  | cons c word ih =>
      obtain ⟨hc, hword⟩ := List.forall_mem_cons.mp h
      have hnot : (!separators.contains c) = true := by simpa using hc
      rw [List.cons_append, tokenizeFrom, if_pos hnot, ih hword, List.append_assoc]
      rfl

theorem tokenize_word {sep : Char} (hne : word ≠ []) (h : sep ∉ word) : tokenize word [sep] = [word] := by
  have hword : ∀ c ∈ word, c ∉ [sep] := by
    intro c hc hmem
    rw [List.mem_singleton.mp hmem] at hc
    exact h hc
  have hrun := @tokenizeFrom_word [sep] word [] [] hword
  rw [List.append_nil] at hrun
  rw [tokenize, if_neg (List.cons_ne_nil _ _), hrun, tokenizeFrom]
  exact if_pos (List.length_pos_iff.mpr hne)

theorem tokenize_cons {sep : Char} (hne : word ≠ []) (h : sep ∉ word) :
    tokenize (word ++ sep :: rest) [sep] = word :: tokenize rest [sep] := by
  have hword : ∀ c ∈ word, c ∉ [sep] := by
    intro c hc hmem
    rw [List.mem_singleton.mp hmem] at hc
    exact h hc
  rw [tokenize, if_neg (List.cons_ne_nil _ _), tokenizeFrom_word hword, List.nil_append, tokenizeFrom,
    if_neg (by simp), if_pos (List.length_pos_iff.mpr hne), tokenize, if_neg (List.cons_ne_nil _ _)]

end Tokens

/-! ## One token -/

/-- What is scanned of a token, if it is scanned. -/
def scanToken (token : Text) : Option (UInt16 × UInt16) :=
  if '-' ∉ token then (scanPort token).map fun v => (v, v) else scanRange token

/-- A range that ends at the largest number of 16 bits. -/
def Endless (token : Text) : Prop := '-' ∈ token ∧ ∃ vlanStart, scanRange token = some (vlanStart, 65535)

/-- The numeral of a port is scanned as it is. -/
theorem scanPort_numeral {t : Text} {n : Nat} (h : numeral maxPort t = some n) :
    scanPort t = some (UInt16.ofNat n) := by
  rw [scanPort, scanUnsigned_of_numeral h (by decide), Option.map_some]

theorem minus_notMem_numeral {t : Text} {n : Nat} (h : numeral maxPort t = some n) : '-' ∉ t := by
  intro hmem
  have hdigit := List.all_eq_true.mp (numeral_eq_some.mp h).2.1 '-' hmem
  cases hdigit

theorem comma_notMem_numeral {t : Text} {n : Nat} (h : numeral maxPort t = some n) : ',' ∉ t := by
  intro hmem
  have hdigit := List.all_eq_true.mp (numeral_eq_some.mp h).2.1 ',' hmem
  cases hdigit

theorem Item.ne_nil {t : Text} {a b : Nat} (h : Item t a b) : t ≠ [] := by
  cases h with
  | number hn => exact (numeral_eq_some.mp hn).1
  | range hs ht => simp

theorem Item.comma_notMem {t : Text} {a b : Nat} (h : Item t a b) : ',' ∉ t := by
  cases h with
  | number hn => exact comma_notMem_numeral hn
  | range hs ht => simp [comma_notMem_numeral hs, comma_notMem_numeral ht]

theorem Item.le_maxPort {t : Text} {a b : Nat} (h : Item t a b) : a ≤ maxPort ∧ b ≤ maxPort := by
  cases h with
  | number hn =>
      have hle := (numeral_eq_some.mp hn).2.2.1
      exact ⟨hle, hle⟩
  | range hs ht => exact ⟨(numeral_eq_some.mp hs).2.2.1, (numeral_eq_some.mp ht).2.2.1⟩

/-- **An item is scanned** as what it is. -/
theorem Item.scanToken_eq {t : Text} {a b : Nat} (h : Item t a b) :
    scanToken t = some (UInt16.ofNat a, UInt16.ofNat b) := by
  cases h with
  | number hn => rw [scanToken, if_pos (minus_notMem_numeral hn), scanPort_numeral hn, Option.map_some]
  | @range s t _ _ hs ht =>
      have hminus : ¬ '-' ∉ s ++ '-' :: t := by simp
      obtain ⟨hne, hdigits, hle, rfl⟩ := numeral_eq_some.mp hs
      have hends : Ends Char.isDigit ('-' :: t) := ends_cons rfl t
      have hscan := scanNumber_of_digits hne (List.all_eq_true.mp hdigits) hends
      have hlong : strtoul false (numberOf s) = numberOf s := by
        have hsmall : numberOf s ≤ 65534 := hle
        rw [strtoul, if_neg (by omega), if_neg Bool.false_ne_true]
      rw [scanToken, if_neg hminus, scanRange, hscan]
      change (scanPort t).map _ = _
      rw [scanPort_numeral ht, hlong]
      rfl

/-! ## The loop over a range -/

/-- Enough turns for any range that ends. -/
abbrev enough : Nat := 2 ^ 16

theorem toNat_succ {counter : UInt16} (h : counter.toNat < 65535) :
    (counter + 1).toNat = counter.toNat + 1 := by
  rw [UInt16.toNat_add]
  exact Nat.mod_eq_of_lt (by change counter.toNat + 1 < 2 ^ 16; omega)

/-- No counter of 16 bits is beyond the largest number. -/
theorem insertRange_endless (fuel : Nat) (counter : UInt16) (result : Finset UInt16) :
    insertRange fuel counter 65535 result = none := by
  induction fuel generalizing counter result with
  | zero => rfl
  | succ fuel ih =>
      have hle : counter ≤ 65535 := by
        have hlt := UInt16.toNat_lt counter
        exact UInt16.le_iff_toNat_le.mpr (show counter.toNat ≤ 65535 by omega)
      rw [insertRange, if_pos hle]
      exact ih _ _

/-- **Any other range is inserted**, in as many turns as it has numbers, and one more. -/
theorem insertRange_of_lt {vlanEnd : UInt16} (hend : vlanEnd.toNat < 65535) (turns : Nat) :
    ∀ (counter : UInt16) (result : Finset UInt16), vlanEnd.toNat + 1 ≤ counter.toNat + turns →
      ∃ s, (∀ fuel > turns, insertRange fuel counter vlanEnd result = some s) ∧
        ∀ x, x ∈ s ↔ x ∈ result ∨ Shifted (counter.toNat, vlanEnd.toNat) x := by
  induction turns with
  | zero =>
      intro counter result hturns
      refine ⟨result, ?_, ?_⟩
      · intro fuel hfuel
        obtain ⟨fuel, rfl⟩ := Nat.exists_eq_succ_of_ne_zero (Nat.pos_iff_ne_zero.mp hfuel)
        have hgt : ¬counter ≤ vlanEnd := by
          rw [UInt16.le_iff_toNat_le]
          omega
        rw [insertRange, if_neg hgt]
      · intro x
        have hnone := not_shifted x (show vlanEnd.toNat < counter.toNat by omega)
        rw [or_iff_left hnone]
  | succ turns ih =>
      intro counter result hturns
      by_cases hle : counter ≤ vlanEnd
      · have hle' : counter.toNat ≤ vlanEnd.toNat := UInt16.le_iff_toNat_le.mp hle
        have hsucc := toNat_succ (show counter.toNat < 65535 by omega)
        obtain ⟨s, hrun, hmem⟩ := ih (counter + 1) (insert (counter + 1) result) (by omega)
        refine ⟨s, ?_, ?_⟩
        · intro fuel hfuel
          obtain ⟨fuel, rfl⟩ := Nat.exists_eq_succ_of_ne_zero (show fuel ≠ 0 by omega)
          rw [insertRange, if_pos hle]
          exact hrun fuel (by omega)
        · intro x
          have hfirst : x = counter + 1 ↔ x.toNat = counter.toNat + 1 := by
            rw [← hsucc, UInt16.toNat_inj]
          rw [hmem, Finset.mem_insert, hfirst, shifted_first hle', hsucc, or_comm (a := x.toNat = _),
            or_assoc]
      · refine ⟨result, ?_, ?_⟩
        · intro fuel hfuel
          obtain ⟨fuel, rfl⟩ := Nat.exists_eq_succ_of_ne_zero (show fuel ≠ 0 by omega)
          rw [insertRange, if_neg hle]
        · intro x
          rw [UInt16.le_iff_toNat_le, Nat.not_le] at hle
          rw [or_iff_left (not_shifted x hle)]

/-! ## The loop over the tokens -/

theorem insertToken_none {token : Text} (h : scanToken token = none) (fuel : Nat) (result : Finset UInt16) :
    insertToken fuel token result = some (false, result) := by
  rw [scanToken] at h
  rw [insertToken]
  split at h
  · rename_i hminus
    rw [if_pos hminus, Option.map_eq_none_iff.mp h]
  · rename_i hminus
    rw [if_neg hminus, h]

theorem insertToken_endless {token : Text} (h : Endless token) (fuel : Nat) (result : Finset UInt16) :
    insertToken fuel token result = none := by
  obtain ⟨hminus, vlanStart, hscan⟩ := h
  rw [insertToken, if_neg (not_not_intro hminus), hscan]
  dsimp only
  rw [insertRange_endless, Option.map_none]

/-- A token that is scanned and ends is inserted; its numbers are, if none is the largest one. -/
theorem insertToken_some {token : Text} {a b : UInt16} (h : scanToken token = some (a, b))
    (hends : ¬Endless token) (result : Finset UInt16) :
    ∃ s, (∀ fuel ≥ enough, insertToken fuel token result = some (true, s)) ∧
      (b.toNat < 65535 → ∀ x, x ∈ s ↔ x ∈ result ∨ Shifted (a.toNat, b.toNat) x) := by
  rw [scanToken] at h
  split at h
  · rename_i hminus
    obtain ⟨v, hv, heq⟩ := Option.map_eq_some_iff.mp h
    have ha : v = a := congrArg Prod.fst heq
    have hb : v = b := congrArg Prod.snd heq
    subst ha hb
    refine ⟨insert (v + 1) result, ?_, ?_⟩
    · intro fuel _
      rw [insertToken, if_pos hminus, hv]
    intro hlt x
    rw [Finset.mem_insert, shifted_self, ← toNat_succ hlt, UInt16.toNat_inj, or_comm]
  · rename_i hminus
    have hlt : b.toNat < 65535 := by
      have hbound := UInt16.toNat_lt b
      have hne : b.toNat ≠ 65535 := by
        intro heq
        have hb : b = 65535 := UInt16.toNat_inj.mp heq
        rw [hb] at h
        exact hends ⟨not_not.mp hminus, a, h⟩
      omega
    obtain ⟨s, hrun, hmem⟩ := insertRange_of_lt hlt 65535 a result (by omega)
    refine ⟨s, ?_, fun _ => hmem⟩
    intro fuel hfuel
    rw [insertToken, if_neg hminus, h]
    dsimp only
    rw [hrun fuel (Nat.lt_of_lt_of_le (by decide) hfuel), Option.map_some]

/-- A token that is scanned does not end the loop. -/
theorem insertToken_ne_false {token : Text} {range : UInt16 × UInt16} (h : scanToken token = some range)
    (fuel : Nat) (result s : Finset UInt16) : insertToken fuel token result ≠ some (false, s) := by
  intro hfalse
  rw [scanToken] at h
  rw [insertToken] at hfalse
  split at h
  · rename_i hminus
    obtain ⟨v, hv, _⟩ := Option.map_eq_some_iff.mp h
    rw [if_pos hminus, hv] at hfalse
    cases hfalse
  · rename_i hminus
    rw [if_neg hminus, h] at hfalse
    obtain ⟨_, _, heq⟩ := Option.map_eq_some_iff.mp hfalse
    cases heq

/-- Some token cannot be scanned, and no range that never ends stands before it. -/
def Rejects : List Text → Prop
  | [] => False
  | token :: tokens => scanToken token = none ∨ ¬Endless token ∧ Rejects tokens

/-- **The loop comes to an end with false** only if a token is rejected. -/
theorem rejects_of_false {tokens : List Text} {fuel : Nat} {result s : Finset UInt16}
    (h : insertTokens fuel tokens result = some (false, s)) : Rejects tokens := by
  induction tokens generalizing result with
  | nil => cases h
  | cons token tokens ih =>
      cases hscan : scanToken token with
      | none => exact .inl hscan
      | some range =>
          have hends : ¬Endless token := by
            intro hendless
            rw [insertTokens, insertToken_endless hendless] at h
            cases h
          rw [insertTokens] at h
          split at h
          · cases h
          · rename_i hfalse
            exact absurd hfalse (insertToken_ne_false hscan fuel _ _)
          · exact .inr ⟨hends, ih h⟩

theorem exists_false_of_rejects {tokens : List Text} (h : Rejects tokens) (result : Finset UInt16) :
    ∃ s, insertTokens enough tokens result = some (false, s) := by
  induction tokens generalizing result with
  | nil => exact h.elim
  | cons token tokens ih =>
      cases hscan : scanToken token with
      | none =>
          refine ⟨result, ?_⟩
          rw [insertTokens, insertToken_none hscan]
      | some range =>
          rcases h with h | ⟨hends, h⟩
          · rw [hscan] at h
            cases h
          · obtain ⟨s', hrun, _⟩ := insertToken_some (a := range.1) (b := range.2) hscan hends result
            rw [insertTokens, hrun enough (Nat.le_refl _)]
            exact ih h s'

/-- A range that never ends, and no token before it that cannot be scanned. -/
def Hangs : List Text → Prop
  | [] => False
  | token :: tokens => Endless token ∨ scanToken token ≠ none ∧ Hangs tokens

theorem insertTokens_of_hangs {tokens : List Text} (h : Hangs tokens) (fuel : Nat)
    (result : Finset UInt16) : insertTokens fuel tokens result = none := by
  induction tokens generalizing result with
  | nil => exact h.elim
  | cons token tokens ih =>
      rw [insertTokens]
      rcases h with h | ⟨hscan, h⟩
      · rw [insertToken_endless h]
      · obtain ⟨range, hscan⟩ := Option.ne_none_iff_exists'.mp hscan
        split
        · rfl
        · rename_i hfalse
          exact absurd hfalse (insertToken_ne_false hscan fuel _ _)
        · exact ih h _

/-- **The loop comes to an end**, and soon enough, unless it hangs. -/
theorem insertTokens_enough_ne_none {tokens : List Text} (h : ¬Hangs tokens) (result : Finset UInt16) :
    insertTokens enough tokens result ≠ none := by
  induction tokens generalizing result with
  | nil => exact Option.some_ne_none _
  | cons token tokens ih =>
      have hends : ¬Endless token := fun hendless => h (.inl hendless)
      rw [insertTokens]
      cases hscan : scanToken token with
      | none =>
          rw [insertToken_none hscan]
          exact Option.some_ne_none _
      | some range =>
          have hnone : scanToken token ≠ none := by
            rw [hscan]
            exact Option.some_ne_none _
          obtain ⟨s, hrun, _⟩ := insertToken_some (a := range.1) (b := range.2) hscan hends result
          rw [hrun enough (Nat.le_refl _)]
          exact ih (fun hhangs => h (.inr ⟨hnone, hhangs⟩)) s

/-- An item is inserted. -/
theorem Item.insertToken_eq {t : Text} {a b : Nat} (h : Item t a b) (result : Finset UInt16) :
    ∃ s, (∀ fuel ≥ enough, insertToken fuel t result = some (true, s)) ∧
      ∀ x, x ∈ s ↔ x ∈ result ∨ Shifted (a, b) x := by
  obtain ⟨ha, hb⟩ : a ≤ 65534 ∧ b ≤ 65534 := h.le_maxPort
  have hscan := h.scanToken_eq
  have htoNat : ∀ n ≤ 65534, (UInt16.ofNat n).toNat = n := by
    intro n hn
    rw [UInt16.toNat_ofNat']
    exact Nat.mod_eq_of_lt (by omega)
  have hlast : (UInt16.ofNat b).toNat < 65535 := by
    rw [htoNat b hb]
    omega
  have hends : ¬Endless t := by
    rintro ⟨hminus, vlanStart, hrange⟩
    rw [scanToken, if_neg (not_not_intro hminus), hrange] at hscan
    have heq : (65535 : UInt16) = UInt16.ofNat b := congrArg Prod.snd (Option.some.inj hscan)
    rw [← heq] at hlast
    exact Nat.lt_irrefl _ hlast
  obtain ⟨s, hrun, hmem⟩ := insertToken_some hscan hends result
  have hmem := hmem hlast
  rw [htoNat a ha, htoNat b hb] at hmem
  exact ⟨s, hrun, hmem⟩

/-- **A list of ports is read**, and its numbers are inserted. -/
theorem insertTokens_of_listing {input : Text} {items : List (Nat × Nat)} (h : Listing input items)
    (result : Finset UInt16) :
    ∃ s, (∀ fuel ≥ enough, insertTokens fuel (tokenize input [',']) result = some (true, s)) ∧
      ∀ x, x ∈ s ↔ x ∈ result ∨ ∃ item ∈ items, Shifted item x := by
  induction h generalizing result with
  | empty => exact ⟨result, fun _ _ => rfl, fun x => by simp⟩
  | last ht =>
      obtain ⟨s, hrun, hmem⟩ := ht.insertToken_eq result
      refine ⟨s, ?_, fun x => by simp [hmem]⟩
      intro fuel hfuel
      rw [tokenize_word ht.ne_nil ht.comma_notMem, insertTokens, hrun fuel hfuel]
      rfl
  | @cons t rest a b items ht _ _ ih =>
      obtain ⟨s', hrun, hmem⟩ := ht.insertToken_eq result
      obtain ⟨s, hrun', hmem'⟩ := ih s'
      refine ⟨s, ?_, ?_⟩
      · intro fuel hfuel
        rw [tokenize_cons ht.ne_nil ht.comma_notMem, insertTokens, hrun fuel hfuel]
        exact hrun' fuel hfuel
      · intro x
        rw [hmem', hmem, List.exists_mem_cons_iff, or_assoc]

/--
**Lists of ports are told from other texts** exactly where a text is such a list, or a
token of it cannot be scanned, and no range that never ends stands before that token.
-/
theorem reads_iff (input : Text) :
    (∃ fuel outcome, stringToNumberSet fuel input = some outcome ∧ Reads input outcome) ↔
      (∃ items, Listing input items) ∨ Rejects (tokenize input [',']) := by
  refine ⟨?_, ?_⟩
  · rintro ⟨fuel, outcome, hrun, hreads⟩
    obtain ⟨success, s⟩ := outcome
    cases success with
    | true => exact .inl (hreads.succeeds.mp rfl)
    | false => exact .inr (rejects_of_false hrun)
  · intro h
    by_cases hlist : ∃ items, Listing input items
    · obtain ⟨items, hlist⟩ := hlist
      obtain ⟨s, hrun, _⟩ := insertTokens_of_listing hlist ∅
      have hrun := hrun enough (Nat.le_refl _)
      refine ⟨enough, (true, s), hrun, ⟨fun _ => ⟨items, hlist⟩, fun _ => rfl⟩, ?_⟩
      intro items' hlist' x
      obtain ⟨s', hrun', hmem⟩ := insertTokens_of_listing hlist' ∅
      have hsame := hrun.symm.trans (hrun' enough (Nat.le_refl _))
      cases hsame
      rw [hmem, or_iff_right (Finset.notMem_empty x)]
    · rcases h with h | h
      · exact absurd h hlist
      · obtain ⟨s, hrun⟩ := exists_false_of_rejects h ∅
        refine ⟨enough, (false, s), hrun, ⟨?_, fun h => absurd h hlist⟩, ?_⟩
        · intro hfalse
          cases hfalse
        · intro items hitems
          exact absurd ⟨items, hitems⟩ hlist

/-- A range up to the largest number is no list of ports, and its loop never ends. -/
theorem endlessRange_fails : ¬∃ fuel outcome, stringToNumberSet fuel "65534-65535".toList = some outcome ∧
    Reads "65534-65535".toList outcome := by
  rintro ⟨fuel, outcome, hrun, _⟩
  have htokens : tokenize "65534-65535".toList [','] = ["65534-65535".toList] := by decide
  have hscan : Endless "65534-65535".toList := ⟨by decide, 65534, by decide +kernel⟩
  rw [stringToNumberSet, htokens, insertTokens, insertToken_endless hscan] at hrun
  cases hrun

end IronStack.Proof.NumberSet
