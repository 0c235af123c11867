import IronStack.Text.StringUtils
import Mathlib.Data.List.TakeWhile

/-!
# Pairs of a key and a value in a text

A text *spells* a sequence of pairs if it is made up of them, with blanks around the keys,
the signs and the values. The splitter finds the pairs of such a text as far as they are
words. It ends at the first wildcard, which it takes for an empty value. A number that a
value is the *literal* of is read as what it is.
-/

namespace IronStack.Proof

open Lib StringUtils

namespace KeyValues

/-- What a key is, and a value other than the wildcard. -/
def IsWord (l : Text) : Prop := l ≠ [] ∧ ∀ c ∈ l, isWord c = true

def Blank (l : Text) : Prop := ∀ c ∈ l, isWhitespace c = true

/-- The value `*`. -/
def wildcard : Text := ['*']

/-- The text is the sequence of pairs. -/
inductive Spells : Text → List KeyValue → Prop where
  | nil {blank : Text} : Blank blank → Spells blank []
  | cons {front key behindKey behindSign value rest : Text} {kv : List KeyValue} : Blank front → IsWord key →
      Blank behindKey → Blank behindSign → value = wildcard ∨ IsWord value →
      (∀ c ∈ rest.head?, isWhitespace c = true) → Spells rest kv →
      Spells (front ++ (key ++ (behindKey ++ '=' :: (behindSign ++ (value ++ rest))))) ((key, value) :: kv)

/-- The pairs that are seen of a sequence. -/
def seen : List KeyValue → List KeyValue
  | [] => []
  | (key, value) :: kv => if value = wildcard then [(key, [])] else (key, value) :: seen kv

theorem seen_eq_self {kv : List KeyValue} (h : ∀ p ∈ kv, p.2 ≠ wildcard) : seen kv = kv := by
  induction kv with
  | nil => rfl
  | cons p kv ih =>
      rw [seen, if_neg (h p List.mem_cons_self), ih (fun q hq => h q (List.mem_cons_of_mem _ hq))]

/-! ## Blanks and words -/

theorem not_isWord_of_isWhitespace {c : Char} (h : isWhitespace c = true) : isWord c = false := by
  simp only [isWhitespace, Bool.or_eq_true, beq_iff_eq] at h
  rcases h with ((rfl | rfl) | rfl) | rfl <;> rfl

theorem not_isWhitespace_of_isWord {c : Char} (h : isWord c = true) : isWhitespace c = false := by
  by_contra hne
  rw [Bool.not_eq_false] at hne
  rw [not_isWord_of_isWhitespace hne] at h
  exact Bool.false_ne_true h

theorem ends_isWord {rest : Text} (h : ∀ c ∈ rest.head?, isWhitespace c = true) : Ends isWord rest :=
  fun c hc => not_isWord_of_isWhitespace (h c hc)

theorem isWord_append_ends {word : Text} (h : IsWord word) (rest : Text) :
    Ends isWhitespace (word ++ rest) := by
  obtain ⟨hne, hword⟩ := h
  cases word with
  | nil => exact absurd rfl hne
  | cons c word => exact ends_cons (not_isWhitespace_of_isWord (hword c List.mem_cons_self)) _

theorem not_isWord_wildcard : ¬ IsWord wildcard := fun h => Bool.false_ne_true (h.2 '*' List.mem_cons_self)

/-! ## One turn of the splitter -/

section Turn

variable {front key behindKey behindSign value rest : Text}

/-- Up to the sign. -/
theorem nextPair_of_key (hfront : Blank front) (hkey : IsWord key) (hbehind : Blank behindKey)
    (hsign : Blank behindSign) (hvalue : Ends isWhitespace (value ++ rest)) (hne : value ++ rest ≠ []) :
    nextPair (front ++ (key ++ (behindKey ++ '=' :: (behindSign ++ (value ++ rest))))) =
      some ((key, (value ++ rest).takeWhile isWord), (value ++ rest).dropWhile isWord) := by
  have hends : Ends isWord (behindKey ++ '=' :: (behindSign ++ (value ++ rest))) := by
    cases behindKey with
    | nil => exact ends_cons rfl _
    | cons c behindKey => exact ends_cons (not_isWord_of_isWhitespace (hbehind c List.mem_cons_self)) _
  rw [nextPair, dropWhile_append_of_ends hfront (isWord_append_ends hkey _),
    takeWhile_append_of_ends hkey.2 hends, dropWhile_append_of_ends hkey.2 hends,
    dropWhile_append_of_ends hbehind (ends_cons rfl _)]
  have hrest : (behindSign ++ (value ++ rest)).dropWhile isWhitespace = value ++ rest :=
    dropWhile_append_of_ends hsign hvalue
  have hsome : ¬ (behindSign ++ (value ++ rest) ≠ [] ∧
      (behindSign ++ (value ++ rest)).dropWhile isWhitespace = []) := fun h => hne (hrest ▸ h.2)
  refine (if_neg hsome).trans ?_
  rw [hrest]

/-- A word behind the sign is the value. -/
theorem nextPair_of_word (hfront : Blank front) (hkey : IsWord key) (hbehind : Blank behindKey)
    (hsign : Blank behindSign) (hvalue : IsWord value) (hrest : ∀ c ∈ rest.head?, isWhitespace c = true) :
    nextPair (front ++ (key ++ (behindKey ++ '=' :: (behindSign ++ (value ++ rest))))) =
      some ((key, value), rest) := by
  have hne : value ++ rest ≠ [] := fun h => hvalue.1 (List.append_eq_nil_iff.mp h).1
  rw [nextPair_of_key hfront hkey hbehind hsign (isWord_append_ends hvalue _) hne,
    takeWhile_append_of_ends hvalue.2 (ends_isWord hrest),
      dropWhile_append_of_ends hvalue.2 (ends_isWord hrest)]

/-- Of a wildcard nothing is taken. -/
theorem nextPair_of_wildcard (hfront : Blank front) (hkey : IsWord key) (hbehind : Blank behindKey)
    (hsign : Blank behindSign) :
    nextPair (front ++ (key ++ (behindKey ++ '=' :: (behindSign ++ (wildcard ++ rest))))) =
      some ((key, []), wildcard ++ rest) := by
  rw [nextPair_of_key hfront hkey hbehind hsign (ends_cons rfl _) (List.cons_ne_nil _ _)]
  rfl

theorem nextPair_wildcard (rest : Text) : nextPair (wildcard ++ rest) = none := rfl

theorem nextPair_blank {blank : Text} (h : Blank blank) : nextPair blank = none := by
  have hdrop : blank.dropWhile isWhitespace = [] := List.dropWhile_eq_nil_iff.mpr h
  rw [nextPair, hdrop]
  rfl

end Turn

/-! ## The whole text -/

theorem pairs_of_none {fuel : Nat} {input : Text} (h : nextPair input = none) : pairs fuel input = [] := by
  cases fuel with
  | zero => rfl
  | succ fuel => rw [pairs, h]

theorem pairs_of_some {fuel : Nat} {input rest : Text} {kv : KeyValue}
    (h : nextPair input = some (kv, rest)) :
    pairs (fuel + 1) input = kv :: pairs fuel rest := by
  rw [pairs, h]

theorem pairs_of_spells {input : Text} {kv : List KeyValue} (h : Spells input kv) :
    ∀ fuel, kv.length ≤ fuel → pairs fuel input = seen kv := by
  induction h with
  | nil hblank => exact fun fuel _ => pairs_of_none (nextPair_blank hblank)
  | @cons front key behindKey behindSign value rest kv hfront hkey hbehind hsign hvalue hrest _ ih =>
      intro fuel hfuel
      obtain ⟨fuel, rfl⟩ := Nat.exists_eq_add_of_le' (Nat.lt_of_lt_of_le (Nat.succ_pos _) hfuel)
      rcases hvalue with rfl | hvalue
      · rw [pairs_of_some (nextPair_of_wildcard hfront hkey hbehind hsign),
          pairs_of_none (nextPair_wildcard rest), seen, if_pos rfl]
      · have hne : value ≠ wildcard := by
          rintro rfl
          exact not_isWord_wildcard hvalue
        rw [pairs_of_some (nextPair_of_word hfront hkey hbehind hsign hvalue hrest),
          ih fuel (Nat.le_of_succ_le_succ hfuel), seen, if_neg hne]

theorem length_le_of_spells {input : Text} {kv : List KeyValue} (h : Spells input kv) :
    kv.length ≤ input.length := by
  induction h with
  | nil _ => exact Nat.zero_le _
  | cons _ _ _ _ _ _ _ ih =>
      simp only [List.length_append, List.length_cons]
      omega

/-- **The pairs of a text are found** up to the first wildcard. -/
theorem generateKeyValuePair_of_spells {input : Text} {kv : List KeyValue} (h : Spells input kv) :
    generateKeyValuePair input = seen kv :=
  pairs_of_spells h _ (length_le_of_spells h)

/-! ## A text for a sequence -/

/-- What the pairs of a text are made up of. -/
def IsPair (p : KeyValue) : Prop := IsWord p.1 ∧ (p.2 = wildcard ∨ IsWord p.2)

theorem isPair_of_spells {input : Text} {kv : List KeyValue} (h : Spells input kv) : ∀ p ∈ kv, IsPair p := by
  induction h with
  | nil _ => exact fun p hp => by cases hp
  | cons _ hkey _ _ hvalue _ _ ih => exact List.forall_mem_cons.mpr ⟨⟨hkey, hvalue⟩, ih⟩

/-- A text of pairs with a blank in front of each. -/
def render (kv : List KeyValue) : Text := kv.flatMap fun p => ' ' :: (p.1 ++ '=' :: p.2)

theorem spells_render {kv : List KeyValue} (h : ∀ p ∈ kv, IsPair p) : Spells (render kv) kv := by
  induction kv with
  | nil => exact .nil fun c hc => by cases hc
  | cons p kv ih =>
      obtain ⟨hp, hkv⟩ := List.forall_mem_cons.mp h
      have hblank : Blank [' '] := fun c hc => by rw [List.mem_singleton.mp hc]; rfl
      have hnil : Blank [] := fun c hc => by cases hc
      have hrest : ∀ c ∈ (render kv).head?, isWhitespace c = true := by
        intro c hc
        cases kv with
        | nil => cases hc
        | cons q kv =>
            obtain rfl := Option.some.inj hc
            rfl
      have hcons := Spells.cons hblank hp.1 hnil hnil hp.2 hrest (ih hkv)
      have htext : render (p :: kv) = [' '] ++ (p.1 ++ ([] ++ '=' :: ([] ++ (p.2 ++ render kv)))) := by
        simp only [render, List.flatMap_cons, List.nil_append, List.cons_append, List.append_assoc]
      rw [htext]
      exact hcons

/-! ## Literals -/

/-- The number of 16 bits that a text is the literal of. -/
def literal (value : Text) : Option UInt16 := (numeral (2 ^ 16 - 1) value).map UInt16.ofNat

/-- The number of 32 bits that a text is the literal of. -/
def literal32 (value : Text) : Option UInt32 := (numeral (2 ^ 32 - 1) value).map UInt32.ofNat

theorem stringToUint16_of_literal {value : Text} {n : UInt16} (h : literal value = some n) :
    stringToUint16 value = some n := by
  obtain ⟨m, hm, rfl⟩ := Option.map_eq_some_iff.mp h
  rw [stringToUint16, scanUnsigned_of_numeral hm (by decide), Option.map_some]

theorem stringToUint32_of_literal32 {value : Text} {n : UInt32} (h : literal32 value = some n) :
    stringToUint32 value = some n := by
  obtain ⟨m, hm, rfl⟩ := Option.map_eq_some_iff.mp h
  rw [stringToUint32, scanUnsigned_of_numeral hm (by decide), Option.map_some]

end KeyValues

end IronStack.Proof
