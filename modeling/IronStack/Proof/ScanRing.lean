import IronStack.Text.StringUtils

/-!
# The splitter on the text that it reads

An offset stands for what the loops still read from it on, up to the point where it is the
length that they go by. With a text shorter than `2^32` that is the rest of the text. With
a longer one the offset wraps around, and behind the part in front of the length there is
all the rest as far as offsets get, and the part in front once more.
-/

namespace IronStack.Proof

open Lib StringUtils StringUtils.Indexed

namespace ScanRing

/-- The offset from which so much is still read. -/
def offsetOf (len : UInt32) (s : Text) : UInt32 := UInt32.ofNat (2 ^ 32 + len.toNat - s.length)

/-- The loops read these characters from their offset on. -/
def Follows (input : Text) (len : UInt32) (s : Text) : Prop :=
  ∀ t c t', s = t ++ c :: t' → charAt input (offsetOf len (c :: t')) = .ok c

variable {input beyond s rest : Text} {len : UInt32}

theorem Follows.suffix (h : Follows input len s) (hsuffix : rest <:+ s) : Follows input len rest := by
  obtain ⟨front, rfl⟩ := hsuffix
  rintro t c t' rfl
  exact h (front ++ t) c t' (List.append_assoc _ _ _).symm

theorem toNat_offsetOf (len : UInt32) (s : Text) :
    (offsetOf len s).toNat = (2 ^ 32 + len.toNat - s.length) % 2 ^ 32 := UInt32.toNat_ofNat'

theorem offsetOf_nil (len : UInt32) : offsetOf len [] = len := by
  apply UInt32.toNat_inj.mp
  have hlen := UInt32.toNat_lt len
  rw [toNat_offsetOf, List.length_nil]
  omega

theorem offsetOf_whole (h : s.length = 2 ^ 32) : offsetOf len s = len := by
  apply UInt32.toNat_inj.mp
  have hlen := UInt32.toNat_lt len
  rw [toNat_offsetOf, h]
  omega

theorem offsetOf_succ {c : Char} (h : (c :: s).length ≤ 2 ^ 32) :
    offsetOf len (c :: s) + 1 = offsetOf len s := by
  apply UInt32.toNat_inj.mp
  have hone : (1 : UInt32).toNat = 1 := rfl
  rw [List.length_cons] at h
  rw [UInt32.toNat_add, toNat_offsetOf, toNat_offsetOf, hone, List.length_cons]
  omega

theorem offsetOf_eq_len_iff (h : s.length < 2 ^ 32) : offsetOf len s = len ↔ s = [] := by
  have hlen := UInt32.toNat_lt len
  constructor
  · intro heq
    have hnat := congrArg UInt32.toNat heq
    rw [toNat_offsetOf] at hnat
    exact List.length_eq_zero_iff.mp (by omega)
  · rintro rfl
    exact offsetOf_nil len

theorem offsetOf_lt_iff (h : s.length ≤ 2 ^ 32) : offsetOf len s < len ↔ s ≠ [] ∧ s.length ≤ len.toNat := by
  have hlen := UInt32.toNat_lt len
  rw [UInt32.lt_iff_toNat_lt, toNat_offsetOf, ← List.length_pos_iff]
  omega

/-! ## One loop -/

/-- **A loop reads as far as the characters are of its kind**, or to the end. -/
theorem advance_eq {p : Char → Bool} {jumps : Bool} (hnul : p nul = false) (word : Text)
    (h : Follows input len s) (hlen : s.length ≤ 2 ^ 32)
    (hempty : s = [] → charAt input len = .ok nul) :
    advance p jumps input len (offsetOf len s) word =
      if jumps = true ∧ s ≠ [] ∧ s.dropWhile p = [] then .error .done
      else .ok (word ++ s.takeWhile p, offsetOf len (s.dropWhile p)) := by
  induction s generalizing word with
  | nil =>
      have hstop : advance p jumps input len (offsetOf len []) word = .ok (word, offsetOf len []) := by
        rw [advance, offsetOf_nil, hempty rfl]
        dsimp only
        rw [if_neg (by rw [hnul]; exact Bool.false_ne_true)]
      rw [hstop, if_neg (fun hall => hall.2.1 rfl), List.takeWhile_nil, List.append_nil, List.dropWhile_nil]
  | cons c s ih =>
      have hread : charAt input (offsetOf len (c :: s)) = .ok c := h [] c s rfl
      rw [List.length_cons] at hlen
      rw [advance, hread]
      dsimp only
      by_cases hc : p c = true
      · rw [if_pos hc, offsetOf_succ (by rw [List.length_cons]; exact hlen),
          List.takeWhile_cons_of_pos hc, List.dropWhile_cons_of_pos hc]
        by_cases hlast : s = []
        · rw [if_pos ((offsetOf_eq_len_iff (by omega)).mpr hlast), hlast, List.takeWhile_nil,
            List.dropWhile_nil, offsetOf_nil]
          cases jumps with
          | true => rw [if_pos rfl, if_pos ⟨rfl, List.cons_ne_nil _ _, rfl⟩]
          | false => rw [if_neg Bool.false_ne_true, if_neg fun hall => Bool.false_ne_true hall.1]
        · rw [if_neg fun hend => hlast ((offsetOf_eq_len_iff (by omega)).mp hend),
            ih (word ++ [c]) (h.suffix (List.suffix_cons c s)) (by omega) fun hnone => absurd hnone hlast,
            List.append_assoc, List.singleton_append]
          have hiff : (jumps = true ∧ s ≠ [] ∧ s.dropWhile p = []) ↔
              jumps = true ∧ c :: s ≠ [] ∧ s.dropWhile p = [] :=
            ⟨fun hall => ⟨hall.1, List.cons_ne_nil _ _, hall.2.2⟩, fun hall => ⟨hall.1, hlast, hall.2.2⟩⟩
          rw [if_congr hiff rfl rfl]
      · rw [if_neg hc, List.takeWhile_cons_of_neg hc, List.dropWhile_cons_of_neg hc, List.append_nil,
          if_neg fun hall => List.cons_ne_nil _ _ hall.2.2]

/-! ## One turn -/

/-- What is read behind the end of a text: nothing, or the text that the offsets wrap around to. -/
structure Ring (input : Text) (len : UInt32) (beyond : Text) : Prop where
  follows : Follows input len beyond
  length_le : beyond.length ≤ 2 ^ 32
  offset_eq : offsetOf len beyond = len
  nul : beyond = [] → charAt input len = .ok nul

/-- The key that a text begins with. -/
def keyOf (s : Text) : Text := (s.dropWhile isWhitespace).takeWhile isWord

/-- The text from behind the key on, where there should be a sign. -/
def signOf (s : Text) : Text := ((s.dropWhile isWhitespace).dropWhile isWord).dropWhile isWhitespace

/-- The value behind the sign, and what is behind that, unless the text ends with blanks. -/
def valueOf (behind : Text) : Option (Text × Text) :=
  if behind ≠ [] ∧ behind.dropWhile isWhitespace = [] then none
  else some ((behind.dropWhile isWhitespace).takeWhile isWord,
    (behind.dropWhile isWhitespace).dropWhile isWord)

/-- A turn on the text that is still read. -/
def ringTurn (beyond s : Text) : Option (KeyValue × Text) :=
  match signOf s with
  | '=' :: behind =>
      (valueOf (if behind = [] then beyond else behind)).map fun found => ((keyOf s, found.1), found.2)
  | _ => none

theorem ringTurn_of_sign {behind : Text} (h : signOf s = '=' :: behind) (beyond : Text) :
    ringTurn beyond s =
      (valueOf (if behind = [] then beyond else behind)).map fun found => ((keyOf s, found.1), found.2) := by
  rw [ringTurn, h]
  rfl

theorem ringTurn_of_no_sign (h : ∀ behind, signOf s ≠ '=' :: behind) (beyond : Text) :
    ringTurn beyond s = none := by
  rw [ringTurn]
  split
  · rename_i behind hsign
    exact absurd hsign (h behind)
  · rfl

/-- With nothing behind the end it is a turn of the splitter on lists. -/
theorem ringTurn_nil (s : Text) : ringTurn [] s = nextPair s := by
  by_cases hsign : ∃ behind, signOf s = '=' :: behind
  · obtain ⟨behind, hsign⟩ := hsign
    have hsame : (if behind = [] then [] else behind) = behind := by
      split
      · rename_i hempty
        exact hempty.symm
      · rfl
    have hnext : nextPair s = if behind ≠ [] ∧ behind.dropWhile isWhitespace = [] then none
        else some ((keyOf s, (behind.dropWhile isWhitespace).takeWhile isWord),
          (behind.dropWhile isWhitespace).dropWhile isWord) := by
      unfold signOf at hsign
      rw [nextPair, hsign]
      rfl
    rw [ringTurn_of_sign hsign, hsame, hnext, valueOf]
    split
    · rfl
    · rfl
  · have hnone : ∀ behind, signOf s ≠ '=' :: behind := fun behind heq => hsign ⟨behind, heq⟩
    rw [ringTurn_of_no_sign hnone, nextPair]
    split
    · rename_i behind heq
      exact absurd heq (hnone behind)
    · rfl

theorem signOf_suffix (s : Text) : signOf s <:+ s :=
  (List.dropWhile_suffix _).trans ((List.dropWhile_suffix _).trans (List.dropWhile_suffix _))

theorem valueOf_suffix {behind value : Text} (h : valueOf behind = some (value, rest)) : rest <:+ behind := by
  rw [valueOf] at h
  split at h
  · cases h
  · cases h
    exact (List.dropWhile_suffix _).trans (List.dropWhile_suffix _)

/-- What is left behind a turn is still read. -/
theorem suffix_of_ringTurn {kv : KeyValue} (h : ringTurn beyond s = some (kv, rest)) :
    rest <:+ s ∨ rest <:+ beyond := by
  by_cases hsign : ∃ behind, signOf s = '=' :: behind
  · obtain ⟨behind, hsign⟩ := hsign
    rw [ringTurn_of_sign hsign] at h
    obtain ⟨⟨value, rest'⟩, hvalue, heq⟩ := Option.map_eq_some_iff.mp h
    cases heq
    have hrest := valueOf_suffix hvalue
    by_cases hempty : behind = []
    · rw [if_pos hempty] at hrest
      exact .inr hrest
    · rw [if_neg hempty] at hrest
      have hbehind := (List.suffix_cons '=' behind).trans (hsign ▸ signOf_suffix s)
      exact .inl (hrest.trans hbehind)
  · rw [ringTurn_of_no_sign fun behind heq => hsign ⟨behind, heq⟩] at h
    cases h

/-- Up to the sign: the three loops, and the character behind them. -/
theorem turn_sign (h : Follows input len s) (hlen : s.length ≤ 2 ^ 32) (hne : s ≠ []) :
    turn input len (offsetOf len s) =
      match signOf s with
      | [] => .error .done
      | c :: behind =>
          if c ≠ '=' then .error .done
          else do
            let (_, offset) ← advance isWhitespace true input len (offsetOf len behind) []
            let (value, offset) ← advance isWord false input len offset []
            return ((keyOf s, value), offset) := by
  have hadvance : ∀ (p : Char → Bool) (l : Text), p nul = false → l <:+ s → l ≠ [] →
      advance p true input len (offsetOf len l) [] =
        if l.dropWhile p = [] then .error .done
        else .ok (l.takeWhile p, offsetOf len (l.dropWhile p)) := by
    intro p l hnul hsuffix hsome
    rw [advance_eq hnul [] (h.suffix hsuffix) (hsuffix.length_le.trans hlen) fun hnone => absurd hnone hsome]
    rw [if_congr (and_iff_right rfl) rfl rfl, if_congr (and_iff_right hsome) rfl rfl, List.nil_append]
  have hline : s.dropWhile isWhitespace <:+ s := List.dropWhile_suffix _
  have hkey : (s.dropWhile isWhitespace).dropWhile isWord <:+ s := (List.dropWhile_suffix _).trans hline
  rw [turn, hadvance _ s rfl (List.suffix_refl s) hne]
  by_cases hblank : s.dropWhile isWhitespace = []
  · rw [if_pos hblank, signOf, hblank]
    rfl
  rw [if_neg hblank]
  simp only [bind, Except.bind]
  rw [hadvance _ _ rfl hline hblank]
  by_cases hword : (s.dropWhile isWhitespace).dropWhile isWord = []
  · rw [if_pos hword, signOf, hword]
    rfl
  rw [if_neg hword]
  dsimp only
  rw [hadvance _ _ rfl hkey hword]
  cases hsign : ((s.dropWhile isWhitespace).dropWhile isWord).dropWhile isWhitespace with
  | nil =>
      rw [if_pos rfl, signOf, hsign]
  | cons c behind =>
      have hsuffix : c :: behind <:+ s := hsign ▸ signOf_suffix s
      have hread : charAt input (offsetOf len (c :: behind)) = .ok c := (h.suffix hsuffix) [] c behind rfl
      rw [if_neg (List.cons_ne_nil _ _), signOf, hsign]
      dsimp only
      rw [hread]
      dsimp only
      rw [offsetOf_succ (hsuffix.length_le.trans hlen)]
      rfl

/-- Behind the sign: the blanks, and the value. -/
theorem value_eq (h : Follows input len s) (hlen : s.length ≤ 2 ^ 32)
    (hempty : s = [] → charAt input len = .ok nul) (key : Text) :
    (do
      let (_, offset) ← advance isWhitespace true input len (offsetOf len s) []
      let (value, offset) ← advance isWord false input len offset []
      return ((key, value), offset)) =
        match valueOf s with
        | none => .error .done
        | some (value, rest) => .ok ((key, value), offsetOf len rest) := by
  have hrest : s.dropWhile isWhitespace <:+ s := List.dropWhile_suffix _
  rw [advance_eq rfl [] h hlen hempty, valueOf, if_congr (and_iff_right rfl) rfl rfl]
  by_cases hblank : s ≠ [] ∧ s.dropWhile isWhitespace = []
  · rw [if_pos hblank, if_pos hblank]
    rfl
  · rw [if_neg hblank, if_neg hblank]
    simp only [bind, Except.bind]
    rw [advance_eq rfl [] (h.suffix hrest) (hrest.length_le.trans hlen) fun hnone => hempty ?_,
      if_neg fun hall => Bool.false_ne_true hall.1]
    · rfl
    · by_contra hsome
      exact hblank ⟨hsome, hnone⟩

/-- **A turn of the loops** is one on the text that they read. -/
theorem turn_eq (hring : Ring input len beyond) (h : Follows input len s) (hlen : s.length ≤ 2 ^ 32)
    (hne : s ≠ []) : turn input len (offsetOf len s) =
      match ringTurn beyond s with
      | none => .error .done
      | some (kv, rest) => .ok (kv, offsetOf len rest) := by
  rw [turn_sign h hlen hne]
  cases hsign : signOf s with
  | nil => rw [ringTurn_of_no_sign (by rw [hsign]; nofun)]
  | cons c behind =>
      dsimp only
      by_cases hc : c = '='
      · rw [hc] at hsign
        rw [if_neg (not_not_intro hc), ringTurn_of_sign hsign]
        have hbehind : behind <:+ s := (List.suffix_cons '=' behind).trans (hsign ▸ signOf_suffix s)
        by_cases hempty : behind = []
        · have hoffset : offsetOf len behind = offsetOf len beyond := by
            rw [hempty, offsetOf_nil, hring.offset_eq]
          rw [if_pos hempty, hoffset, value_eq hring.follows hring.length_le hring.nul]
          cases valueOf beyond with
          | none => rfl
          | some found => rfl
        · rw [if_neg hempty, value_eq (h.suffix hbehind) (hbehind.length_le.trans hlen)
            fun hnone => absurd hnone hempty]
          cases valueOf behind with
          | none => rfl
          | some found => rfl
      · rw [if_pos hc, ringTurn_of_no_sign]
        rw [hsign]
        intro behind' heq
        exact hc (List.cons.inj heq).1

/-! ## All turns -/

/-- The turns on the text that is still read, as long as it is part of what is in front of the length. -/
def ringTurns (beyond : Text) (front : Nat) : Nat → Text → List KeyValue → Option (List KeyValue)
  | 0, _, _ => none
  | fuel + 1, s, result =>
      if s ≠ [] ∧ s.length ≤ front then
        match ringTurn beyond s with
        | none => some result
        | some (kv, rest) => ringTurns beyond front fuel rest (result ++ [kv])
      else some result

/-- **The loops are the turns on the text that they read**, and never read behind the NUL. -/
theorem turns_eq (hring : Ring input len beyond) : ∀ fuel s result, Follows input len s → s.length ≤ 2 ^ 32 →
    turns input len fuel (offsetOf len s) result =
      (ringTurns beyond len.toNat fuel s result).map Ending.returned
  | 0, _, _, _, _ => rfl
  | fuel + 1, s, result, h, hlen => by
      rw [turns, ringTurns]
      by_cases hgo : s ≠ [] ∧ s.length ≤ len.toNat
      · rw [if_pos hgo, if_pos ((offsetOf_lt_iff hlen).mpr hgo), turn_eq hring h hlen hgo.1]
        cases hturn : ringTurn beyond s with
        | none => rfl
        | some found =>
            obtain ⟨kv, rest⟩ := found
            dsimp only
            rcases suffix_of_ringTurn hturn with hsuffix | hsuffix
            · exact turns_eq hring fuel rest _ (h.suffix hsuffix) (hsuffix.length_le.trans hlen)
            · exact turns_eq hring fuel rest _ (hring.follows.suffix hsuffix)
                (hsuffix.length_le.trans hring.length_le)
      · rw [if_neg hgo, if_neg fun hlt => hgo ((offsetOf_lt_iff hlen).mp hlt)]
        rfl

/-! ## The text behind the end -/

/-- The part of a text that is in front of the length that the loops go by. -/
def inFront (input : Text) : Text := input.take (input.length % 2 ^ 32)

/-- The rest of it, as far as offsets get. -/
def overrun (input : Text) : Text := (input.take (2 ^ 32)).drop (input.length % 2 ^ 32)

/-- What is read behind the part in front. -/
def behindEnd (input : Text) : Text := if input.length < 2 ^ 32 then [] else overrun input ++ inFront input

theorem length_inFront (input : Text) : (inFront input).length = input.length % 2 ^ 32 := by
  have hle := Nat.mod_le input.length (2 ^ 32)
  rw [inFront, List.length_take, Nat.min_eq_left hle]

theorem inFront_of_lt (h : input.length < 2 ^ 32) : inFront input = input := by
  rw [inFront, Nat.mod_eq_of_lt h, List.take_length]

theorem charAt_of_getElem {offset : UInt32} {c : Char} (h : input[offset.toNat]? = some c) :
    charAt input offset = .ok c := by
  obtain ⟨hlt, heq⟩ := List.getElem?_eq_some_iff.mp h
  rw [charAt, List.getElem?_append_left hlt, h]

theorem ring_of_lt (h : input.length < 2 ^ 32) :
    Ring input (UInt32.ofNat input.length) (behindEnd input) ∧
      Follows input (UInt32.ofNat input.length) (inFront input) := by
  have hlen : (UInt32.ofNat input.length).toNat = input.length := UInt32.toNat_ofNat_of_lt' h
  rw [behindEnd, if_pos h, inFront_of_lt h]
  refine ⟨⟨?_, Nat.zero_le _, offsetOf_nil _, fun _ => ?_⟩, ?_⟩
  · intro t c t' heq
    cases t <;> cases heq
  · rw [charAt, hlen, List.getElem?_append_right (Nat.le_refl _), Nat.sub_self]
    rfl
  · intro t c t' heq
    have hsize := congrArg List.length heq
    rw [List.length_append, List.length_cons] at hsize
    have hindex : (offsetOf (UInt32.ofNat input.length) (c :: t')).toNat = t.length := by
      rw [toNat_offsetOf, hlen, List.length_cons]
      omega
    apply charAt_of_getElem
    rw [hindex, heq, List.getElem?_append_right (Nat.le_refl _), Nat.sub_self]
    rfl

theorem ring_of_le (h : 2 ^ 32 ≤ input.length) :
    Ring input (UInt32.ofNat input.length) (behindEnd input) ∧
      Follows input (UInt32.ofNat input.length) (inFront input) := by
  have hlen : (UInt32.ofNat input.length).toNat = input.length % 2 ^ 32 := UInt32.toNat_ofNat'
  have hmod := Nat.mod_lt input.length (Nat.two_pow_pos 32)
  have hfront := length_inFront input
  have hover : (overrun input).length = 2 ^ 32 - input.length % 2 ^ 32 := by
    rw [overrun, List.length_drop, List.length_take, Nat.min_eq_left h]
  have hwhole : (overrun input ++ inFront input).length = 2 ^ 32 := by
    rw [List.length_append, hover, hfront]
    omega
  have hfollows : Follows input (UInt32.ofNat input.length) (overrun input ++ inFront input) := by
    intro t c t' heq
    have hsize := congrArg List.length heq
    rw [hwhole, List.length_append, List.length_cons] at hsize
    have hread : (overrun input ++ inFront input)[t.length]? = some c := by
      rw [heq, List.getElem?_append_right (Nat.le_refl _), Nat.sub_self]
      rfl
    apply charAt_of_getElem
    rw [toNat_offsetOf, hlen, List.length_cons, ← hread]
    by_cases hlt : t.length < (overrun input).length
    · -- not yet around
      rw [List.getElem?_append_left hlt, overrun, List.getElem?_drop, List.getElem?_take, if_pos (by omega)]
      congr 1
      omega
    · rw [List.getElem?_append_right (Nat.not_lt.mp hlt), inFront, List.getElem?_take, if_pos (by omega)]
      congr 1
      omega
  rw [behindEnd, if_neg (Nat.not_lt.mpr h)]
  refine ⟨⟨hfollows, hwhole.le, offsetOf_whole hwhole, fun hnone => ?_⟩, ?_⟩
  · rw [hnone, List.length_nil] at hwhole
    omega
  · exact hfollows.suffix (List.suffix_append _ _)

/-- **The function is the turns on the text** in front of its length. -/
theorem generate_eq (input : Text) (fuel : Nat) :
    generateKeyValuePair input fuel =
      (ringTurns (behindEnd input) (input.length % 2 ^ 32) fuel (inFront input) []).map Ending.returned := by
  have hlen : (UInt32.ofNat input.length).toNat = input.length % 2 ^ 32 := UInt32.toNat_ofNat'
  have hmod := Nat.mod_lt input.length (Nat.two_pow_pos 32)
  have hfront := length_inFront input
  have hstart : (0 : UInt32) = offsetOf (UInt32.ofNat input.length) (inFront input) := by
    apply UInt32.toNat_inj.mp
    rw [toNat_offsetOf, hlen, hfront]
    have hzero : (0 : UInt32).toNat = 0 := rfl
    omega
  obtain ⟨hring, hfollows⟩ : Ring input (UInt32.ofNat input.length) (behindEnd input) ∧
      Follows input (UInt32.ofNat input.length) (inFront input) := by
    by_cases h : input.length < 2 ^ 32
    · exact ring_of_lt h
    · exact ring_of_le (Nat.not_lt.mp h)
  rw [Indexed.generateKeyValuePair, hstart, turns_eq hring fuel _ _ hfollows (by omega), hlen]

end ScanRing

end IronStack.Proof
