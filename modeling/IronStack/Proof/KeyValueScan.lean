import IronStack.Proof.KeyValues
import IronStack.Proof.ScanRing

/-!
# What the splitter makes of a text

A text shorter than `2^32` is split into the pairs that it is a list of. Of a longer one the
splitter sees the length without its higher bits. Then it finds fewer pairs than there are,
or it gets past that length behind a sign that stands just in front of it, wraps around and
starts beyond, without end.
-/

namespace IronStack.Proof

open Lib StringUtils StringUtils.Indexed KeyValues ScanRing

namespace KeyValueScan

/-! ## The property and the condition -/

/-- The text is the list of pairs: keys and values are words, with blanks between the pairs and maybe
around the signs. -/
inductive Rendered : Text → List KeyValue → Prop where
  | nil : Rendered [] []
  | one {key behindKey behindSign value : Text} : IsWord key → Blank behindKey → Blank behindSign →
      IsWord value → Rendered (key ++ (behindKey ++ '=' :: (behindSign ++ value))) [(key, value)]
  | cons {key behindKey behindSign value between rest : Text} {kv : List KeyValue} : IsWord key →
      Blank behindKey → Blank behindSign → IsWord value → between ≠ [] → Blank between → kv ≠ [] →
      Rendered rest kv →
      Rendered (key ++ (behindKey ++ '=' :: (behindSign ++ (value ++ (between ++ rest)))))
        ((key, value) :: kv)

/-- The function ends, and does so in this way. -/
def EndsWith (input : Text) (ending : Ending) : Prop :=
  ∃ fuel, Indexed.generateKeyValuePair input fuel = some ending

/-- The function ends without a read behind the NUL, and returns the pairs that the text is a list of. -/
structure Splits (input : Text) : Prop where
  ends : ∃ ending, EndsWith input ending
  within : ¬ EndsWith input .outOfBounds
  pairs : ∀ kv, Rendered input kv → EndsWith input (.returned kv)

/-- A word that may be empty. -/
def Wordlike (l : Text) : Prop := ∀ c ∈ l, isWord c = true

/-- The text goes through pairs, some parts of which may be missing, up to the sign behind a key. -/
inductive Unfinished : Text → Prop where
  | sign {front key behindKey : Text} : Blank front → Wordlike key → Blank behindKey →
      Unfinished (front ++ (key ++ (behindKey ++ ['='])))
  | pair {front key behindKey behindSign value rest : Text} : Blank front → Wordlike key →
      Blank behindKey → Blank behindSign → Wordlike value → Unfinished rest →
      Unfinished (front ++ (key ++ (behindKey ++ '=' :: (behindSign ++ (value ++ rest)))))

/-- The text has only blanks and then parts of a word as far as offsets get. -/
def Spans (l : Text) : Prop := ∃ blank word, l = blank ++ word ∧ Blank blank ∧ Wordlike word

/-- The text sends the splitter around: the part in front of its length is unfinished, and nothing
behind it stops the loops before the offset wraps around. -/
def Endless (input : Text) : Prop :=
  2 ^ 32 ≤ input.length ∧ Unfinished (inFront input) ∧ Spans (overrun input)

/-! ## Ending -/

section Ending

variable {input : Text}

theorem endsWith_iff {ending : Ending} : EndsWith input ending ↔
    ∃ fuel result, ringTurns (behindEnd input) (input.length % 2 ^ 32) fuel (inFront input) [] = some result ∧
      ending = .returned result := by
  constructor
  · rintro ⟨fuel, h⟩
    rw [generate_eq] at h
    obtain ⟨result, hresult, heq⟩ := Option.map_eq_some_iff.mp h
    exact ⟨fuel, result, hresult, heq.symm⟩
  · rintro ⟨fuel, result, hresult, rfl⟩
    exact ⟨fuel, by rw [generate_eq, hresult]; rfl⟩

/-- **No read is behind the NUL**, whatever the text. -/
theorem not_endsWith_outOfBounds (input : Text) : ¬ EndsWith input .outOfBounds := by
  intro h
  obtain ⟨_, _, _, heq⟩ := endsWith_iff.mp h
  cases heq

end Ending

/-! ## Short texts -/

section Short

variable {input : Text}

theorem nextPair_length {s rest : Text} {kv : KeyValue} (h : nextPair s = some (kv, rest)) :
    rest.length < s.length := by
  rw [← ringTurn_nil] at h
  by_cases hsign : ∃ behind, signOf s = '=' :: behind
  · obtain ⟨behind, hsign⟩ := hsign
    have hbehind := (hsign ▸ signOf_suffix s).length_le
    rw [List.length_cons] at hbehind
    rw [ringTurn_of_sign hsign] at h
    obtain ⟨⟨value, rest'⟩, hvalue, heq⟩ := Option.map_eq_some_iff.mp h
    cases heq
    have hrest := (valueOf_suffix hvalue).length_le
    have hle : (if behind = [] then [] else behind).length ≤ behind.length := by
      split
      · exact Nat.zero_le _
      · exact Nat.le_refl _
    dsimp only
    omega
  · rw [ringTurn_of_no_sign fun behind heq => hsign ⟨behind, heq⟩] at h
    cases h

/-- The turns are those of the splitter on lists. -/
theorem ringTurns_short {front : Nat} : ∀ fuel s acc, s.length ≤ fuel → s.length ≤ front →
    ringTurns [] front (fuel + 1) s acc = some (acc ++ pairs fuel s)
  | fuel, s, acc, hfuel, hfront => by
      rw [ringTurns]
      by_cases hne : s = []
      · have hnone : nextPair s = none := by
          rw [hne]
          rfl
        rw [if_neg fun hgo => hgo.1 hne, pairs_of_none hnone, List.append_nil]
      · have hpos := List.length_pos_iff.mpr hne
        obtain ⟨fuel, rfl⟩ := Nat.exists_eq_add_of_le' (Nat.lt_of_lt_of_le hpos hfuel)
        rw [if_pos ⟨hne, hfront⟩, ringTurn_nil]
        cases hturn : nextPair s with
        | none => rw [pairs_of_none hturn, List.append_nil]
        | some found =>
            obtain ⟨kv, rest⟩ := found
            have hlt := nextPair_length hturn
            dsimp only
            rw [ringTurns_short fuel rest _ (by omega) (by omega), pairs_of_some hturn, List.append_assoc,
              List.singleton_append]

/-- **A text that is short** is split as on lists. -/
theorem endsWith_of_lt (h : input.length < 2 ^ 32) :
    EndsWith input (.returned (StringUtils.generateKeyValuePair input)) := by
  rw [endsWith_iff, behindEnd, if_pos h, inFront_of_lt h, Nat.mod_eq_of_lt h]
  exact ⟨input.length + 1, _, ringTurns_short _ _ _ (Nat.le_refl _) (Nat.le_refl _), rfl⟩

theorem blank_append {l l' : Text} (h : Blank l) (h' : Blank l') : Blank (l ++ l') :=
  fun c hc => (List.mem_append.mp hc).elim (h c) (h' c)

/-- More blanks in front. -/
theorem spells_blank {blank : Text} {kv : List KeyValue} (hblank : Blank blank) (h : Spells input kv) :
    Spells (blank ++ input) kv := by
  cases h with
  | nil hinput => exact .nil (blank_append hblank hinput)
  | cons hfront hkey hbehind hsign hvalue hhead hrest =>
      rw [← List.append_assoc]
      exact .cons (blank_append hblank hfront) hkey hbehind hsign hvalue hhead hrest

theorem spells_of_rendered {kv : List KeyValue} (h : Rendered input kv) :
    Spells input kv ∧ ∀ p ∈ kv, p.2 ≠ wildcard := by
  have hnil : Blank [] := fun c hc => by cases hc
  have hword : ∀ value, IsWord value → value ≠ wildcard := by
    rintro _ hvalue rfl
    exact not_isWord_wildcard hvalue
  induction h with
  | nil => exact ⟨.nil hnil, fun p hp => by cases hp⟩
  | @one key behindKey behindSign value hkey hbehind hsign hvalue =>
      refine ⟨?_, List.forall_mem_singleton.mpr (hword value hvalue)⟩
      have hends : ∀ c ∈ ([] : Text).head?, isWhitespace c = true := fun c hc => by cases hc
      have hspells := Spells.cons hnil hkey hbehind hsign (.inr hvalue) hends (.nil hnil)
      rwa [List.nil_append, List.append_nil] at hspells
  | @cons key behindKey behindSign value between rest kv hkey hbehind hsign hvalue hne hblank _ _ ih =>
      obtain ⟨hrest, hwords⟩ := ih
      refine ⟨?_, List.forall_mem_cons.mpr ⟨hword value hvalue, hwords⟩⟩
      have hhead : ∀ c ∈ (between ++ rest).head?, isWhitespace c = true := by
        intro c hc
        rw [List.head?_append_of_ne_nil _ hne] at hc
        exact hblank c (List.mem_of_mem_head? hc)
      exact Spells.cons hnil hkey hbehind hsign (.inr hvalue) hhead (spells_blank hblank hrest)

theorem splits_of_lt (h : input.length < 2 ^ 32) : Splits input := by
  refine ⟨⟨_, endsWith_of_lt h⟩, not_endsWith_outOfBounds input, fun kv hkv => ?_⟩
  obtain ⟨hspells, hwords⟩ := spells_of_rendered hkv
  rw [← seen_eq_self hwords, ← generateKeyValuePair_of_spells hspells]
  exact endsWith_of_lt h

end Short

/-! ## Where the sign is -/

section Sign

variable {front key behindKey tail s beyond rest : Text}

theorem ends_isWord_of_blank (h : Blank behindKey) (tail : Text) :
    Ends isWord (behindKey ++ '=' :: tail) := by
  cases behindKey with
  | nil => exact ends_cons rfl _
  | cons c behindKey => exact ends_cons (not_isWord_of_isWhitespace (h c List.mem_cons_self)) _

theorem signOf_key (hfront : Blank front) (hkey : Wordlike key) (hbehind : Blank behindKey) (tail : Text) :
    signOf (front ++ (key ++ (behindKey ++ '=' :: tail))) = '=' :: tail := by
  have hsign : (behindKey ++ '=' :: tail).dropWhile isWhitespace = '=' :: tail :=
    dropWhile_append_of_ends hbehind (ends_cons rfl _)
  by_cases hempty : key = []
  · have hdrop : (front ++ (key ++ (behindKey ++ '=' :: tail))).dropWhile isWhitespace = '=' :: tail := by
      rw [hempty, List.nil_append, List.dropWhile_append_of_pos hfront, hsign]
    rw [signOf, hdrop, dropWhile_of_ends (ends_cons rfl _), dropWhile_of_ends (ends_cons rfl _)]
  · rw [signOf, dropWhile_append_of_ends hfront (isWord_append_ends ⟨hempty, hkey⟩ _),
      dropWhile_append_of_ends hkey (ends_isWord_of_blank hbehind tail), hsign]

theorem keyOf_key (hfront : Blank front) (hkey : IsWord key) (hbehind : Blank behindKey) (tail : Text) :
    keyOf (front ++ (key ++ (behindKey ++ '=' :: tail))) = key := by
  rw [keyOf, dropWhile_append_of_ends hfront (isWord_append_ends hkey _),
    takeWhile_append_of_ends hkey.2 (ends_isWord_of_blank hbehind tail)]

theorem exists_key (h : signOf s = '=' :: tail) : ∃ front key behindKey, Blank front ∧ Wordlike key ∧
    Blank behindKey ∧ s = front ++ (key ++ (behindKey ++ '=' :: tail)) := by
  refine ⟨s.takeWhile isWhitespace, (s.dropWhile isWhitespace).takeWhile isWord,
    ((s.dropWhile isWhitespace).dropWhile isWord).takeWhile isWhitespace,
    fun _ hc => List.mem_takeWhile_imp hc, fun _ hc => List.mem_takeWhile_imp hc,
    fun _ hc => List.mem_takeWhile_imp hc, ?_⟩
  rw [signOf] at h
  rw [← h, List.takeWhile_append_dropWhile, List.takeWhile_append_dropWhile, List.takeWhile_append_dropWhile]

/-- What may be behind the sign of an unfinished text. -/
def Continues (tail : Text) : Prop :=
  tail = [] ∨ ∃ behindSign value rest, tail = behindSign ++ (value ++ rest) ∧ Blank behindSign ∧
    Wordlike value ∧ Unfinished rest

theorem unfinished_iff : Unfinished s ↔ ∃ tail, signOf s = '=' :: tail ∧ Continues tail := by
  constructor
  · intro h
    cases h with
    | sign hfront hkey hbehind => exact ⟨[], signOf_key hfront hkey hbehind [], .inl rfl⟩
    | pair hfront hkey hbehind hsign hvalue hrest =>
        exact ⟨_, signOf_key hfront hkey hbehind _, .inr ⟨_, _, _, rfl, hsign, hvalue, hrest⟩⟩
  · rintro ⟨tail, hsign, rfl | ⟨behindSign, value, rest, rfl, hblank, hvalue, hrest⟩⟩
    · obtain ⟨front, key, behindKey, hfront, hkey, hbehind, rfl⟩ := exists_key hsign
      exact .sign hfront hkey hbehind
    · obtain ⟨front, key, behindKey, hfront, hkey, hbehind, rfl⟩ := exists_key hsign
      exact .pair hfront hkey hbehind hblank hvalue hrest

theorem sign_mem (h : Unfinished s) : '=' ∈ s := by
  obtain ⟨tail, hsign, _⟩ := unfinished_iff.mp h
  exact (signOf_suffix s).subset (hsign ▸ List.mem_cons_self)

theorem dropBlank_ne_nil (h : '=' ∈ s) : s.dropWhile isWhitespace ≠ [] := by
  intro hnone
  cases List.dropWhile_eq_nil_iff.mp hnone _ h

theorem unfinished_dropBlank (h : Unfinished s) : Unfinished (s.dropWhile isWhitespace) := by
  obtain ⟨tail, hsign, htail⟩ := unfinished_iff.mp h
  refine unfinished_iff.mpr ⟨tail, ?_, htail⟩
  rw [signOf, dropWhile_of_ends (ends_dropWhile _ _)]
  exact hsign

theorem unfinished_dropWord (h : Unfinished s) : Unfinished (s.dropWhile isWord) := by
  obtain ⟨tail, hsign, htail⟩ := unfinished_iff.mp h
  obtain ⟨front, key, behindKey, hfront, hkey, hbehind, rfl⟩ := exists_key hsign
  cases front with
  | nil =>
      rw [List.nil_append, dropWhile_append_of_ends hkey (ends_isWord_of_blank hbehind tail)]
      have hnil : Blank [] := fun c hc => by cases hc
      have hno : Wordlike [] := fun c hc => by cases hc
      have hdropped := signOf_key hnil hno hbehind tail
      exact unfinished_iff.mpr ⟨tail, hdropped, htail⟩
  | cons c front =>
      have hword := not_isWord_of_isWhitespace (hfront c List.mem_cons_self)
      rw [List.cons_append, dropWhile_of_ends (ends_cons hword _)]
      exact unfinished_iff.mpr ⟨tail, hsign, htail⟩

/-- Blanks and a part of a word in front of an unfinished text are gone behind a value. -/
theorem valueOf_unfinished {blank word : Text} (hblank : Blank blank) (hword : Wordlike word)
    (h : Unfinished rest) : ∃ value rest', valueOf (blank ++ (word ++ rest)) = some (value, rest') ∧
      Unfinished rest' ∧ rest' <:+ rest := by
  have hsome : (blank ++ (word ++ rest)).dropWhile isWhitespace ≠ [] :=
    dropBlank_ne_nil (List.mem_append_right _ (List.mem_append_right _ (sign_mem h)))
  refine ⟨_, _, if_neg fun hnone => hsome hnone.2, ?_⟩
  rw [List.dropWhile_append_of_pos hblank]
  by_cases hempty : word = []
  · rw [hempty, List.nil_append]
    exact ⟨unfinished_dropWord (unfinished_dropBlank h),
      (List.dropWhile_suffix _).trans (List.dropWhile_suffix _)⟩
  · have hdrop : (word ++ rest).dropWhile isWhitespace = word ++ rest :=
      dropWhile_of_ends (isWord_append_ends ⟨hempty, hword⟩ rest)
    rw [hdrop, List.dropWhile_append_of_pos hword]
    exact ⟨unfinished_dropWord h, List.dropWhile_suffix _⟩

/-- A value, and an unfinished text behind it, can be behind a sign. -/
theorem continues_of_valueOf {value : Text} (h : valueOf tail = some (value, rest))
    (hrest : Unfinished rest) : Continues tail := by
  rw [valueOf] at h
  split at h
  · cases h
  · cases h
    refine .inr ⟨tail.takeWhile isWhitespace, (tail.dropWhile isWhitespace).takeWhile isWord, _, ?_,
      fun _ hc => List.mem_takeWhile_imp hc, fun _ hc => List.mem_takeWhile_imp hc, hrest⟩
    rw [List.takeWhile_append_dropWhile, List.takeWhile_append_dropWhile]

end Sign

/-! ## Around the end -/

section Around

variable {beyond behind s front : Text} {acc : List KeyValue}

/-- **Behind a sign at the end** the loops wrap around into an unfinished text again. -/
theorem valueOf_spans (hspans : Spans beyond) (hfront : Unfinished front) :
    ∃ value rest, valueOf (beyond ++ front) = some (value, rest) ∧ Unfinished rest ∧
      rest.length ≤ front.length := by
  obtain ⟨blank, word, rfl, hblank, hword⟩ := hspans
  obtain ⟨value, rest, hvalue, hrest, hsuffix⟩ := valueOf_unfinished hblank hword hfront
  rw [List.append_assoc]
  exact ⟨value, rest, hvalue, hrest, hsuffix.length_le⟩

/-- Or they stop before they get around. -/
theorem valueOf_not_spans (hspans : ¬ Spans beyond) (front : Text) :
    ∃ value rest, valueOf (beyond ++ front) = some (value, rest) ∧ front.length < rest.length := by
  have hword : (beyond.dropWhile isWhitespace).dropWhile isWord ≠ [] := by
    intro hnone
    refine hspans ⟨beyond.takeWhile isWhitespace, beyond.dropWhile isWhitespace, ?_,
      fun _ hc => List.mem_takeWhile_imp hc, fun c hc => List.dropWhile_eq_nil_iff.mp hnone c hc⟩
    rw [List.takeWhile_append_dropWhile]
  have hblank : beyond.dropWhile isWhitespace ≠ [] := by
    intro hnone
    rw [hnone] at hword
    exact hword rfl
  have hdropBlank : (beyond ++ front).dropWhile isWhitespace = beyond.dropWhile isWhitespace ++ front := by
    rw [List.dropWhile_append, if_neg (by rwa [List.isEmpty_iff])]
  have hdropWord : (beyond.dropWhile isWhitespace ++ front).dropWhile isWord =
      (beyond.dropWhile isWhitespace).dropWhile isWord ++ front := by
    rw [List.dropWhile_append, if_neg (by rwa [List.isEmpty_iff])]
  refine ⟨_, _, if_neg fun hnone => hblank ?_, ?_⟩
  · rw [hdropBlank] at hnone
    exact (List.append_eq_nil_iff.mp hnone.2).1
  · have hpos := List.length_pos_iff.mpr hword
    rw [hdropBlank, hdropWord, List.length_append]
    omega

/-- **An unfinished text is never done with**, if nothing stops the loops before they get around. -/
theorem ringTurns_endless (hspans : Spans beyond) (hfront : Unfinished front) :
    ∀ fuel s acc, Unfinished s → s.length ≤ front.length →
      ringTurns (beyond ++ front) front.length fuel s acc = none
  | 0, _, _, _, _ => rfl
  | fuel + 1, s, acc, hs, hle => by
      have hne : s ≠ [] := List.ne_nil_of_mem (sign_mem hs)
      obtain ⟨tail, hsign, htail⟩ := unfinished_iff.mp hs
      obtain ⟨value, rest, hvalue, hrest, hlen⟩ : ∃ value rest,
          valueOf (if tail = [] then beyond ++ front else tail) = some (value, rest) ∧ Unfinished rest ∧
            rest.length ≤ front.length := by
        rcases htail with rfl | ⟨behindSign, value, rest, rfl, hblank, hword, hrest⟩
        · rw [if_pos rfl]
          exact valueOf_spans hspans hfront
        · have hsome : behindSign ++ (value ++ rest) ≠ [] :=
            List.ne_nil_of_mem (List.mem_append_right _ (List.mem_append_right _ (sign_mem hrest)))
          obtain ⟨value', rest', hvalue, hunfinished, hsuffix⟩ := valueOf_unfinished hblank hword hrest
          have hshort := (hsign ▸ signOf_suffix s).length_le
          have hle' := hsuffix.length_le
          simp only [List.length_cons, List.length_append] at hshort
          rw [if_neg hsome]
          exact ⟨value', rest', hvalue, hunfinished, by omega⟩
      rw [ringTurns, if_pos ⟨hne, hle⟩, ringTurn_of_sign hsign, hvalue]
      exact ringTurns_endless hspans hfront fuel rest _ hrest hlen

/-- **Any other text is done with.** -/
theorem ringTurns_ends (beyond front : Text) : ∀ n s acc, s.length ≤ n → s.length ≤ front.length →
    (Unfinished s → ¬ Spans beyond) →
      ∃ fuel result, ringTurns (beyond ++ front) front.length fuel s acc = some result
  | n, s, acc, hn, hle, hstop => by
      by_cases hne : s = []
      · exact ⟨1, acc, by rw [ringTurns, if_neg fun hgo => hgo.1 hne]⟩
      have hpos := List.length_pos_iff.mpr hne
      by_cases hsign : ∃ behind, signOf s = '=' :: behind
      · obtain ⟨behind, hsign⟩ := hsign
        have hturn := ringTurn_of_sign hsign (beyond ++ front)
        by_cases hempty : behind = []
        · -- the sign is the last character, and the loops go on behind it
          have hunfinished : Unfinished s := unfinished_iff.mpr ⟨behind, hsign, .inl hempty⟩
          obtain ⟨value, rest, hvalue, hlong⟩ := valueOf_not_spans (hstop hunfinished) front
          rw [if_pos hempty, hvalue] at hturn
          refine ⟨2, acc ++ [(keyOf s, value)], ?_⟩
          rw [ringTurns, if_pos ⟨hne, hle⟩, hturn]
          dsimp only [Option.map]
          rw [ringTurns, if_neg fun hgo => absurd hgo.2 (Nat.not_le.mpr hlong)]
        · rw [if_neg hempty] at hturn
          cases hvalue : valueOf behind with
          | none =>
              rw [hvalue] at hturn
              exact ⟨1, acc, by rw [ringTurns, if_pos ⟨hne, hle⟩, hturn]; rfl⟩
          | some found =>
              obtain ⟨value, rest⟩ := found
              have hshort := (hsign ▸ signOf_suffix s).length_le
              have hrest := (valueOf_suffix hvalue).length_le
              rw [List.length_cons] at hshort
              obtain ⟨n, rfl⟩ := Nat.exists_eq_add_of_le' (Nat.lt_of_lt_of_le hpos hn)
              have hnext : Unfinished rest → ¬ Spans beyond := fun hunfinished =>
                hstop (unfinished_iff.mpr ⟨behind, hsign, continues_of_valueOf hvalue hunfinished⟩)
              obtain ⟨fuel, result, hresult⟩ := ringTurns_ends beyond front n rest (acc ++ [(keyOf s, value)])
                (by omega) (by omega) hnext
              rw [hvalue] at hturn
              exact ⟨fuel + 1, result, by rw [ringTurns, if_pos ⟨hne, hle⟩, hturn]; exact hresult⟩
      · have hturn := ringTurn_of_no_sign (fun behind heq => hsign ⟨behind, heq⟩) (beyond ++ front)
        exact ⟨1, acc, by rw [ringTurns, if_pos ⟨hne, hle⟩, hturn]⟩

theorem behindEnd_of_le {input : Text} (h : 2 ^ 32 ≤ input.length) :
    behindEnd input = overrun input ++ inFront input := if_neg (Nat.not_lt.mpr h)

/-- **A text that is long is done with**, unless it sends the splitter around. -/
theorem ends_iff_not_endless {input : Text} (h : 2 ^ 32 ≤ input.length) :
    (∃ ending, EndsWith input ending) ↔ ¬ Endless input := by
  have hfront := length_inFront input
  constructor
  · rintro ⟨ending, hends⟩ ⟨_, hunfinished, hspans⟩
    obtain ⟨fuel, result, hresult, _⟩ := endsWith_iff.mp hends
    rw [behindEnd_of_le h, ← hfront,
      ringTurns_endless hspans hunfinished fuel _ _ hunfinished (Nat.le_refl _)] at hresult
    cases hresult
  · intro hnot
    obtain ⟨fuel, result, hresult⟩ := ringTurns_ends (overrun input) (inFront input) _ (inFront input)
      [] (Nat.le_refl _) (Nat.le_refl _) fun hunfinished hspans => hnot ⟨h, hunfinished, hspans⟩
    rw [hfront, ← behindEnd_of_le h] at hresult
    exact ⟨_, endsWith_iff.mpr ⟨fuel, result, hresult, rfl⟩⟩

end Around

/-! ## Lists of pairs that go on behind the length -/

section Cut

variable {beyond s cut front key behindKey behindSign value tail : Text}

/-- What a turn makes of a pair of which only a part is in front of the length. -/
inductive CutTurn (s cut key behindSign value tail : Text) : Prop where
  | none (hnone : ∀ beyond, ringTurn beyond s = .none)
  | around (hsign : signOf s = ['=']) (hcut : cut = behindSign ++ (value ++ tail))
  | short {part : Text} (hturn : ∀ beyond, ringTurn beyond s = some ((key, part), []))
      (hpart : part ++ cut = value ++ tail)
  | whole {rest : Text} (hturn : ∀ beyond, ringTurn beyond s = some ((key, value), rest))
      (hlen : rest.length ≤ s.length) (hunfinished : Unfinished rest → Unfinished s)
      (hrest : rest ++ cut = tail)

theorem no_sign_mem {front key behindKey : Text} (hfront : Blank front) (hkey : IsWord key)
    (hbehind : Blank behindKey) : '=' ∉ front ++ (key ++ behindKey) := by
  intro hmem
  rcases List.mem_append.mp hmem with hmem | hmem
  · cases hfront _ hmem
  · rcases List.mem_append.mp hmem with hmem | hmem
    · cases hkey.2 _ hmem
    · cases hbehind _ hmem

theorem ringTurn_of_not_mem (h : '=' ∉ s) (beyond : Text) : ringTurn beyond s = none :=
  ringTurn_of_no_sign (fun _ hsign => h ((signOf_suffix s).subset (hsign ▸ List.mem_cons_self))) beyond

theorem valueOf_blank {blank : Text} (h : Blank blank) (hne : blank ≠ []) : valueOf blank = none :=
  if_pos ⟨hne, List.dropWhile_eq_nil_iff.mpr h⟩

theorem valueOf_word (hblank : Blank behindSign) (hvalue : IsWord value) {rest : Text}
    (hrest : Ends isWord rest) :
    valueOf (behindSign ++ (value ++ rest)) = some (value, rest) := by
  have hdrop : (behindSign ++ (value ++ rest)).dropWhile isWhitespace = value ++ rest :=
    dropWhile_append_of_ends hblank (isWord_append_ends hvalue rest)
  rw [valueOf, hdrop, if_neg fun hnone => hvalue.1 (List.append_eq_nil_iff.mp hnone.2).1,
    takeWhile_append_of_ends hvalue.2 hrest, dropWhile_append_of_ends hvalue.2 hrest]

/-- **A pair is cut** before its sign, behind it, in its value or not at all. -/
theorem cutTurn (hfront : Blank front) (hkey : IsWord key) (hbehind : Blank behindKey)
    (hblank : Blank behindSign) (hvalue : IsWord value) (htail : Ends isWord tail)
    (h : s ++ cut = front ++ (key ++ (behindKey ++ '=' :: (behindSign ++ (value ++ tail))))) :
    CutTurn s cut key behindSign value tail := by
  have hnosign := no_sign_mem hfront hkey hbehind
  have htext : s ++ cut = (front ++ (key ++ behindKey)) ++ '=' :: (behindSign ++ (value ++ tail)) := by
    rw [h]
    simp only [List.append_assoc]
  rcases List.append_eq_append_iff.mp htext with ⟨more, hmore, _⟩ | ⟨part, rfl, hpart⟩
  · refine .none (ringTurn_of_not_mem fun hmem => hnosign ?_)
    rw [hmore]
    exact List.mem_append_left _ hmem
  cases part with
  | nil =>
      refine .none (ringTurn_of_not_mem fun hmem => hnosign ?_)
      rwa [List.append_nil] at hmem
  | cons c part =>
      obtain ⟨rfl, hbody⟩ := List.cons.inj hpart
      have hs : (front ++ (key ++ behindKey)) ++ '=' :: part =
          front ++ (key ++ (behindKey ++ '=' :: part)) := by
        simp only [List.append_assoc]
      have hsign : signOf ((front ++ (key ++ behindKey)) ++ '=' :: part) = '=' :: part := by
        rw [hs, signOf_key hfront hkey.2 hbehind]
      have hkeyOf : keyOf ((front ++ (key ++ behindKey)) ++ '=' :: part) = key := by
        rw [hs, keyOf_key hfront hkey hbehind]
      by_cases hempty : part = []
      · rw [hempty] at hsign hbody ⊢
        exact .around hsign hbody.symm
      have hturn : ∀ beyond, ringTurn beyond ((front ++ (key ++ behindKey)) ++ '=' :: part) =
          (valueOf part).map fun found => ((key, found.1), found.2) := by
        intro beyond
        rw [ringTurn_of_sign hsign, hkeyOf, if_neg hempty]
      have hnone : Blank part → CutTurn ((front ++ (key ++ behindKey)) ++ '=' :: part) cut key behindSign
          value tail := by
        intro hpartBlank
        refine .none fun beyond => ?_
        rw [hturn beyond, valueOf_blank hpartBlank hempty]
        rfl
      rcases List.append_eq_append_iff.mp hbody with ⟨begun, rfl, hvalueTail⟩ | ⟨more, hmore, _⟩
      · by_cases hbegun : begun = []
        · refine hnone ?_
          rwa [hbegun, List.append_nil]
        rcases List.append_eq_append_iff.mp hvalueTail with ⟨rest, rfl, htailRest⟩ | ⟨more, hmore, _⟩
        · -- the value is whole
          have hrest : Ends isWord rest := by
            intro c hc
            refine htail c ?_
            rw [htailRest]
            exact List.mem_head?_append_of_mem_head? hc
          have hvalueOf := valueOf_word hblank hvalue hrest
          refine .whole (fun beyond => by rw [hturn beyond, hvalueOf]; rfl) ?_ ?_ htailRest.symm
          · simp only [List.length_append, List.length_cons]
            omega
          · intro hunfinished
            exact unfinished_iff.mpr ⟨_, hsign, continues_of_valueOf hvalueOf hunfinished⟩
        · have hword : IsWord begun :=
            ⟨hbegun, fun c hc => hvalue.2 c (by rw [hmore]; exact List.mem_append_left _ hc)⟩
          have hvalueOf := valueOf_word hblank hword (ends_nil _)
          rw [List.append_nil] at hvalueOf
          exact .short (fun beyond => by rw [hturn beyond, hvalueOf]; rfl) hvalueTail.symm
      · exact hnone fun c hc => hblank c (by rw [hmore]; exact List.mem_append_left _ hc)

theorem ringTurns_nil (beyond : Text) (front fuel : Nat) (acc : List KeyValue) {result : List KeyValue}
    (h : ringTurns beyond front fuel [] acc = some result) : result = acc := by
  cases fuel with
  | zero => cases h
  | succ fuel =>
      rw [ringTurns, if_neg fun hgo => hgo.1 rfl] at h
      exact (Option.some.inj h).symm

theorem append_ne_self {acc kv : List KeyValue} (h : kv ≠ []) : acc ≠ acc ++ kv := by
  intro heq
  exact h (List.append_cancel_left (heq.symm.trans (List.append_nil acc).symm))

theorem spans_of_begins {blank word : Text} (hblank : Blank blank) (hword : Wordlike word)
    (h : beyond <+: blank ++ word) : Spans beyond := by
  obtain ⟨more, hmore⟩ := h
  rcases List.append_eq_append_iff.mp hmore with ⟨blank', rfl, _⟩ | ⟨word', rfl, rfl⟩
  · have hnil : Wordlike [] := fun c hc => by cases hc
    exact ⟨beyond, [], (List.append_nil _).symm, fun c hc => hblank c (List.mem_append_left _ hc), hnil⟩
  · exact ⟨blank, word', rfl, hblank, fun c hc => hword c (List.mem_append_left _ hc)⟩

/-- What becomes of the pairs that were found before, at a pair that may be cut. -/
theorem ringTurns_cut {fuel : Nat} {acc result : List KeyValue}
    (hcut : CutTurn s cut key behindSign value tail) (hne : s ≠ []) (hle : s.length ≤ front.length)
    (hstop : Unfinished s → ¬ Spans beyond)
    (h : ringTurns (beyond ++ front) front.length fuel s acc = some result) :
    result = acc ∨
    (∃ p, result = acc ++ [p] ∧ ¬ Spans beyond ∧ cut = behindSign ++ (value ++ tail)) ∨
    (∃ part, result = acc ++ [(key, part)] ∧ part ++ cut = value ++ tail) ∨
    ∃ fuel' rest, ringTurns (beyond ++ front) front.length fuel' rest (acc ++ [(key, value)]) = some result ∧
      rest.length ≤ s.length ∧ (Unfinished rest → Unfinished s) ∧ rest ++ cut = tail := by
  cases fuel with
  | zero => cases h
  | succ fuel =>
      rw [ringTurns, if_pos ⟨hne, hle⟩] at h
      cases hcut with
      | none hnone =>
          rw [hnone] at h
          exact .inl (Option.some.inj h).symm
      | around hsign hcut =>
          have hspans := hstop (unfinished_iff.mpr ⟨[], hsign, .inl rfl⟩)
          obtain ⟨found, rest, hvalue, hlong⟩ := valueOf_not_spans hspans front
          rw [ringTurn_of_sign hsign, if_pos rfl, hvalue] at h
          dsimp only [Option.map] at h
          cases fuel with
          | zero => cases h
          | succ fuel =>
              rw [ringTurns, if_neg fun hgo => absurd hgo.2 (Nat.not_le.mpr hlong)] at h
              exact .inr (.inl ⟨_, (Option.some.inj h).symm, hspans, hcut⟩)
      | short hturn hpart =>
          rw [hturn] at h
          exact .inr (.inr (.inl ⟨_, ringTurns_nil _ _ _ _ h, hpart⟩))
      | whole hturn hlen hunfinished hrest =>
          rw [hturn] at h
          exact .inr (.inr (.inr ⟨fuel, _, h, hlen, hunfinished, hrest⟩))

/-- **Not all pairs are found** of a list that goes on behind the length. -/
theorem ringTurns_rendered {beyond front text cut : Text} {kv : List KeyValue} (hcut : cut ≠ [])
    (hover : beyond <+: cut) (h : Rendered text kv) : kv ≠ [] →
      ∀ blank s acc fuel result, Blank blank → s ++ cut = blank ++ text → s.length ≤ front.length →
        (Unfinished s → ¬ Spans beyond) →
        ringTurns (beyond ++ front) front.length fuel s acc = some result → result ≠ acc ++ kv := by
  induction h with
  | nil => exact fun hne => absurd rfl hne
  | @one key behindKey behindSign value hkey hbehind hsign hvalue =>
      rintro - blank s acc fuel result hblank htext hle hstop hresult
      by_cases hne : s = []
      · rw [hne] at hresult
        rw [ringTurns_nil _ _ _ _ hresult]
        exact append_ne_self (List.cons_ne_nil _ _)
      have hturn : CutTurn s cut key behindSign value [] :=
        cutTurn hblank hkey hbehind hsign hvalue (ends_nil _) (by rw [List.append_nil]; exact htext)
      rcases ringTurns_cut hturn hne hle hstop hresult with
        rfl | ⟨_, _, hspans, hrest⟩ | ⟨part, rfl, hpart⟩ | ⟨_, _, _, _, _, hrest⟩
      · exact append_ne_self (List.cons_ne_nil _ _)
      · rw [List.append_nil] at hrest
        exact absurd (spans_of_begins hsign hvalue.2 (hrest ▸ hover)) hspans
      · intro heq
        have hsame := List.append_cancel_left heq
        obtain rfl : part = value := congrArg (fun l => (l.headD ([], [])).2) hsame
        exact hcut (List.append_cancel_left hpart)
      · exact absurd (List.append_eq_nil_iff.mp hrest).2 hcut
  | @cons key behindKey behindSign value between rest kv hkey hbehind hsign hvalue hbetween hblankBetween
      hkv hrendered ih =>
      rintro - blank s acc fuel result hblank htext hle hstop hresult
      by_cases hne : s = []
      · rw [hne] at hresult
        rw [ringTurns_nil _ _ _ _ hresult]
        exact append_ne_self (List.cons_ne_nil _ _)
      have hends : Ends isWord (between ++ rest) := by
        intro c hc
        rw [List.head?_append_of_ne_nil _ hbetween] at hc
        exact not_isWord_of_isWhitespace (hblankBetween c (List.mem_of_mem_head? hc))
      have htooFew : ∀ p, acc ++ [p] ≠ acc ++ (key, value) :: kv := by
        intro p heq
        exact hkv (List.cons.inj (List.append_cancel_left heq)).2.symm
      have hturn : CutTurn s cut key behindSign value (between ++ rest) :=
        cutTurn hblank hkey hbehind hsign hvalue hends htext
      rcases ringTurns_cut hturn hne hle hstop hresult with
        rfl | ⟨p, rfl, _, _⟩ | ⟨part, rfl, _⟩ | ⟨fuel', rest', hnext, hlen, hunfinished, hrest⟩
      · exact append_ne_self (List.cons_ne_nil _ _)
      · exact htooFew p
      · exact htooFew _
      · have hmore := ih hkv between rest' _ fuel' result hblankBetween hrest (hlen.trans hle)
          (fun h => hstop (hunfinished h)) hnext
        rwa [List.append_assoc] at hmore

end Cut

/-! ## The whole function -/

section Whole

variable {input : Text}

/-- A list of pairs that is long is not found. -/
theorem rendered_not_returned {kv : List KeyValue} (h : 2 ^ 32 ≤ input.length) (hkv : Rendered input kv) :
    ¬ EndsWith input (.returned kv) := by
  intro hends
  have hnot := (ends_iff_not_endless h).mp ⟨_, hends⟩
  have hlen := length_inFront input
  have hmod := Nat.mod_lt input.length (Nat.two_pow_pos 32)
  obtain ⟨fuel, result, hresult, heq⟩ := endsWith_iff.mp hends
  obtain rfl := Ending.returned.inj heq
  have hne : kv ≠ [] := by
    rintro rfl
    cases hkv
    exact absurd h (by decide)
  have htext : inFront input ++ input.drop (input.length % 2 ^ 32) = [] ++ input := List.take_append_drop _ _
  have hcut : input.drop (input.length % 2 ^ 32) ≠ [] := by
    intro hnone
    have hle := List.drop_eq_nil_iff.mp hnone
    omega
  have hover : overrun input <+: input.drop (input.length % 2 ^ 32) := by
    rw [overrun, List.drop_take]
    exact List.take_prefix _ _
  rw [behindEnd_of_le h, ← hlen] at hresult
  have hmissed := ringTurns_rendered hcut hover hkv hne [] (inFront input) [] fuel kv
    (fun c hc => by cases hc) htext (Nat.le_refl _)
    (fun hunfinished hspans => hnot ⟨h, hunfinished, hspans⟩) hresult
  exact hmissed rfl

/--
**A text is split into its pairs** exactly if it is shorter than `2^32`, or no list of pairs and
nothing that sends the splitter around.
-/
theorem splits_iff (input : Text) :
    Splits input ↔ input.length < 2 ^ 32 ∨ ¬ Endless input ∧ ∀ kv, ¬ Rendered input kv := by
  constructor
  · intro h
    by_cases hlt : input.length < 2 ^ 32
    · exact .inl hlt
    · have hle := Nat.not_lt.mp hlt
      exact .inr ⟨(ends_iff_not_endless hle).mp h.ends,
        fun kv hkv => rendered_not_returned hle hkv (h.pairs kv hkv)⟩
  · rintro (hlt | ⟨hnot, hnone⟩)
    · exact splits_of_lt hlt
    · by_cases hlt : input.length < 2 ^ 32
      · exact splits_of_lt hlt
      · exact ⟨(ends_iff_not_endless (Nat.not_lt.mp hlt)).mpr hnot, not_endsWith_outOfBounds input,
          fun kv hkv => absurd hkv (hnone kv)⟩

/-- A sign with blanks behind it, as many as there are offsets, is started over and over. -/
theorem signAndBlanks_endless : ¬ Splits ('=' :: List.replicate (2 ^ 32) ' ') := by
  intro h
  have hlen : ('=' :: List.replicate (2 ^ 32) ' ').length = 2 ^ 32 + 1 := by
    rw [List.length_cons, List.length_replicate]
  have hmod : ('=' :: List.replicate (2 ^ 32) ' ').length % 2 ^ 32 = 1 := by
    rw [hlen]
    norm_num
  have hnil : Blank [] := fun c hc => by cases hc
  have hfront : inFront ('=' :: List.replicate (2 ^ 32) ' ') = ['='] := by
    rw [inFront, hmod]
    rfl
  have hover : overrun ('=' :: List.replicate (2 ^ 32) ' ') = List.replicate (2 ^ 32 - 1) ' ' := by
    rw [overrun, hmod, List.take_cons (by norm_num), List.take_replicate, Nat.min_eq_left (by norm_num)]
    rfl
  have hblank : Blank (List.replicate (2 ^ 32 - 1) ' ') := by
    intro c hc
    rw [List.eq_of_mem_replicate hc]
    rfl
  have hno : Wordlike [] := fun c hc => by cases hc
  have hunfinished : Unfinished ['='] := .sign hnil hno hnil
  refine (ends_iff_not_endless (by rw [hlen]; omega)).mp h.ends ⟨by rw [hlen]; omega, ?_, ?_⟩
  · rw [hfront]
    exact hunfinished
  · rw [hover]
    exact ⟨_, [], (List.append_nil _).symm, hblank, fun c hc => by cases hc⟩

end Whole

end KeyValueScan

end IronStack.Proof
