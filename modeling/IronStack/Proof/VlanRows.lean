import IronStack.Proof.VlanTable
import Mathlib.Data.List.TakeWhile
import Mathlib.Data.List.Forall2

/-!
# VLANs and their rows

A table as the switch prints it: a row for each VLAN, with its number, whether it is
active, a description and perhaps some ports, and below it rows with more ports. A port
is tagged or untagged in the VLAN. Of the rows with tagged ports only the last one is
kept, and likewise of those with untagged ones; an inactive VLAN has none.
-/

namespace IronStack.Proof.VlanRows

open IronStack Lib SwitchCommander StringUtils NumberSet VlanTable

/-- A text within a line, without a terminator in it. -/
def Plain (l : Text) : Prop := ∀ c ∈ l, c ≠ '\n' ∧ c ≠ '\x00'

instance : DecidablePred Plain := fun l => List.decidableBAll (fun c => c ≠ '\n' ∧ c ≠ '\x00') l

/-- What a row says about ports, from column 53 on: a letter, the interface, and the list. -/
structure PortRow where
  tagged : Bool
  interface : Text
  listing : Text
  items : List (Nat × Nat)
  interface_length : interface.length = 6
  interface_plain : Plain interface
  isListing : Listing listing items

namespace PortRow

def text (r : PortRow) : Text := (if r.tagged then 'T' else 'U') :: (r.interface ++ r.listing)

/-- A row below that of the VLAN. -/
def line (r : PortRow) : Text := List.replicate 53 ' ' ++ r.text

/-- A port that it names. -/
def Has (r : PortRow) (x : UInt16) : Prop := ∃ item ∈ r.items, Shifted item x

end PortRow

/-- A text with blanks behind it, up to a width. -/
def pad (width : Nat) (l : Text) : Text := l ++ List.replicate (width - l.length) ' '

/-- A VLAN and its rows. -/
structure Vlan where
  flags : Text
  vlanId : UInt16
  active : Bool
  description : Text
  own : Option PortRow
  more : List PortRow
  flags_length : flags.length = 4
  flags_plain : Plain flags
  description_length : description.length ≤ 30
  description_plain : Plain description

namespace Vlan

def word (v : Vlan) : Text := if v.active then "Active".toList else "Inactive".toList

/-- The columns of a row before the ports. -/
def columns (v : Vlan) : Text :=
  v.flags ++ (pad 7 (Nat.toDigits 10 v.vlanId.toNat) ++ (pad 10 v.word ++ pad 32 v.description))

def rows (v : Vlan) : List PortRow := v.own.toList ++ v.more

/-- The row of a VLAN. -/
def line (v : Vlan) : Text := v.columns ++ (v.own.map PortRow.text).getD []

/-- Its lines. -/
def lines (v : Vlan) : List Text := v.line :: v.more.map PortRow.line

end Vlan

/-- The response: a heading, the lines of the VLANs, and the prompt. -/
structure Response where
  heading : Text
  vlans : List Vlan
  prompt : Text
  heading_find : find "Q Ports".toList (heading ++ "Q Ports".toList) = some heading.length
  heading_plain : '\x00' ∉ heading
  prompt_plain : Plain prompt
  /-- A short prompt, or one that is not taken for a row. -/
  isPrompt : prompt.length < 18 ∨
    vlans ≠ [] ∧ scanPort (prompt.drop 4) = none ∧ prompt.length ≤ 54 ∧ prompt.getLast? = some '#'

namespace Response

def text (t : Response) : Text :=
  t.heading ++ ("Q Ports".toList ++ '\n' ::
    ((t.vlans.flatMap Vlan.lines).flatMap (· ++ ['\n']) ++ t.prompt))

end Response

/-- A VLAN that is returned has the ports of all its rows. -/
structure Describes (v : Vlan) (vlan : VlanSet) : Prop where
  vlanId : vlan.vlanId = v.vlanId
  tagged : ∀ x, x ∈ vlan.taggedPorts ↔ ∃ r ∈ v.rows, r.tagged = true ∧ r.Has x
  untagged : ∀ x, x ∈ vlan.untaggedPorts ↔ ∃ r ∈ v.rows, r.tagged = false ∧ r.Has x

/-- The VLANs of the table are returned, one by one. -/
def Returns (t : Response) : Prop :=
  ∃ result, List.Forall₂ Describes t.vlans result ∧
    ∃ turns, ∀ fuel ≥ turns, getAllVlans fuel t.text = .returned true result

/-- The last row of its kind has all the ports. -/
def LastHasAll (v : Vlan) (tagged : Bool) : Prop :=
  ∀ last ∈ (v.rows.filter (·.tagged == tagged)).getLast?, ∀ r ∈ v.rows, r.tagged = tagged →
    ∀ x, r.Has x → last.Has x

/-- An inactive VLAN has no ports; an active one has some in its own row, and the last row
of tagged and that of untagged ports have all of them. -/
structure Covered (v : Vlan) : Prop where
  inactive : v.active = false → ∀ r ∈ v.rows, ∀ x, ¬r.Has x
  own : v.active = true → v.own ≠ none
  last : v.active = true → ∀ tagged, LastHasAll v tagged

/-! ## One row -/

/-- The ports that are read of a row. -/
def portSet (r : PortRow) : Finset UInt16 := ((stringToNumberSet enough r.listing).getD (false, ∅)).2

theorem stringToNumberSet_listing (r : PortRow) :
    (∀ fuel ≥ enough, stringToNumberSet fuel r.listing = some (true, portSet r)) ∧
      ∀ x, x ∈ portSet r ↔ r.Has x := by
  obtain ⟨s, hrun, hmem⟩ := insertTokens_of_listing r.isListing ∅
  have hset : portSet r = s := by
    rw [portSet, stringToNumberSet, hrun enough (Nat.le_refl _), Option.getD_some]
  rw [hset]
  refine ⟨hrun, ?_⟩
  intro x
  rw [hmem, or_iff_right (Finset.notMem_empty x)]
  rfl

/-- What a row makes of the last VLAN. -/
def update (vlan : VlanSet) (r : PortRow) : VlanSet :=
  if r.tagged then { vlan with taggedPorts := portSet r } else { vlan with untaggedPorts := portSet r }

theorem modifyLast_append (change : VlanSet → VlanSet) (flag : Option Bool) (before : List VlanSet)
    (vlan : VlanSet) :
    modifyLast change ⟨flag, before ++ [vlan]⟩ = .ok ⟨flag, before ++ [change vlan]⟩ := by
  rw [modifyLast, List.getLast?_concat]
  dsimp only
  rw [List.dropLast_concat]

/-- Ports behind 53 columns are read. -/
theorem readPorts_text {columns : Text} (hcolumns : columns.length = 53) (r : PortRow) {fuel : Nat}
    (hfuel : enough ≤ fuel) (before : List VlanSet) (vlan : VlanSet) :
    readPorts fuel ⟨some true, before ++ [vlan]⟩ (columns ++ r.text) =
      .ok ⟨some true, before ++ [update vlan r]⟩ := by
  have hlen : (columns ++ r.text).length = 60 + r.listing.length := by
    rw [PortRow.text, List.length_append, List.length_cons, List.length_append, r.interface_length, hcolumns]
    omega
  have hletter : (columns ++ r.text)[53]? = some (if r.tagged then 'T' else 'U') := by
    rw [List.getElem?_append_right (by omega), hcolumns]
    rfl
  have hdrop : (columns ++ r.text).drop 60 = r.listing := by
    have hfront : (columns ++ (if r.tagged then 'T' else 'U') :: r.interface).length = 60 := by
      rw [List.length_append, List.length_cons, r.interface_length, hcolumns]
    have hsplit : columns ++ r.text =
      (columns ++ (if r.tagged then 'T' else 'U') :: r.interface) ++ r.listing := by
      rw [PortRow.text, List.append_assoc, List.cons_append]
    rw [hsplit, List.drop_left' hfront]
  have hports : HasPorts (columns ++ r.text) := by
    refine ⟨by omega, ?_⟩
    rw [hletter]
    cases r.tagged with
    | true => exact .inl rfl
    | false => exact .inr rfl
  rw [readPorts_row rfl hports (by omega), hdrop, (stringToNumberSet_listing r).1 fuel hfuel]
  dsimp only
  rw [hletter, update]
  cases r.tagged with
  | true => exact modifyLast_append _ _ before vlan
  | false => exact modifyLast_append _ _ before vlan

/-- A padded text is followed by a blank, if it is not as wide as its column. -/
theorem pad_append (width : Nat) {l : Text} (h : l.length < width) (rest : Text) :
    ∃ rest', pad width l ++ rest = l ++ ' ' :: rest' := by
  refine ⟨List.replicate (width - l.length - 1) ' ' ++ rest, ?_⟩
  obtain ⟨k, hk⟩ := Nat.exists_eq_succ_of_ne_zero (show width - l.length ≠ 0 by omega)
  rw [pad, hk, List.replicate_succ, List.append_assoc]
  rfl

theorem length_pad (width : Nat) {l : Text} (h : l.length ≤ width) : (pad width l).length = width := by
  rw [pad, List.length_append, List.length_replicate]
  omega

namespace Vlan

variable (v : Vlan)

theorem length_number : (Nat.toDigits 10 v.vlanId.toNat).length ≤ 5 := by
  have hlt := UInt16.toNat_lt v.vlanId
  exact Nat.toDigits_length 10 v.vlanId.toNat 5 (by omega) (by omega)

theorem length_word : v.word.length ≤ 8 := by
  rw [word]
  cases v.active <;> decide

theorem length_columns : v.columns.length = 53 := by
  have hnumber := length_pad 7 (Nat.le_trans v.length_number (by omega))
  have hword := length_pad 10 (Nat.le_trans v.length_word (by omega))
  have hdescription := length_pad 32 (Nat.le_trans v.description_length (by omega))
  rw [columns, List.length_append, List.length_append, List.length_append, v.flags_length, hnumber, hword,
    hdescription]

/-- The number of a VLAN is read. -/
theorem scanPort_columns (tail : Text) : scanPort ((v.columns ++ tail).drop 4) = some v.vlanId := by
  have hlen := v.length_number
  have hdrop : (v.columns ++ tail).drop 4 =
      pad 7 (Nat.toDigits 10 v.vlanId.toNat) ++ (pad 10 v.word ++ pad 32 v.description ++ tail) := by
    rw [columns, List.append_assoc, List.drop_left' v.flags_length]
    simp only [List.append_assoc]
  obtain ⟨rest, hrest⟩ := @pad_append 7 (Nat.toDigits 10 v.vlanId.toNat) (by omega)
    (pad 10 v.word ++ pad 32 v.description ++ tail)
  have hdigits : ∀ c ∈ Nat.toDigits 10 v.vlanId.toNat, c.isDigit = true :=
    fun c hc => Nat.isDigit_of_mem_toDigits (by decide) (by decide) hc
  have hends : Ends Char.isDigit (' ' :: rest) := ends_cons rfl rest
  have hlt := UInt16.toNat_lt v.vlanId
  have hlong : strtoul false v.vlanId.toNat = v.vlanId.toNat := by
    rw [strtoul, if_neg (by omega), if_neg Bool.false_ne_true]
  rw [hdrop, hrest, scanPort, scanUnsigned, scanNumber_of_digits Nat.toDigits_ne_nil hdigits hends, numberOf,
    Nat.ofDigitChars_ten_toDigits, Option.map_some, Option.map_some]
  dsimp only
  rw [hlong, UInt16.ofNat_toNat]

/-- And whether it is active. -/
theorem rowActive_columns (tail : Text) : rowActive (v.columns ++ tail) = some v.active := by
  have hlen := v.length_word
  have hfront : (v.flags ++ pad 7 (Nat.toDigits 10 v.vlanId.toNat)).length = 11 := by
    rw [List.length_append, v.flags_length, length_pad 7 (Nat.le_trans v.length_number (by omega))]
  have hdrop : (v.columns ++ tail).drop 11 = pad 10 v.word ++ (pad 32 v.description ++ tail) := by
    have hsplit : v.columns ++ tail = (v.flags ++ pad 7 (Nat.toDigits 10 v.vlanId.toNat)) ++
        (pad 10 v.word ++ (pad 32 v.description ++ tail)) := by
      simp only [columns, List.append_assoc]
    rw [hsplit, List.drop_left' hfront]
  obtain ⟨rest, hrest⟩ := @pad_append 10 v.word (by omega) (pad 32 v.description ++ tail)
  rw [rowActive, hdrop, hrest, word]
  cases v.active with
  | true => rfl
  | false => rfl

end Vlan

/-- A row of ports is not taken for that of a VLAN. -/
theorem scanPort_line (r : PortRow) : scanPort (r.line.drop 4) = none := by
  have hdrop : r.line.drop 4 = List.replicate 49 ' ' ++ r.text := rfl
  have hspace : (List.replicate 49 ' ' ++ r.text).dropWhile isSpace = r.text := by
    refine dropWhile_append_of_ends ?_ ?_
    · intro c hc
      rw [List.eq_of_mem_replicate hc]
      rfl
    · rw [PortRow.text]
      refine ends_cons ?_ _
      cases r.tagged <;> rfl
  rw [hdrop, scanPort, scanUnsigned, scanNumber, hspace, PortRow.text]
  cases r.tagged with
  | true => rfl
  | false => rfl

/-! ## One VLAN -/

namespace Vlan

/-- The VLAN as its row says, without ports. -/
def entry (v : Vlan) : VlanSet where
  vlanId := v.vlanId
  active := v.active
  description := trimLeadingAndTrailingWhitespace ((v.line.drop 21).take 30)
  taggedPorts := ∅
  untaggedPorts := ∅

/-- The VLAN with what its rows say one after the other, if it is active. -/
def returned (v : Vlan) : VlanSet := if v.active then v.rows.foldl update v.entry else v.entry

end Vlan

section Rows

variable {fuel : Nat} {p : Progress} {v : Vlan} {rest : List Text}

theorem length_line (v : Vlan) : 53 ≤ v.line.length := by
  have hlen := v.length_columns
  rw [Vlan.line, List.length_append]
  omega

theorem readVlan_line (p : Progress) (v : Vlan) :
    readVlan p v.line = .ok ⟨some v.active, p.result ++ [v.entry]⟩ := by
  have hlen := length_line v
  have hscan : scanPort (v.line.drop 4) = some v.vlanId := v.scanPort_columns _
  have hactive : rowActive v.line = some v.active := v.rowActive_columns _
  rw [readVlan_row hscan hactive, substr_of_le (by omega)]
  rfl

theorem length_portLine (r : PortRow) : 60 ≤ r.line.length := by
  rw [PortRow.line, PortRow.text, List.length_append, List.length_cons, List.length_append,
    List.length_replicate, r.interface_length]
  omega

/-- The rows below that of an active VLAN. -/
theorem readLines_more (hfuel : enough ≤ fuel) (rows : List PortRow) (before : List VlanSet)
    (vlan : VlanSet) :
    readLines fuel ⟨some true, before ++ [vlan]⟩ (rows.map PortRow.line ++ rest) =
      readLines fuel ⟨some true, before ++ [rows.foldl update vlan]⟩ rest := by
  induction rows generalizing vlan with
  | nil => rfl
  | cons r rows ih =>
      have hlen := length_portLine r
      rw [List.map_cons, List.cons_append, readLines_ok (by omega) (readVlan_none (scanPort_line r)),
        portsLoop, PortRow.line, readPorts_text List.length_replicate r hfuel]
      exact ih (update vlan r)

/-- Those of an inactive one are not looked at. -/
theorem readLines_more_inactive (rows : List PortRow) (result : List VlanSet) :
    readLines fuel ⟨some false, result⟩ (rows.map PortRow.line ++ rest) =
      readLines fuel ⟨some false, result⟩ rest := by
  induction rows with
  | nil => rfl
  | cons r rows ih =>
      have hlen := length_portLine r
      rw [List.map_cons, List.cons_append, readLines_ok (by omega) (readVlan_none (scanPort_line r)),
        portsLoop, readPorts_inactive rfl]
      exact ih

/-- **A VLAN is read**, if it is inactive or has ports in its own row. -/
theorem readLines_vlan (hfuel : enough ≤ fuel) (hown : v.active = true → v.own ≠ none) :
    readLines fuel p (v.lines ++ rest) = readLines fuel ⟨some v.active, p.result ++ [v.returned]⟩ rest := by
  have hstep : readLines fuel p (v.lines ++ rest) =
      portsLoop fuel ⟨some v.active, p.result ++ [v.entry]⟩ v.line (v.more.map PortRow.line ++ rest) :=
    readLines_ok (Nat.not_lt.mpr (Nat.le_trans (by decide) (length_line v))) (readVlan_line p v)
  rw [hstep, portsLoop, Vlan.returned]
  cases hactive : v.active with
  | false =>
      rw [readPorts_inactive rfl]
      exact readLines_more_inactive v.more _
  | true =>
      obtain ⟨r, hr⟩ := Option.ne_none_iff_exists'.mp (hown hactive)
      have hline : v.line = v.columns ++ r.text := by
        rw [Vlan.line, hr]
        rfl
      have hrows : v.rows = r :: v.more := by
        rw [Vlan.rows, hr]
        rfl
      rw [hline, readPorts_text v.length_columns r hfuel, if_pos rfl, hrows]
      exact readLines_more hfuel v.more _ _

/-- An active VLAN without ports in its row ends the loop. -/
theorem readLines_bare (hactive : v.active = true) (hown : v.own = none) :
    readLines fuel p (v.lines ++ rest) = .returned false (p.result ++ [v.entry]) := by
  have hline : v.line = v.columns := by
    rw [Vlan.line, hown]
    exact List.append_nil _
  have hports : ¬HasPorts v.line := by
    rintro ⟨hlong, _⟩
    rw [hline, v.length_columns] at hlong
    omega
  have hlast : v.line.getLast? = some ' ' := by
    have hdescription := v.description_length
    obtain ⟨k, hk⟩ := Nat.exists_eq_succ_of_ne_zero (show 32 - v.description.length ≠ 0 by omega)
    rw [hline, Vlan.columns, pad, pad, pad, hk, List.replicate_succ']
    simp only [← List.append_assoc]
    exact List.getLast?_concat
  have hstep : readLines fuel p (v.lines ++ rest) =
      portsLoop fuel ⟨some v.active, p.result ++ [v.entry]⟩ v.line (v.more.map PortRow.line ++ rest) :=
    readLines_ok (Nat.not_lt.mpr (Nat.le_trans (by decide) (length_line v))) (readVlan_line p v)
  rw [hstep, portsLoop, hactive, readPorts_end rfl hports, hlast]
  rfl

end Rows

/-! ## The whole table -/

theorem Plain.append {l l' : Text} (h : Plain l) (h' : Plain l') : Plain (l ++ l') :=
  List.forall_mem_append.mpr ⟨h, h'⟩

theorem plain_blanks (n : Nat) : Plain (List.replicate n ' ') := by
  intro c hc
  rw [List.eq_of_mem_replicate hc]
  decide

theorem plain_digits {l : Text} (h : ∀ c ∈ l, c.isDigit = true) : Plain l := by
  intro c hc
  have hdigit := h c hc
  refine ⟨?_, ?_⟩
  · rintro rfl
    cases hdigit
  · rintro rfl
    cases hdigit

theorem Plain.pad {width : Nat} {l : Text} (h : Plain l) : Plain (pad width l) := h.append (plain_blanks _)

theorem plain_numeral {bound n : Nat} {l : Text} (h : numeral bound l = some n) : Plain l :=
  plain_digits (List.all_eq_true.mp (numeral_eq_some.mp h).2.1)

theorem plain_item {t : Text} {a b : Nat} (h : Item t a b) : Plain t := by
  cases h with
  | number hn => exact plain_numeral hn
  | range hs ht =>
      refine (plain_numeral hs).append (List.forall_mem_cons.mpr ⟨by decide, plain_numeral ht⟩)

theorem plain_listing {t : Text} {items : List (Nat × Nat)} (h : Listing t items) : Plain t := by
  induction h with
  | empty => exact List.forall_mem_nil _
  | last ht => exact plain_item ht
  | cons ht _ _ ih => exact (plain_item ht).append (List.forall_mem_cons.mpr ⟨by decide, ih⟩)

theorem plain_text (r : PortRow) : Plain r.text := by
  refine List.forall_mem_cons.mpr ⟨?_, r.interface_plain.append (plain_listing r.isListing)⟩
  cases r.tagged <;> decide

theorem plain_columns (v : Vlan) : Plain v.columns := by
  have hdigits : Plain (Nat.toDigits 10 v.vlanId.toNat) :=
    plain_digits fun c hc => Nat.isDigit_of_mem_toDigits (by decide) (by decide) hc
  have hword : Plain v.word := by
    rw [Vlan.word]
    cases v.active <;> decide
  exact v.flags_plain.append (hdigits.pad.append (hword.pad.append v.description_plain.pad))

/-- No line of a VLAN is empty, or goes on to the next one. -/
theorem plain_lines (v : Vlan) : ∀ line ∈ v.lines, line ≠ [] ∧ Plain line := by
  refine List.forall_mem_cons.mpr ⟨⟨?_, ?_⟩, ?_⟩
  · intro hnil
    have hlen := length_line v
    rw [hnil] at hlen
    cases hlen
  · refine (plain_columns v).append ?_
    cases v.own with
    | none => exact List.forall_mem_nil _
    | some r => exact plain_text r
  · intro line hline
    obtain ⟨r, _, rfl⟩ := List.mem_map.mp hline
    exact ⟨by simp [PortRow.line], (plain_blanks 53).append (plain_text r)⟩

/-- The text is taken apart into its lines, and the prompt. -/
theorem tokenize_lines {lines : List Text} (h : ∀ line ∈ lines, line ≠ [] ∧ Plain line) (prompt : Text) :
    tokenize (lines.flatMap (· ++ ['\n']) ++ prompt) ['\n'] = lines ++ tokenize prompt ['\n'] := by
  induction lines with
  | nil => rfl
  | cons line lines ih =>
      obtain ⟨⟨hne, hplain⟩, hlines⟩ := List.forall_mem_cons.mp h
      have hnewline : '\n' ∉ line := fun hmem => (hplain _ hmem).1 rfl
      have hsplit : (line :: lines).flatMap (· ++ ['\n']) ++ prompt =
          line ++ '\n' :: (lines.flatMap (· ++ ['\n']) ++ prompt) := by
        rw [List.flatMap_cons, List.append_assoc, List.append_assoc]
        rfl
      rw [hsplit, tokenize_cons hne hnewline, ih hlines]
      rfl

theorem le_length_of_find {needle l : Text} {offset : Nat} (h : find needle l = some offset) :
    offset + needle.length ≤ l.length := by
  induction l generalizing offset with
  | nil =>
      rw [find] at h
      split at h
      · rename_i hneedle
        cases h
        rw [hneedle]
        exact Nat.le_refl _
      · cases h
  | cons c l ih =>
      rw [find] at h
      split at h
      · rename_i hprefix
        cases h
        rw [Nat.zero_add]
        exact (List.isPrefixOf_iff_prefix.mp hprefix).length_le
      · obtain ⟨k, hk, rfl⟩ := Option.map_eq_some_iff.mp h
        have hle := ih hk
        rw [List.length_cons]
        omega

/-- Where a text first occurs is the same with something behind it. -/
theorem find_append {needle l : Text} {offset : Nat} (h : find needle l = some offset) (rest : Text) :
    find needle (l ++ rest) = some offset := by
  induction l generalizing offset with
  | nil =>
      rw [find] at h
      split at h
      · rename_i hneedle
        subst hneedle
        rw [← h]
        cases rest <;> rfl
      · cases h
  | cons c l ih =>
      rw [find] at h
      rw [List.cons_append, find]
      split at h
      · rename_i hprefix
        have hlonger : needle <+: c :: (l ++ rest) :=
          (List.isPrefixOf_iff_prefix.mp hprefix).trans (List.prefix_append (c :: l) rest)
        rw [if_pos (List.isPrefixOf_iff_prefix.mpr hlonger)]
        exact h
      · rename_i hprefix
        obtain ⟨k, hk, rfl⟩ := Option.map_eq_some_iff.mp h
        have hle := le_length_of_find hk
        have hnot : ¬needle.isPrefixOf (c :: (l ++ rest)) = true := by
          intro hlonger
          refine hprefix (List.isPrefixOf_iff_prefix.mpr ?_)
          refine List.prefix_of_prefix_length_le (List.isPrefixOf_iff_prefix.mp hlonger)
            (List.prefix_append (c :: l) rest) ?_
          rw [List.length_cons]
          omega
        rw [if_neg hnot, ih hk]
        rfl

namespace Response

variable (t : Response)

/-- What stands behind the heading. -/
def table : Text := (t.vlans.flatMap Vlan.lines).flatMap (· ++ ['\n']) ++ t.prompt

theorem plain_vlans : ∀ line ∈ t.vlans.flatMap Vlan.lines, line ≠ [] ∧ Plain line := by
  intro line hline
  obtain ⟨v, _, hmem⟩ := List.mem_flatMap.mp hline
  exact plain_lines v line hmem

/-- The text is all read, as there is no terminator in it. -/
theorem terminated_text : terminated t.text = t.text := by
  refine List.takeWhile_eq_self_iff.mpr ?_
  intro c hc
  refine decide_eq_true ?_
  rcases List.mem_append.mp hc with hc | hc
  · rintro rfl
    exact t.heading_plain hc
  rcases List.mem_append.mp hc with hc | hc
  · rintro rfl
    revert hc
    decide
  rcases List.mem_cons.mp hc with rfl | hc
  · decide
  rcases List.mem_append.mp hc with hc | hc
  · obtain ⟨line, hline, hmem⟩ := List.mem_flatMap.mp hc
    rcases List.mem_append.mp hmem with hmem | hmem
    · exact ((t.plain_vlans line hline).2 c hmem).2
    · rw [List.mem_singleton.mp hmem]
      decide
  · exact (t.prompt_plain c hc).2

/-- **The lines of the response** are those of the VLANs, and the prompt. -/
theorem getAllVlans_text (fuel : Nat) :
    getAllVlans fuel t.text =
      readLines fuel ⟨none, []⟩ (t.vlans.flatMap Vlan.lines ++ tokenize t.prompt ['\n']) := by
  have hsplit : t.text = (t.heading ++ "Q Ports".toList) ++ '\n' :: t.table := by
    rw [text, List.append_assoc]
    rfl
  have hfind : find "Q Ports".toList (terminated t.text) = some t.heading.length := by
    rw [t.terminated_text, hsplit]
    exact find_append t.heading_find _
  have hlen : (t.heading ++ "Q Ports".toList ++ ['\n']).length = t.heading.length + 8 := by
    rw [List.length_append, List.length_append]
    rfl
  have hsplit' : t.text = (t.heading ++ "Q Ports".toList ++ ['\n']) ++ t.table := by
    rw [hsplit, List.append_assoc _ ['\n']]
    rfl
  have hle : t.heading.length + 8 ≤ (terminated t.text).length := by
    rw [t.terminated_text, hsplit', List.length_append, hlen]
    omega
  rw [getAllVlans_of_find hfind hle, t.terminated_text, hsplit', List.drop_left' hlen, table,
    tokenize_lines t.plain_vlans]

/-- The prompt ends the loop, or is passed over. -/
theorem readLines_prompt {fuel : Nat} {p : Progress} (hflag : t.vlans ≠ [] → p.vlanActive ≠ none) :
    readLines fuel p (tokenize t.prompt ['\n']) = .returned true p.result := by
  by_cases hnil : t.prompt = []
  · rw [hnil]
    rfl
  have hnewline : '\n' ∉ t.prompt := fun hmem => (t.prompt_plain _ hmem).1 rfl
  rw [tokenize_word hnil hnewline]
  by_cases hshort : t.prompt.length < 18
  · rw [readLines_short hshort]
    rfl
  · obtain ⟨hvlans, hscan, hlen, hlast⟩ := t.isPrompt.resolve_left hshort
    obtain ⟨active, hactive⟩ := Option.ne_none_iff_exists'.mp (hflag hvlans)
    have hports : ¬HasPorts t.prompt := fun h => absurd h.1 (by omega)
    rw [readLines_ok hshort (readVlan_none hscan), portsLoop]
    cases active with
    | false =>
        rw [readPorts_inactive hactive]
        rfl
    | true =>
        rw [readPorts_end hactive hports, hlast]
        rfl

end Response

/-! ## What is returned -/

/-- **All VLANs are returned** if each active one has ports in its own row. -/
theorem readLines_vlans {fuel : Nat} (hfuel : enough ≤ fuel) {vlans : List Vlan} (p : Progress)
    (rest : List Text) (hown : ∀ v ∈ vlans, v.active = true → v.own ≠ none) :
    ∃ flag, (vlans ≠ [] ∨ p.vlanActive ≠ none → flag ≠ none) ∧
      readLines fuel p (vlans.flatMap Vlan.lines ++ rest) =
        readLines fuel ⟨flag, p.result ++ vlans.map Vlan.returned⟩ rest := by
  induction vlans generalizing p with
  | nil =>
      refine ⟨p.vlanActive, fun h => h.resolve_left fun h => h rfl, ?_⟩
      rw [List.map_nil, List.append_nil]
      rfl
  | cons v vlans ih =>
      obtain ⟨hv, hvlans⟩ := List.forall_mem_cons.mp hown
      obtain ⟨flag, hflag, hrun⟩ := ih ⟨some v.active, p.result ++ [v.returned]⟩ hvlans
      refine ⟨flag, fun _ => hflag (.inr (Option.some_ne_none _)), ?_⟩
      rw [List.flatMap_cons, List.append_assoc, readLines_vlan hfuel hv, hrun, List.append_assoc,
        List.map_cons]
      rfl

/-- If one has none, the table is turned down. -/
theorem readLines_vlans_bare {fuel : Nat} (hfuel : enough ≤ fuel) {vlans : List Vlan} (p : Progress)
    (rest : List Text) (hbare : ∃ v ∈ vlans, v.active = true ∧ v.own = none) :
    ∃ result, readLines fuel p (vlans.flatMap Vlan.lines ++ rest) = .returned false result := by
  induction vlans generalizing p with
  | nil =>
      obtain ⟨v, hv, _⟩ := hbare
      cases hv
  | cons v vlans ih =>
      rw [List.flatMap_cons, List.append_assoc]
      by_cases hhead : v.active = true ∧ v.own = none
      · exact ⟨_, readLines_bare hhead.1 hhead.2⟩
      · have hv : v.active = true → v.own ≠ none := fun hactive hown => hhead ⟨hactive, hown⟩
        rw [readLines_vlan hfuel hv]
        refine ih _ ?_
        obtain ⟨u, hu, hbare⟩ := hbare
        rcases List.mem_cons.mp hu with rfl | hu
        · exact absurd hbare hhead
        · exact ⟨u, hu, hbare⟩

/-- The ports of one kind. -/
def portsOf (tagged : Bool) (vlan : VlanSet) : Finset UInt16 :=
  if tagged then vlan.taggedPorts else vlan.untaggedPorts

theorem portsOf_update (tagged : Bool) (vlan : VlanSet) (r : PortRow) :
    portsOf tagged (update vlan r) = if r.tagged = tagged then portSet r else portsOf tagged vlan := by
  rw [update]
  cases r.tagged <;> cases tagged <;> rfl

/-- **The last row of its kind is what is kept.** -/
theorem portsOf_foldl (tagged : Bool) (rows : List PortRow) (vlan : VlanSet) :
    portsOf tagged (rows.foldl update vlan) =
      ((rows.filter (·.tagged == tagged)).getLast?.map portSet).getD (portsOf tagged vlan) := by
  induction rows using List.reverseRecOn with
  | nil => rfl
  | append_singleton rows r ih =>
      rw [List.foldl_concat, portsOf_update, List.filter_append]
      by_cases hkind : r.tagged = tagged
      · have hlast : [r].filter (·.tagged == tagged) = [r] := by simp [hkind]
        rw [if_pos hkind, hlast, List.getLast?_concat]
        rfl
      · have hnone : [r].filter (·.tagged == tagged) = [] := by simp [hkind]
        rw [if_neg hkind, hnone, List.append_nil, ih]

theorem portsOf_returned {v : Vlan} (hactive : v.active = true) (tagged : Bool) :
    portsOf tagged v.returned = ((v.rows.filter (·.tagged == tagged)).getLast?.map portSet).getD ∅ := by
  rw [Vlan.returned, if_pos hactive, portsOf_foldl]
  cases tagged <;> rfl

/-- The ports of a kind are those of all rows if the last one has all of them. -/
theorem portsOf_returned_iff {v : Vlan} (hactive : v.active = true) (tagged : Bool) :
    (∀ x, x ∈ portsOf tagged v.returned ↔ ∃ r ∈ v.rows, r.tagged = tagged ∧ r.Has x) ↔
      LastHasAll v tagged := by
  have hmem : ∀ r, r ∈ v.rows.filter (·.tagged == tagged) ↔ r ∈ v.rows ∧ r.tagged = tagged := by
    intro r
    rw [List.mem_filter, beq_iff_eq]
  rw [portsOf_returned hactive, LastHasAll]
  cases hlast : (v.rows.filter (·.tagged == tagged)).getLast? with
  | none =>
      have hnone := List.getLast?_eq_none_iff.mp hlast
      rw [hnone] at hmem
      refine ⟨fun _ => nofun, ?_⟩
      intro _ x
      refine ⟨fun hx => absurd hx (Finset.notMem_empty x), ?_⟩
      rintro ⟨r, hr, hkind, _⟩
      exact absurd ((hmem r).mpr ⟨hr, hkind⟩) List.not_mem_nil
  | some last =>
      obtain ⟨hrow, hkind⟩ := (hmem last).mp (List.mem_of_getLast? hlast)
      have hset : ∀ x, x ∈ portSet last ↔ last.Has x := (stringToNumberSet_listing last).2
      refine ⟨?_, ?_⟩
      · intro h last' hlast' r hr hkind' x hx
        cases hlast'
        exact (hset x).mp ((h x).mpr ⟨r, hr, hkind', hx⟩)
      · intro h x
        refine ⟨fun hx => ⟨last, hrow, hkind, (hset x).mp hx⟩, ?_⟩
        rintro ⟨r, hr, hkind', hx⟩
        exact (hset x).mpr (h last rfl r hr hkind' x hx)

theorem vlanId_returned (v : Vlan) : v.returned.vlanId = v.vlanId := by
  have hupdate : ∀ (rows : List PortRow) (vlan : VlanSet), (rows.foldl update vlan).vlanId = vlan.vlanId := by
    intro rows
    induction rows with
    | nil => exact fun _ => rfl
    | cons r rows ih =>
        intro vlan
        rw [List.foldl_cons, ih, update]
        cases r.tagged <;> rfl
  rw [Vlan.returned]
  split
  · exact hupdate v.rows v.entry
  · rfl

/-- **A VLAN is returned as it is** exactly if it is covered. -/
theorem describes_iff {v : Vlan} (hown : v.active = true → v.own ≠ none) :
    Describes v v.returned ↔ Covered v := by
  cases hactive : v.active with
  | false =>
      have hreturned : v.returned = v.entry := by
        rw [Vlan.returned, hactive]
        rfl
      have hnone : ∀ {x : UInt16}, x ∉ (∅ : Finset UInt16) := fun {x} => Finset.notMem_empty x
      rw [hreturned]
      refine ⟨?_, ?_⟩
      · intro h
        refine ⟨fun _ r hr x hx => ?_, ?_, ?_⟩
        · cases hkind : r.tagged with
          | true => exact hnone ((h.tagged x).mpr ⟨r, hr, hkind, hx⟩)
          | false => exact hnone ((h.untagged x).mpr ⟨r, hr, hkind, hx⟩)
        · intro htrue
          rw [hactive] at htrue
          cases htrue
        · intro htrue
          rw [hactive] at htrue
          cases htrue
      · intro h
        refine ⟨rfl, ?_, ?_⟩
        · intro x
          refine ⟨fun hx => absurd hx hnone, ?_⟩
          rintro ⟨r, hr, _, hx⟩
          exact absurd hx (h.inactive hactive r hr x)
        · intro x
          refine ⟨fun hx => absurd hx hnone, ?_⟩
          rintro ⟨r, hr, _, hx⟩
          exact absurd hx (h.inactive hactive r hr x)
  | true =>
      have hkinds := portsOf_returned_iff hactive
      refine ⟨?_, ?_⟩
      · intro h
        refine ⟨?_, hown, ?_⟩
        · intro hfalse
          rw [hactive] at hfalse
          cases hfalse
        · intro _ tagged
          cases tagged with
          | true => exact (hkinds true).mp h.tagged
          | false => exact (hkinds false).mp h.untagged
      · intro h
        have hlast := h.last hactive
        exact ⟨vlanId_returned v, (hkinds true).mpr (hlast true), (hkinds false).mpr (hlast false)⟩

/-- **The VLANs of a table are returned** exactly if each of them is covered. -/
theorem returns_iff (t : Response) : Returns t ↔ ∀ v ∈ t.vlans, Covered v := by
  have hrun : ∀ fuel ≥ enough, (∀ v ∈ t.vlans, v.active = true → v.own ≠ none) →
      getAllVlans fuel t.text = .returned true (t.vlans.map Vlan.returned) := by
    intro fuel hfuel hown
    obtain ⟨flag, hflag, hrun⟩ := readLines_vlans hfuel ⟨none, []⟩ (tokenize t.prompt ['\n']) hown
    rw [t.getAllVlans_text, hrun, t.readLines_prompt fun hne => hflag (.inl hne), List.nil_append]
  refine ⟨?_, ?_⟩
  · rintro ⟨result, hdescribes, turns, hreturns⟩
    have hreturned := hreturns (max turns enough) (Nat.le_max_left _ _)
    have hown : ∀ v ∈ t.vlans, v.active = true → v.own ≠ none := by
      intro v hv hactive hnone
      obtain ⟨result', hfalse⟩ := readLines_vlans_bare (Nat.le_max_right turns enough) ⟨none, []⟩
        (tokenize t.prompt ['\n']) ⟨v, hv, hactive, hnone⟩
      rw [t.getAllVlans_text, hfalse] at hreturned
      cases hreturned
    rw [hrun _ (Nat.le_max_right _ _) hown] at hreturned
    cases hreturned
    intro v hv
    have hboth := List.forall₂_map_right_iff.mp hdescribes
    exact (describes_iff (hown v hv)).mp (List.forall₂_same.mp hboth v hv)
  · intro h
    have hown : ∀ v ∈ t.vlans, v.active = true → v.own ≠ none := fun v hv => (h v hv).own
    refine ⟨t.vlans.map Vlan.returned, ?_, enough, fun fuel hfuel => hrun fuel hfuel hown⟩
    refine List.forall₂_map_right_iff.mpr (List.forall₂_same.mpr ?_)
    intro v hv
    exact (describes_iff (hown v hv)).mpr (h v hv)

/--
**The table of VLANs is parsed** without a fault exactly where the text is safe, and the
VLANs of a table are returned exactly if each of them is covered.
-/
theorem parses_iff (responseBuf : Text) (t : Response) :
    ((∀ fuel f, getAllVlans fuel responseBuf ≠ .fault f) ↔ SafeText responseBuf) ∧
      (Returns t ↔ ∀ v ∈ t.vlans, Covered v) :=
  ⟨safeText_iff responseBuf, returns_iff t⟩

/-- A row with one tagged port. -/
def onePort (listing : Text) (port : Nat) (h : Item listing port port) : PortRow where
  tagged := true
  interface := " Te 0/".toList
  listing := listing
  items := [(port, port)]
  interface_length := rfl
  interface_plain := by decide
  isListing := .last h

/-- A VLAN with a tagged port in its row, and another one below. -/
def twoRows : Response where
  heading := []
  vlans := [{
    flags := "*   ".toList
    vlanId := 7
    active := true
    description := "lab".toList
    own := some (onePort "1".toList 1 (.number (by decide)))
    more := [onePort "2".toList 2 (.number (by decide))]
    flags_length := rfl
    flags_plain := by decide
    description_length := by decide
    description_plain := by decide }]
  prompt := "FTOS#".toList
  heading_find := by decide
  heading_plain := List.not_mem_nil
  prompt_plain := by decide
  isPrompt := .inl (by decide)

/-- A row of ports without a VLAN above it. -/
def strayRow : Text := "Q Ports\n".toList ++ List.replicate 53 ' ' ++ "T Te 0/1".toList

/-- The stray row is read by a flag that is not set, and of the two rows only one is returned. -/
theorem parses_fails : ¬(∀ fuel f, getAllVlans fuel strayRow ≠ .fault f) ∧ ¬Returns twoRows := by
  refine ⟨fun h => h 1 .vlanActive (by decide +kernel), ?_⟩
  intro h
  have hcovered := (returns_iff twoRows).mp h _ List.mem_cons_self
  have hhas := hcovered.last rfl true (onePort "2".toList 2 (.number (by decide))) rfl
    (onePort "1".toList 1 (.number (by decide))) List.mem_cons_self rfl 2
    ⟨(1, 1), List.mem_cons_self, by unfold Shifted; decide⟩
  obtain ⟨item, hitem, hshifted⟩ := hhas
  rw [List.mem_singleton.mp hitem] at hshifted
  exact absurd hshifted.1 (by decide)

end IronStack.Proof.VlanRows
