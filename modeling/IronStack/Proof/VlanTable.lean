import IronStack.Proof.NumberSet

/-!
# The table of VLANs

The table is read line by line, by columns. A line that has a number where a row of a
VLAN has one is such a row; whether that VLAN is active goes on to the lines below, which
may have more ports of it. Nothing is known before the first row, a row may be shorter
than the columns that are read of it, and every row of ports takes the place of the one
before.
-/

namespace IronStack.Proof.VlanTable

open IronStack Lib SwitchCommander StringUtils NumberSet

/-! ## What goes through without a fault -/

/-- There are ports in a line. -/
abbrev HasPorts (line : Text) : Prop :=
  line.length > 54 ∧ ((line)[53]? = some 'T' ∨ (line)[53]? = some 'U')

/-- What the row of a VLAN says about it, if the word is one of the two. -/
def rowActive (line : Text) : Option Bool :=
  (scanWord (line.drop 11)).bind fun word =>
    if word = "Active".toList then some true
    else if word = "Inactive".toList then some false else none

/-- The ports of a line are in their columns, or are not looked at. Behind a list of
ports that is never done nothing is. -/
def PortsSafe (active : Bool) (line : Text) (next : Prop) : Prop :=
  if active then HasPorts line → 60 ≤ line.length ∧ (Hangs (tokenize (line.drop 60) [',']) ∨ next)
  else next

/--
The lines that go through, by what the last row of a VLAN said. A row has a word of less
than 128 characters for it, and goes on to the description if the word is one of the two;
otherwise it ends the loop. A longer line that is no row has a row above it.
-/
def Safe : Option Bool → List Text → Prop
  | _, [] => True
  | flag, line :: lines =>
      if line.length < 18 then Safe flag lines
      else if (scanPort (line.drop 4)).isSome then
        (∀ word ∈ scanWord (line.drop 11), word.length < 128) ∧
          ∀ active ∈ rowActive line, 21 ≤ line.length ∧ PortsSafe active line (Safe (some active) lines)
      else ∃ active ∈ flag, PortsSafe active line (Safe (some active) lines)

/-- A text up to its terminator. -/
abbrev terminated (responseBuf : Text) : Text := responseBuf.takeWhile (· ≠ '\x00')

/-- Something follows the heading, and the lines go through. -/
def SafeText (responseBuf : Text) : Prop :=
  ∀ offset ∈ find "Q Ports".toList (terminated responseBuf), offset + 8 ≤ (terminated responseBuf).length ∧
    Safe none (tokenize ((terminated responseBuf).drop (offset + 8)) ['\n'])

/-- There is a VLAN to which ports belong. -/
def Ready (p : Progress) : Prop := p.vlanActive ≠ none → p.result ≠ []

/-! ### One line -/

section Line

variable {p : Progress} {line : Text} {fuel : Nat}

theorem substr_of_le {l : Text} {pos : Nat} (h : pos ≤ l.length) (count : Nat) :
    substr l pos count = .ok ((l.drop pos).take count) := by
  rw [substr, if_neg (Nat.not_lt.mpr h)]

theorem substr_of_lt {l : Text} {pos : Nat} (h : l.length < pos) (count : Nat) :
    substr l pos count = .error (.fault .substr) := by
  rw [substr, if_pos h]

/-- No row. -/
theorem readVlan_none (h : scanPort (line.drop 4) = none) : readVlan p line = .ok p := by
  rw [readVlan, h]

/-- A row whose word is not one of the two. -/
theorem readVlan_returned {vlanId : UInt16} (h : scanPort (line.drop 4) = some vlanId)
    (hshort : ∀ word ∈ scanWord (line.drop 11), word.length < 128) (hrow : rowActive line = none) :
    readVlan p line = .error (.returned false p.result) := by
  rw [readVlan, h]
  dsimp only
  rw [rowActive] at hrow
  cases hword : scanWord (line.drop 11) with
  | none => rfl
  | some word =>
      rw [hword, Option.bind_some] at hrow
      have hlen := hshort word hword
      have hother : word ≠ "Active".toList ∧ word ≠ "Inactive".toList := by
        refine ⟨?_, ?_⟩
        · intro heq
          rw [if_pos heq] at hrow
          cases hrow
        · intro heq
          rw [heq] at hrow
          cases hrow
      dsimp only
      rw [if_neg (Nat.not_le.mpr hlen), if_pos hother]

theorem readVlan_overflow {vlanId : UInt16} {word : Text} (h : scanPort (line.drop 4) = some vlanId)
    (hword : scanWord (line.drop 11) = some word) (hlong : 128 ≤ word.length) :
    readVlan p line = .error (.fault .statusBuf) := by
  rw [readVlan, h, hword]
  exact if_pos hlong

/-- A row of a VLAN sets the flag, and the VLAN is a new one, if its description is there. -/
theorem readVlan_row {vlanId : UInt16} {active : Bool} (h : scanPort (line.drop 4) = some vlanId)
    (hrow : rowActive line = some active) :
    readVlan p line = (substr line 21 30).map fun description =>
      { vlanActive := some active
        result := p.result ++ [{
          vlanId := vlanId
          active := active
          description := trimLeadingAndTrailingWhitespace description
          taggedPorts := ∅
          untaggedPorts := ∅ }] } := by
  rw [rowActive] at hrow
  obtain ⟨word, hword, hactive⟩ := Option.bind_eq_some_iff.mp hrow
  rw [readVlan, h, hword]
  dsimp only
  split at hactive
  · rename_i heq
    cases hactive
    subst heq
    rfl
  · rename_i hne
    split at hactive
    · rename_i heq
      cases hactive
      subst heq
      rfl
    · cases hactive

theorem readPorts_inactive (h : p.vlanActive = some false) : readPorts fuel p line = .ok p := by
  rw [readPorts, h]

theorem readPorts_end (h : p.vlanActive = some true) (hports : ¬HasPorts line) :
    readPorts fuel p line = .error (.returned (line.getLast? = some '#') p.result) := by
  rw [readPorts, h]
  exact if_neg hports

theorem readPorts_short (h : p.vlanActive = some true) (hports : HasPorts line) (hlen : line.length < 60) :
    readPorts fuel p line = .error (.fault .substr) := by
  rw [readPorts, h]
  dsimp only
  rw [if_pos hports, substr_of_lt hlen]
  rfl

/-- What becomes of the last VLAN. -/
theorem modifyLast_of_ne_nil (change : VlanSet → VlanSet) (h : p.result ≠ []) :
    ∃ before vlan, p.result = before ++ [vlan] ∧
      modifyLast change p = .ok { p with result := before ++ [change vlan] } := by
  obtain ⟨before, vlan, hresult⟩ := List.eq_nil_or_concat p.result |>.resolve_left h
  rw [List.concat_eq_append] at hresult
  refine ⟨before, vlan, hresult, ?_⟩
  rw [modifyLast, hresult, List.getLast?_concat]
  dsimp only
  rw [List.dropLast_concat]

/-- **A row of ports** is read as far as its list is. -/
theorem readPorts_row (h : p.vlanActive = some true) (hports : HasPorts line) (hlen : 60 ≤ line.length) :
    readPorts fuel p line =
      match stringToNumberSet fuel (line.drop 60) with
      | none => .error .running
      | some (false, _) => .ok p
      | some (true, portList) =>
          if (line)[53]? = some 'T' then modifyLast (fun vlan => { vlan with taggedPorts := portList }) p
          else modifyLast (fun vlan => { vlan with untaggedPorts := portList }) p := by
  have htake : (line.drop 60).take line.length = line.drop 60 :=
    List.take_of_length_le (by rw [List.length_drop]; omega)
  rw [readPorts, h]
  dsimp only
  rw [if_pos hports, substr_of_le hlen, htake]
  rfl

end Line

/-! ### All lines -/

/-- A turn from its second part on, and the turns behind it. -/
def portsLoop (fuel : Nat) (p : Progress) (line : Text) (lines : List Text) : Stop :=
  match readPorts fuel p line with
  | .error stop => stop
  | .ok p => readLines fuel p lines

section Loop

variable {fuel : Nat} {p : Progress} {active : Bool} {line : Text} {lines : List Text}

theorem readLines_short (h : line.length < 18) :
    readLines fuel p (line :: lines) = readLines fuel p lines := by
  rw [readLines, readLine, if_pos h]

theorem readLines_error {stop : Stop} (h : ¬line.length < 18) (hvlan : readVlan p line = .error stop) :
    readLines fuel p (line :: lines) = stop := by
  rw [readLines, readLine, if_neg h, hvlan]
  rfl

theorem readLines_ok {p' : Progress} (h : ¬line.length < 18) (hvlan : readVlan p line = .ok p') :
    readLines fuel p (line :: lines) = portsLoop fuel p' line lines := by
  rw [readLines, readLine, if_neg h, hvlan]
  rfl

/-- The list of ports in a line is not done, or the loop goes on below it. -/
theorem portsLoop_row (hflag : p.vlanActive = some true) (hready : p.result ≠ [])
    (hports : HasPorts line) (hlen : 60 ≤ line.length) :
    (stringToNumberSet fuel (line.drop 60) = none ∧ portsLoop fuel p line lines = .running) ∨
      ∃ p', p'.vlanActive = some true ∧ p'.result ≠ [] ∧
        portsLoop fuel p line lines = readLines fuel p' lines := by
  have hmodify : ∀ change : VlanSet → VlanSet, ∃ p', p'.vlanActive = some true ∧ p'.result ≠ [] ∧
      modifyLast change p = .ok p' := by
    intro change
    obtain ⟨before, vlan, _, hrun⟩ := modifyLast_of_ne_nil change hready
    exact ⟨{ p with result := before ++ [change vlan] }, hflag, by simp, hrun⟩
  rw [portsLoop, readPorts_row hflag hports hlen]
  rcases stringToNumberSet fuel (line.drop 60) with _ | ⟨_ | _, portList⟩
  · exact .inl ⟨rfl, rfl⟩
  · exact .inr ⟨p, hflag, hready, rfl⟩
  · refine .inr ?_
    by_cases hT : (line)[53]? = some 'T'
    · obtain ⟨p', hflag', hready', hrun⟩ := hmodify fun vlan => { vlan with taggedPorts := portList }
      dsimp only
      rw [if_pos hT, hrun]
      exact ⟨p', hflag', hready', rfl⟩
    · obtain ⟨p', hflag', hready', hrun⟩ := hmodify fun vlan => { vlan with untaggedPorts := portList }
      dsimp only
      rw [if_neg hT, hrun]
      exact ⟨p', hflag', hready', rfl⟩

/-- The ports of a line go through if those of the other lines do. -/
theorem portsLoop_no_fault {next : Prop} (hflag : p.vlanActive = some active) (hready : p.result ≠ [])
    (hsafe : PortsSafe active line next) {f : ParseFault}
    (hnext : next → ∀ p', p'.vlanActive = some active → p'.result ≠ [] → readLines fuel p' lines ≠ .fault f) :
    portsLoop fuel p line lines ≠ .fault f := by
  cases active with
  | false =>
      rw [portsLoop, readPorts_inactive hflag]
      exact hnext hsafe p hflag hready
  | true =>
      by_cases hports : HasPorts line
      · obtain ⟨hlen, hsafe⟩ := hsafe hports
        rcases @portsLoop_row fuel p line lines hflag hready hports hlen with
          ⟨_, hrun⟩ | ⟨p', hflag', hready', hrun⟩
        · rw [hrun]
          intro hfault
          cases hfault
        · rcases hsafe with hhangs | hsafe
          · rw [portsLoop, readPorts_row hflag hports hlen, stringToNumberSet, insertTokens_of_hangs hhangs]
            intro hfault
            cases hfault
          · rw [hrun]
            exact hnext hsafe p' hflag' hready'
      · rw [portsLoop, readPorts_end hflag hports]
        intro hfault
        cases hfault

theorem portsSafe_of_no_fault {next : Prop} (hflag : p.vlanActive = some active) (hready : p.result ≠ [])
    (h : ∀ f, portsLoop enough p line lines ≠ .fault f)
    (hnext : ∀ p', p'.vlanActive = some active → p'.result ≠ [] →
      (∀ f, readLines enough p' lines ≠ .fault f) → next) :
    PortsSafe active line next := by
  cases active with
  | false =>
      rw [portsLoop, readPorts_inactive hflag] at h
      exact hnext p hflag hready h
  | true =>
      intro hports
      by_cases hlen : 60 ≤ line.length
      · refine ⟨hlen, ?_⟩
        rcases @portsLoop_row enough p line lines hflag hready hports hlen with
          ⟨hnone, _⟩ | ⟨p', hflag', hready', hrun⟩
        · by_cases hhangs : Hangs (tokenize (line.drop 60) [','])
          · exact .inl hhangs
          · exact absurd hnone (insertTokens_enough_ne_none hhangs ∅)
        · rw [hrun] at h
          exact .inr (hnext p' hflag' hready' h)
      · rw [portsLoop, readPorts_short hflag hports (Nat.not_le.mp hlen)] at h
        exact absurd rfl (h .substr)

/-- **Lines that are safe go through** without a fault. -/
theorem readLines_no_fault (hready : Ready p) (h : Safe p.vlanActive lines) (f : ParseFault) :
    readLines fuel p lines ≠ .fault f := by
  induction lines generalizing p with
  | nil => exact nofun
  | cons line lines ih =>
      have hnext : ∀ {active : Bool}, Safe (some active) lines → ∀ p' : Progress,
          p'.vlanActive = some active → p'.result ≠ [] → readLines fuel p' lines ≠ .fault f := by
        intro active hsafe p' hflag' hready'
        refine ih (fun _ => hready') ?_
        rw [hflag']
        exact hsafe
      rw [Safe] at h
      by_cases hlen : line.length < 18
      · rw [if_pos hlen] at h
        rw [readLines_short hlen]
        exact ih hready h
      · rw [if_neg hlen] at h
        cases hscan : scanPort (line.drop 4) with
        | none =>
            rw [if_neg (by simp [hscan])] at h
            obtain ⟨active, hactive, hports⟩ := h
            have hflag : p.vlanActive = some active := hactive
            rw [readLines_ok hlen (readVlan_none hscan)]
            exact portsLoop_no_fault hflag (hready (by simp [hflag])) hports hnext
        | some vlanId =>
            rw [if_pos (by simp [hscan])] at h
            obtain ⟨hword, hrow⟩ := h
            cases hactive : rowActive line with
            | none =>
                rw [readLines_error hlen (readVlan_returned hscan hword hactive)]
                exact nofun
            | some active =>
                obtain ⟨hdescription, hports⟩ := hrow active hactive
                have hvlan := readVlan_row (p := p) hscan hactive
                rw [substr_of_le hdescription] at hvlan
                rw [readLines_ok hlen hvlan]
                exact portsLoop_no_fault rfl (by simp) hports hnext

/-- **Lines that are not safe do not.** -/
theorem safe_of_no_fault (hready : Ready p) (h : ∀ f, readLines enough p lines ≠ .fault f) :
    Safe p.vlanActive lines := by
  induction lines generalizing p with
  | nil => trivial
  | cons line lines ih =>
      have hnext : ∀ {active : Bool} (p' : Progress), p'.vlanActive = some active → p'.result ≠ [] →
          (∀ f, readLines enough p' lines ≠ .fault f) → Safe (some active) lines := by
        intro active p' hflag' hready' hrun
        have hsafe := ih (fun _ => hready') hrun
        rwa [hflag'] at hsafe
      rw [Safe]
      by_cases hlen : line.length < 18
      · rw [if_pos hlen]
        refine ih hready ?_
        rwa [← readLines_short hlen]
      · rw [if_neg hlen]
        cases hscan : scanPort (line.drop 4) with
        | none =>
            rw [if_neg (by simp)]
            rw [readLines_ok hlen (readVlan_none hscan)] at h
            cases hflag : p.vlanActive with
            | none =>
                rw [portsLoop, readPorts, hflag] at h
                exact absurd rfl (h .vlanActive)
            | some active =>
                exact ⟨active, rfl, portsSafe_of_no_fault hflag (hready (by simp [hflag])) h hnext⟩
        | some vlanId =>
            rw [if_pos (show (some vlanId).isSome = true from rfl)]
            refine ⟨?_, ?_⟩
            · intro word hword
              by_cases hshort : word.length < 128
              · exact hshort
              · rw [readLines_error hlen (readVlan_overflow hscan hword (Nat.not_lt.mp hshort))] at h
                exact absurd rfl (h .statusBuf)
            · intro active hactive
              have hvlan := readVlan_row (p := p) hscan hactive
              by_cases hdescription : 21 ≤ line.length
              · rw [substr_of_le hdescription] at hvlan
                rw [readLines_ok hlen hvlan] at h
                exact ⟨hdescription, portsSafe_of_no_fault rfl (by simp) h hnext⟩
              · rw [substr_of_lt (Nat.not_le.mp hdescription)] at hvlan
                rw [readLines_error hlen hvlan] at h
                exact absurd rfl (h .substr)

end Loop

/-- The lines behind the heading, if anything follows it. -/
theorem getAllVlans_of_find {responseBuf : Text} {offset : Nat}
    (hfind : find "Q Ports".toList (terminated responseBuf) = some offset)
    (hle : offset + 8 ≤ (terminated responseBuf).length) (fuel : Nat) :
    getAllVlans fuel responseBuf = readLines fuel ⟨none, []⟩
      (tokenize ((terminated responseBuf).drop (offset + 8)) ['\n']) := by
  have htake : ∀ l : Text, (l.drop (offset + 8)).take l.length = l.drop (offset + 8) := by
    intro l
    refine List.take_of_length_le ?_
    rw [List.length_drop]
    omega
  rw [getAllVlans, hfind]
  dsimp only
  rw [substr_of_le hle, htake]

/-- **A text is gone through without a fault** exactly if it is safe. -/
theorem safeText_iff (responseBuf : Text) :
    (∀ fuel f, getAllVlans fuel responseBuf ≠ .fault f) ↔ SafeText responseBuf := by
  have hready : Ready ⟨none, []⟩ := fun h => absurd rfl h
  unfold SafeText
  cases hfind : find "Q Ports".toList (terminated responseBuf) with
  | none =>
      refine ⟨?_, ?_⟩
      · intro _ offset hoffset
        cases hoffset
      · intro _ fuel f
        rw [getAllVlans, hfind]
        exact nofun
  | some offset =>
      refine ⟨?_, ?_⟩
      · intro h offset' hoffset
        cases hoffset
        by_cases hle : offset + 8 ≤ (terminated responseBuf).length
        · refine ⟨hle, safe_of_no_fault hready ?_⟩
          intro f
          rw [← getAllVlans_of_find hfind hle]
          exact h enough f
        · have hrun : getAllVlans enough responseBuf = .fault .substr := by
            rw [getAllVlans, hfind]
            dsimp only
            rw [substr_of_lt (Nat.not_le.mp hle)]
          exact absurd hrun (h enough .substr)
      · intro h fuel f
        obtain ⟨hle, hsafe⟩ := h offset rfl
        rw [getAllVlans_of_find hfind hle]
        exact readLines_no_fault hready hsafe f

end IronStack.Proof.VlanTable
