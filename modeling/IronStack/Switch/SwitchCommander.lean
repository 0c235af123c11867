import IronStack.Text.StringUtils
import Mathlib.Data.Finset.Insert

/-!
# What the commander reads off a switch

`switch_commander` talks to the command line of a switch. Here is what it makes of the
texts that the switch prints.
-/

namespace IronStack

open Lib

namespace SwitchCommander

/-! ## Lists of ports -/

/-- `sscanf` with the format `%hu`. -/
def scanPort (token : Text) : Option UInt16 := (scanUnsigned token).map UInt16.ofNat

/-- `sscanf` with the format `%hu-%hu`, if it reads both. -/
def scanRange (token : Text) : Option (UInt16 × UInt16) :=
  match scanNumber token with
  | some (negative, n, '-' :: rest) =>
      (scanPort rest).map fun vlanEnd => (UInt16.ofNat (strtoul negative n), vlanEnd)
  | _ => none

/--
The loop over a range, with a counter of 16 bits: `none` if it has not come to its end
after some turns.
-/
def insertRange : Nat → UInt16 → UInt16 → Finset UInt16 → Option (Finset UInt16)
  | 0, _, _, _ => none
  | fuel + 1, counter, vlanEnd, result =>
      if counter ≤ vlanEnd then insertRange fuel (counter + 1) vlanEnd (insert (counter + 1) result)
      else some result

/-- One turn of the loop over the tokens: whether it goes on, and the result so far. -/
def insertToken (fuel : Nat) (token : Text) (result : Finset UInt16) : Option (Bool × Finset UInt16) :=
  if '-' ∉ token then
    match scanPort token with
    | some vlanStart => some (true, insert (vlanStart + 1) result)
    | none => some (false, result)
  else
    match scanRange token with
    | some (vlanStart, vlanEnd) =>
        (insertRange fuel vlanStart vlanEnd result).map fun result => (true, result)
    | none => some (false, result)

/-- The loop over the tokens. -/
def insertTokens (fuel : Nat) : List Text → Finset UInt16 → Option (Bool × Finset UInt16)
  | [], result => some (true, result)
  | token :: tokens, result =>
      match insertToken fuel token result with
      | none => none
      | some (false, result) => some (false, result)
      | some (true, result) => insertTokens fuel tokens result

/--
`switch_commander::string_to_number_set`, where each loop over a range may take some
turns: what it returns, and the result, or `none` if it is not done by then.
-/
def stringToNumberSet (fuel : Nat) (input : Text) : Option (Bool × Finset UInt16) :=
  insertTokens fuel (StringUtils.tokenize input [',']) ∅

/-! ## The table of VLANs -/

/-- `vlan_set` -/
structure VlanSet where
  vlanId : UInt16
  active : Bool
  description : Text
  taggedPorts : Finset UInt16
  untaggedPorts : Finset UInt16
deriving DecidableEq

/-- What `get_all_vlans` keeps from one line to the next; the flag is not set at first. -/
structure Progress where
  vlanActive : Option Bool
  result : List VlanSet

/-- How the loop may go wrong. -/
inductive ParseFault where
  /-- `substr` beyond the end of a text. -/
  | substr
  /-- A write beyond `status_buf`. -/
  | statusBuf
  /-- A read of `vlan_active` before it is set. -/
  | vlanActive
  /-- The last element of an empty `result`. -/
  | emptyResult
deriving DecidableEq

/-- How the loop ends at a line. -/
inductive Stop where
  | returned (success : Bool) (result : List VlanSet)
  | fault (fault : ParseFault)
  /-- A list of ports in the line is not done after the turns that it has. -/
  | running
deriving DecidableEq

/-- `sscanf` with the format `%s`. -/
def scanWord (l : Text) : Option Text :=
  let word := (l.dropWhile isSpace).takeWhile (!isSpace ·)
  if word = [] then none else some word

/-- `std::string::substr`, which throws if it is to start beyond the end. -/
def substr (l : Text) (pos count : Nat) : Except Stop Text :=
  if l.length < pos then .error (.fault .substr) else .ok ((l.drop pos).take count)

/-- The first part of a turn: the row of a VLAN, if there is a number where it has one. -/
def readVlan (p : Progress) (line : Text) : Except Stop Progress :=
  match scanPort (line.drop 4) with
  | none => .ok p
  | some vlanId =>
      match scanWord (line.drop 11) with
      | none => .error (.returned false p.result)
      | some statusString =>
          if 128 ≤ statusString.length then .error (.fault .statusBuf)
          else if statusString ≠ "Active".toList ∧ statusString ≠ "Inactive".toList then
            .error (.returned false p.result)
          else do
            let active := decide (statusString = "Active".toList)
            let description ← substr line 21 30
            return {
              vlanActive := some active
              result := p.result ++ [{
                vlanId := vlanId
                active := active
                description := StringUtils.trimLeadingAndTrailingWhitespace description
                taggedPorts := ∅
                untaggedPorts := ∅ }] }

/-- `result[result.size()-1]` is changed. -/
def modifyLast (change : VlanSet → VlanSet) (p : Progress) : Except Stop Progress :=
  match p.result.getLast? with
  | none => .error (.fault .emptyResult)
  | some vlan => .ok { p with result := p.result.dropLast ++ [change vlan] }

/-- The second part of a turn: the ports in the line, or the prompt. -/
def readPorts (fuel : Nat) (p : Progress) (line : Text) : Except Stop Progress :=
  match p.vlanActive with
  | none => .error (.fault .vlanActive)
  | some false => .ok p
  | some true =>
      if line.length > 54 ∧ ((line)[53]? = some 'T' ∨ (line)[53]? = some 'U') then do
        let portListing ← substr line 60 line.length
        match stringToNumberSet fuel portListing with
        | none => .error .running
        | some (false, _) => .ok p
        | some (true, portList) =>
            if (line)[53]? = some 'T' then modifyLast (fun vlan => { vlan with taggedPorts := portList }) p
            else modifyLast (fun vlan => { vlan with untaggedPorts := portList }) p
      else .error (.returned (line.getLast? = some '#') p.result)

/-- One turn of the loop. -/
def readLine (fuel : Nat) (p : Progress) (line : Text) : Except Stop Progress :=
  if line.length < 18 then .ok p
  else do
    let p ← readVlan p line
    readPorts fuel p line

/-- The loop over the lines. -/
def readLines (fuel : Nat) : Progress → List Text → Stop
  | p, [] => .returned true p.result
  | p, line :: lines =>
      match readLine fuel p line with
      | .error stop => stop
      | .ok p => readLines fuel p lines

/--
`switch_commander::get_all_vlans` from the response on, which goes up to the first
terminator in the buffer.
-/
def getAllVlans (fuel : Nat) (responseBuf : Text) : Stop :=
  let response := responseBuf.takeWhile (· ≠ '\x00')
  match StringUtils.find "Q Ports".toList response with
  | none => .returned false []
  | some offsetStart =>
      match substr response (offsetStart + 8) response.length with
      | .error stop => stop
      | .ok table => readLines fuel ⟨none, []⟩ (StringUtils.tokenize table ['\n'])

end SwitchCommander

end IronStack
