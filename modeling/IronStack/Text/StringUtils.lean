import IronStack.Lib.Scan

/-!
# `string_utils`

How a text is taken apart into tokens or into pairs of a key and a value, and how numbers
are read.

The loops that trim a text keep its length and the offsets in 32 bits, and their counters
are an `int` each. Those that take a text apart into pairs are also here as they are
written, with such indices. With a text that is shorter than that they do what `StringUtils`
says; of a longer one they see what is left of its length.
-/

namespace IronStack

open Lib

/-- The key and the value of a pair. -/
abbrev KeyValue := Text × Text

namespace StringUtils

/-- `string_utils::is_whitespace` -/
def isWhitespace (c : Char) : Bool := c == ' ' || c == '\t' || c == '\n' || c == '\r'

/-- `string_utils::is_alphanumeric` -/
def isAlphanumeric (c : Char) : Bool :=
  ('0' ≤ c && c ≤ '9') || ('a' ≤ c && c ≤ 'z') || ('A' ≤ c && c ≤ 'Z')

/-- What a key or a value may have in it. -/
def isWord (c : Char) : Bool := isAlphanumeric c || c == '_' || c == '.' || c == ':' || c == '-'

/--
One turn of the loop in `string_utils::generate_key_value_pair`: the pair that it finds and the text
behind it, or nothing where it is done.
-/
def nextPair (input : Text) : Option (KeyValue × Text) :=
  let line := input.dropWhile isWhitespace
  let key := line.takeWhile isWord
  match (line.dropWhile isWord).dropWhile isWhitespace with
  | '=' :: behind =>
      let rest := behind.dropWhile isWhitespace
      -- blanks behind the sign that are the last of the text end the loop
      if behind ≠ [] ∧ rest = [] then none
      else some ((key, rest.takeWhile isWord), rest.dropWhile isWord)
  | _ => none

/-- The turns of the loop, of which there are no more than the text has characters. -/
def pairs : Nat → Text → List KeyValue
  | 0, _ => []
  | fuel + 1, input =>
      match nextPair input with
      | none => []
      | some (kv, rest) => kv :: pairs fuel rest

/-- `string_utils::generate_key_value_pair`, of a text with a length of 32 bits. -/
def generateKeyValuePair (input : Text) : List KeyValue := pairs input.length input

/-- The loop of `string_utils::tokenize`, with the token that it is in. -/
def tokenizeFrom (separators : Text) : Text → Text → List Text
  | currentString, [] => if currentString.length > 0 then [currentString] else []
  | currentString, current :: rest =>
      if !separators.contains current then tokenizeFrom separators (currentString ++ [current]) rest
      else if currentString.length > 0 then currentString :: tokenizeFrom separators [] rest
      else tokenizeFrom separators currentString rest

/-- `string_utils::tokenize`. There are no empty tokens. -/
def tokenize (original separators : Text) : List Text :=
  if separators = [] then [original] else tokenizeFrom separators [] original

/-- The loop of the trimmer for the blanks in front, of which there are at most so many turns. -/
def leadingBlanks (input : Text) : Nat → Nat → UInt32 → UInt32
  | 0, _, offsetStart => offsetStart
  | turns + 1, counter, offsetStart =>
      if input[counter]? = some ' ' then
        leadingBlanks input turns (counter + 1) (UInt32.ofNat (counter + 1))
      else offsetStart

/-- The loop for the blanks behind. Its counter is one less than the number here. -/
def trailingBlanks (input : Text) : Nat → UInt32 → UInt32
  | 0, offsetEnd => offsetEnd
  | counter + 1, offsetEnd =>
      if input[counter]? = some ' ' then trailingBlanks input counter (UInt32.ofNat counter)
      else offsetEnd

/-- `string_utils::trim_leading_and_trailing_whitespace` -/
def trimLeadingAndTrailingWhitespace (input : Text) : Text :=
  if input = [] then []
  else
    let len := UInt32.ofNat input.length
    -- a limit below zero lets the first loop make no turn, and a counter below zero the second
    let offsetStart := leadingBlanks input len.toInt32.toInt.toNat 0 0
    let offsetEnd := trailingBlanks input ((len - 1).toInt32.toInt + 1).toNat
      (UInt32.ofNat (input.length - 1))
    if offsetStart < offsetEnd then
      (input.drop offsetStart.toNat).take (offsetEnd - offsetStart).toNat
    else []

/-- `std::string::find`: where a text first occurs in another one. -/
def find (needle : Text) : Text → Option Nat
  | [] => if needle = [] then some 0 else none
  | c :: rest => if needle.isPrefixOf (c :: rest) then some 0 else (find needle rest).map (· + 1)

/-- `string_utils::string_to_uint16`. What does not fit is cut off. -/
def stringToUint16 (input : Text) : Option UInt16 := (scanUnsigned input).map UInt16.ofNat

/-- `string_utils::string_to_uint32`. -/
def stringToUint32 (input : Text) : Option UInt32 := (scanUnsigned input).map UInt32.ofNat

end StringUtils

namespace StringUtils.Indexed

/-- What ends a loop before its condition does: a read behind the NUL, or the jump to `done`. -/
inductive Exit where
  | outOfBounds
  | done
deriving DecidableEq

/-- `input[offset]`, where a NUL is behind the last character. -/
def charAt (input : Text) (offset : UInt32) : Except Exit Char :=
  match (input ++ [nul])[offset.toNat]? with
  | some c => .ok c
  | none => .error .outOfBounds

/--
A loop of `string_utils::generate_key_value_pair` over characters of a kind, with those that it
has read. Where `++offset == len` it jumps to `done`, or it breaks.
-/
def advance (p : Char → Bool) (jumps : Bool) (input : Text) (len offset : UInt32) (word : Text) :
    Except Exit (Text × UInt32) :=
  match charAt input offset with
  | .error e => .error e
  | .ok c =>
      if p c then
        if offset + 1 = len then if jumps then .error .done else .ok (word ++ [c], len)
        else advance p jumps input len (offset + 1) (word ++ [c])
      else .ok (word, offset)
termination_by (len - 1 - offset).toNat
decreasing_by
  rename_i hnext
  have hone : (1 : UInt32).toNat = 1 := rfl
  have hlen := UInt32.toNat_lt len
  have hoffset := UInt32.toNat_lt offset
  have hne : (offset + 1).toNat ≠ len.toNat := fun heq => hnext (UInt32.toNat_inj.mp heq)
  rw [UInt32.toNat_add, hone] at hne
  rw [UInt32.toNat_sub, UInt32.toNat_sub, UInt32.toNat_sub, UInt32.toNat_sub, UInt32.toNat_add, hone]
  omega

/-- A turn of the outer loop: the pair that is pushed, and where the next turn begins. -/
def turn (input : Text) (len offset : UInt32) : Except Exit (KeyValue × UInt32) := do
  let (_, offset) ← advance isWhitespace true input len offset []
  let (key, offset) ← advance isWord true input len offset []
  let (_, offset) ← advance isWhitespace true input len offset []
  let c ← charAt input offset
  if c ≠ '=' then .error .done
  else
    let offset := offset + 1
    let (_, offset) ← advance isWhitespace true input len offset []
    let (value, offset) ← advance isWord false input len offset []
    return ((key, value), offset)

/-- How the function ends. -/
inductive Ending where
  | outOfBounds
  | returned (result : List KeyValue)
deriving DecidableEq

/-- The outer loop, as far as it gets in so many turns; `none` where it still runs. -/
def turns (input : Text) (len : UInt32) : Nat → UInt32 → List KeyValue → Option Ending
  | 0, _, _ => none
  | fuel + 1, offset, result =>
      if offset < len then
        match turn input len offset with
        | .error .outOfBounds => some .outOfBounds
        | .error .done => some (.returned result)
        | .ok (kv, offset) => turns input len fuel offset (result ++ [kv])
      else some (.returned result)

/-- `string_utils::generate_key_value_pair`, as far as it gets in so many turns. -/
def generateKeyValuePair (input : Text) (fuel : Nat) : Option Ending :=
  turns input (UInt32.ofNat input.length) fuel 0 []

end StringUtils.Indexed

end IronStack
