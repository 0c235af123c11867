import IronStack.Lib.Scan

/-!
# `csv_parser`

A table of cells, which is saved to a file and loaded from one. A file is the text that is
in it, and the sizes and indices, which are numbers of type `int` in the source, are
natural numbers here.
-/

namespace IronStack

open Lib

/-- `csv_parser`: the rows, and the cells of each. -/
abbrev CsvContents := List (List Text)

namespace CsvParser

/-! ## Saving -/

/-- A cell as it is written. Only quotes make it a quoted one. -/
def saveCell (cell : Text) : Text :=
  let hasQuotes := '"' ∈ cell
  let letters := cell.flatMap fun c => if c ≠ '"' then [c] else ['"', '"']
  if hasQuotes then '"' :: (letters ++ ['"']) else letters

/-- The cells of a row, with a comma behind each but the last one. -/
def saveCells : List Text → Text
  | [] => []
  | [cell] => saveCell cell
  | cell :: cells => saveCell cell ++ ',' :: saveCells cells

/-- `csv_parser::save`: what is written to the file. -/
def save (contents : CsvContents) : Text :=
  contents.flatMap fun line => saveCells line ++ ['\r', '\n']

/-! ## Loading -/

/-- The first of the pairs of quotes in a word loses one of them. -/
def eraseQuote : Text → Option Text
  | [] => none
  | [_] => none
  | c :: d :: rest => if c = '"' ∧ d = '"' then some (d :: rest) else (eraseQuote (d :: rest)).map (c :: ·)

/-- The loop that does so while there are such pairs, of which there are fewer than letters. -/
def eraseQuotes : Nat → Text → Text
  | 0, word => word
  | fuel + 1, word =>
      match eraseQuote word with
      | none => word
      | some word => eraseQuotes fuel word

/-- What is made of a word; `none` if only one of its ends is a quote. -/
def sanitize (word : Text) : Option Text :=
  if word.length ≥ 2 then
    if (word.head? = some '"' ∧ word.getLast? ≠ some '"') ∨
        (word.head? ≠ some '"' ∧ word.getLast? = some '"') then none
    else if word.head? = some '"' ∧ word.getLast? = some '"' then
      let word := word.dropLast.drop 1
      some (eraseQuotes word.length word)
    else some word
  else some word

/-- The words of a line. An empty line has none. -/
def words (currentLine : Text) : List Text := if currentLine = [] then [] else currentLine.splitOn ','

/--
The loop of `csv_parser::load` over the lines, from the number of columns that is expected
and the contents so far: whether it succeeds, and the contents. A line with another number
of words ends it, and quotes that do not match clear the contents.
-/
def loadLines : Option Nat → CsvContents → List Text → Bool × CsvContents
  | _, contents, [] => (true, contents)
  | numCols, contents, currentLine :: lines =>
      let line := words currentLine
      if line = [] then loadLines numCols contents lines
      else if numCols ≠ none ∧ numCols ≠ some line.length then (true, contents)
      else
        match line.mapM sanitize with
        | none => (false, [])
        | some line' => loadLines (some line.length) (contents ++ [line']) lines

/-- `csv_parser::load`. A line ends at a carriage return, at a line feed, or with the file. -/
def load (contents : CsvContents) (file : Text) : Bool × CsvContents :=
  loadLines none contents (file.splitOnP fun c => c == '\r' || c == '\n')

/-! ## Access -/

/-- The rows are filled up to a number of them, and each row up to a number of cells. -/
def extend (contents : CsvContents) (row column : Nat) : CsvContents :=
  (contents ++ List.replicate (row + 1 - contents.length) []).map fun line : List Text =>
    line ++ List.replicate (column + 1 - line.length) []

/--
`csv_parser::operator()`: the table, after which the cell at the row and the column is
returned. The number of columns, to which the column is compared, is that of the rows.
-/
def access (contents : CsvContents) (row column : Nat) : CsvContents :=
  let numRows := contents.length
  if row < numRows ∧ column < numRows then contents else extend contents row column

/-- The cell that is returned, if there is one. -/
def cell (contents : CsvContents) (row column : Nat) : Option Text := contents[row]?.bind (·[column]?)

/-- The cell that was returned is written to. -/
def write (contents : CsvContents) (row column : Nat) (text : Text) : CsvContents :=
  contents.modify row fun line => line.set column text

end CsvParser

end IronStack
