import Tabular.Dataset

/-!
# Printed tables

How numbers, cells and rows are shown to people. Columns are as wide as their widest
entry, counted in characters.
-/
namespace Tabular.Command

def trimEnd (c : Char) (cs : List Char) : List Char := (cs.reverse.dropWhile (· == c)).reverse

/-- A number rounded to six places, without zeros at the end. -/
def numberText (x : Float) : String :=
  let rounded := Number.round (x * 1e6) / 1e6
  String.ofList (trimEnd '.' (trimEnd '0' (Number.sixPlaces rounded).toList))

/-- A cell in a table; a null and a missing one are a hyphen. -/
def cellText : Cell → String
  | .null => "-"
  | .number x => numberText x
  | cell => cell.display

def resultText (value : Option Float) : String := (value.map numberText).getD "null"

def padded (width : Nat) (s : String) : String :=
  s ++ String.ofList (List.replicate (width - s.length) ' ')

def tableLine (widths : List Nat) (entries : List String) : String :=
  "   " ++ "  ".intercalate (widths.zipWith padded entries)

/-- Rows as lines: a header and one line per row. -/
def tableLines (rows : Dataset) : List String :=
  if rows.isEmpty then ["   (no rows)"]
  else
    let names := columns rows
    let body := rows.map fun row => names.map fun name => cellText (row.cell name)
    let widths := body.foldl
      (fun widths entries => widths.zipWith (fun w s => max w s.length) entries)
      (names.map String.length)
    tableLine widths names :: body.map (tableLine widths)

end Tabular.Command
