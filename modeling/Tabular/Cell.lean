import Tabular.Number.Layout

/-!
# Cells

One value of a table: null, a truth value, a double or a text. Cells stay as
loose as the data they come from; reading a number out of one is
`Cell.number?`, in its own module.
-/
namespace Tabular

/-- A single value of a table. -/
inductive Cell
  | null
  | bool (value : Bool)
  | number (value : Float)
  | text (value : String)
  deriving DecidableEq, Inhabited

namespace Cell

/-- The cell of a computed value: a number, or null when there is none. -/
def ofValue : Option Float → Cell
  | some x => .number x
  | none => .null

/-- Text of a number cell: every digit place, and one text for both zeros. -/
def numberText (x : Float) : String := if x == 0.0 then "0" else Number.plain x

/-- The text a cell shows; a null shows nothing. -/
def display : Cell → String
  | null => ""
  | bool b => if b then "true" else "false"
  | number x => numberText x
  | text s => s

/-- The text a cell is grouped by. A null has none, so it differs from empty
text. -/
def key? : Cell → Option String
  | null => none
  | c => some c.display

end Cell
end Tabular
