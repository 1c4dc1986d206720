import Tabular.Dataset
import Tabular.Limits
import Tabular.Text.Case

/-!
# Amounts

A text cell may hold a number as people write it in tables: with currency signs,
thousands separators, percent signs and spaces, and with parentheses around a
negative amount. `Amount.read?` reads such a text; `Cell.number?` is the number of
any cell.
-/
namespace Tabular

namespace Amount

def isDecoration (c : Char) : Bool :=
  ['$', '€', '£', '¥', '₹', ',', '%', ' ', '\u00a0'].contains c

/-- Whether a text stands in parentheses, and the text between them. -/
def unwrap : List Char → Bool × List Char
  | '(' :: rest =>
    if rest.getLast? = some ')' then (true, rest.dropLast) else (false, '(' :: rest)
  | cs => (false, cs)

/-- The number a text denotes: trimmed, taken out of one pair of parentheses,
which negate it, and rid of decoration, it is a decimal number of magnitude at most
`Limits.amount`. -/
def read? (raw : String) : Option Float := do
  let (negative, body) := unwrap (Text.trimChars raw.toList)
  let literal ← Number.Decimal.read? (body.filter fun c => !isDecoration c)
  let value := literal.toFloat
  if value.abs ≤ Limits.amount then some (if negative then -value else value) else none

end Amount

/-- The number in a cell: a finite number cell's value, or a text's amount. -/
def Cell.number? : Cell → Option Float
  | .number x => if x.isFinite then some x else none
  | .text s => Amount.read? s
  | .bool _ => none
  | .null => none

/-- The number a row has in a column; a missing column has none. -/
def Row.number? (row : Row) (column : String) : Option Float := (row.cell column).number?

/-- The numbers of a column, in row order. -/
def numbers (rows : Dataset) (column : String) : List Float :=
  rows.filterMap (·.number? column)

end Tabular
