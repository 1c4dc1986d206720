import Tabular.Row

/-!
# Datasets

A dataset is a list of rows; sequence-relative metrics depend on their order. Its
columns are the names its rows have, in the order in which they first appear.
-/
namespace Tabular

abbrev Dataset := List Row

/-- The names that occur in any row, each once: by the first row that has it, and
within that row by code point. -/
def columns (rows : Dataset) : List String := (rows.flatMap Row.names).eraseDups

end Tabular
