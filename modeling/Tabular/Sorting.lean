import Tabular.Amount
import Tabular.Calendar

/-!
# Sorting rows

Rows are sorted on one column by what its cells mean: numbers come before dates,
dates before other text. Rows without a cell there come last in either order, and
equal rows keep their order.
-/
namespace Tabular

/-- Ascending or descending. -/
inductive SortOrder
  | asc
  | desc
  deriving DecidableEq

/-- What a cell is compared by. -/
inductive SortKey [Calendar]
  | number (value : Float)
  | date (value : Calendar.Moment)
  | text (value : String)

variable [Calendar]

namespace SortKey

/-- The key of a cell; a null has none. -/
def ofCell? (cell : Cell) : Option SortKey :=
  match cell.number? with
  | some x => some (.number x)
  | none =>
    match cell with
    | .null => none
    | .text s =>
      match Calendar.read? s with
      | some moment => some (.date moment)
      | none => some (.text s)
    | other => some (.text other.display)

/-- Numbers by value, dates by moment, texts by code point. -/
def compare : SortKey → SortKey → Ordering
  | .number a, .number b => if a < b then .lt else if b < a then .gt else .eq
  | .date a, .date b => Ord.compare a b
  | .text a, .text b => Ord.compare a b
  | .number _, _ => .lt
  | _, .number _ => .gt
  | .date _, _ => .lt
  | _, .date _ => .gt

def compareIn (order : SortOrder) (a b : SortKey) : Ordering :=
  match order with
  | .asc => compare a b
  | .desc => (compare a b).swap

/-- The first of two optional keys may stand before the second: no key comes last. -/
def mayPrecede (order : SortOrder) : Option SortKey → Option SortKey → Bool
  | _, none => true
  | none, some _ => false
  | some a, some b => (compareIn order a b).isLE

end SortKey

def Row.sortKey? (row : Row) (column : String) : Option SortKey :=
  SortKey.ofCell? (row.cell column)

def Dataset.sort (rows : Dataset) (column : String) (order : SortOrder) : Dataset :=
  let keyed := rows.map fun row => (row.sortKey? column, row)
  (keyed.mergeSort fun a b => SortKey.mayPrecede order a.1 b.1).map Prod.snd

/-- Sorting loses no row and adds none. -/
theorem sort_perm (rows : Dataset) (column : String) (order : SortOrder) :
    (Dataset.sort rows column order).Perm rows := by
  have hkeyed := List.mergeSort_perm (rows.map fun row => (row.sortKey? column, row))
    fun a b => SortKey.mayPrecede order a.1 b.1
  have hrows := hkeyed.map Prod.snd
  rwa [List.map_map, Function.comp_def, List.map_id'] at hrows

end Tabular
