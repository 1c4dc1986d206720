import Tabular.Grouping

/-!
# Cross-tabulation

A pivot has one row per index key and one column per pivot label. The label of a
row joins the texts of its pivot columns with underscores, so different tuples may
share one.
-/
namespace Tabular

/-- Index columns, pivot columns and the aggregate in each cell. -/
structure PivotConfig where
  indexColumns : List String
  pivotColumns : List String
  valueColumn : String
  kind : AggregateKind := .sum
  fill : Cell := .null
  deriving DecidableEq

/-- A row's pivot label; null and missing count as empty text. -/
def Row.labelUnder (row : Row) (columns : List String) : String :=
  "_".intercalate (columns.map fun c => (row.key? c).getD "")

/-- The labels of the rows, in order of first appearance. -/
def labelsUnder (rows : Dataset) (columns : List String) : List String :=
  (rows.map (·.labelUnder columns)).eraseDups

/-- A name with underscores appended until it is not taken. One more underscore
than there are taken names is always enough, so `fuel` does not run out. -/
def freeName (taken : List String) (name : String) : Nat → String
  | 0 => name
  | fuel + 1 => if taken.contains name then freeName taken (name ++ "_") fuel else name

/-- The output column of each label. A label that names an index column gets
underscores until it names nothing else. -/
def labelColumns (indexColumns labels : List String) : List (String × String) :=
  go (indexColumns ++ labels) labels
where
  /-- Labels from left to right, each new name being taken from then on. -/
  go (taken : List String) : List String → List (String × String)
    | [] => []
    | label :: rest =>
      if indexColumns.contains label then
        let column := freeName taken (label ++ "_") (taken.length + 1)
        (label, column) :: go (column :: taken) rest
      else (label, label) :: go taken rest

/-- The cell of one index group under one label: the aggregate of its rows with
that label, or the fill value if there are none. -/
def PivotConfig.cell (config : PivotConfig) (g : Group) (label : String) : Cell :=
  match g.rows.filter fun row => row.labelUnder config.pivotColumns == label with
  | [] => config.fill
  | rows => .ofValue (Aggregate.ofRows rows config.valueColumn config.kind none)

def PivotConfig.row (config : PivotConfig) (labels : List (String × String)) (g : Group) : Row :=
  labels.foldl (fun row (label, column) => row.insert column (config.cell g label))
    (Row.empty.copy g.first config.indexColumns)

def pivot (rows : Dataset) (config : PivotConfig) : Dataset :=
  let labels := labelColumns config.indexColumns (labelsUnder rows config.pivotColumns)
  (partition rows config.indexColumns).map (config.row labels)

end Tabular
