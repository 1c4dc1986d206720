import Tabular.Aggregate

/-!
# Grouping rows

Rows are grouped by the tuple of the texts in their group columns. Groups come in
the order in which their keys first appear, and each keeps its rows in order.
-/
namespace Tabular

/-- A group's key: the text of each group column, null and missing having none. -/
abbrev GroupKey := List (Option String)

def Row.groupKey (row : Row) (columns : List String) : GroupKey := columns.map row.key?

/-- A group of rows, which is never empty. -/
structure Group where
  first : Row
  others : List Row

/-- All rows of a group, in order. -/
def Group.rows (g : Group) : Dataset := g.first :: g.others

/-- A list as a group, unless it is empty. -/
def Group.ofRows? : Dataset → Option Group
  | [] => none
  | first :: others => some ⟨first, others⟩

/-- Rows split by a key, in the order in which keys first appear. -/
def partitionBy {κ : Type} [BEq κ] (key : Row → κ) (rows : Dataset) : List Group :=
  let keyed := rows.map fun row => (key row, row)
  (keyed.map Prod.fst).eraseDups.filterMap fun k =>
    Group.ofRows? ((keyed.filter fun e => e.1 == k).map Prod.snd)

def partition (rows : Dataset) (columns : List String) : List Group :=
  partitionBy (·.groupKey columns) rows

/-- A row with the given columns taken over from another, where a missing one is
null. -/
def Row.copy (target source : Row) (columns : List String) : Row :=
  columns.foldl (fun row column => row.insert column (source.cell column)) target

/-- Group columns, and the aggregates to compute per group. -/
structure GroupConfig where
  groupColumns : List String
  aggregates : List AggregateConfig := []
  keepOthers : Bool := false
  deriving DecidableEq

/-- A row with each aggregate of some rows written under its output name; a later
one wins over an earlier one, and over a column of that name. -/
def Row.withAggregates (row : Row) (aggregates : List AggregateConfig) (rows : Dataset) : Row :=
  aggregates.foldl (fun row a => row.insert a.outputColumn (.ofValue (a.evaluate rows))) row

def GroupConfig.row (config : GroupConfig) (g : Group) : Row :=
  let base := if config.keepOthers then g.first else Row.empty
  (base.copy g.first config.groupColumns).withAggregates config.aggregates g.rows

def groupBy (rows : Dataset) (config : GroupConfig) : Dataset :=
  (partition rows config.groupColumns).map config.row

end Tabular
