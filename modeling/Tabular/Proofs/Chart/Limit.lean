import Tabular.Chart
import Tabular.Instant

/-!
# The limit of a chart

The limit is the last thing a chart looks at, when its rows are sorted. So a chart with a limit
is the chart without, cut to it, or fails as that one does (`process_limit`).
-/
namespace Tabular

/-- A chart's first rows, up to a limit. -/
def ChartData.cut (limit : Nat) (data : ChartData) : ChartData where
  rows := data.rows.take limit
  metadata := { data.metadata with resultRowCount := min limit data.rows.length }

namespace Chart

def Progress.cut (limit : Nat) (progress : Progress) : Progress :=
  { progress with rows := progress.rows.take limit }

/-- The chart whose rows are done, with the metadata that goes with it. -/
def Progress.chart (rows : Dataset) (chartType : ChartType) (done : Progress) : ChartData where
  rows := done.rows
  metadata := {
    chartType := chartType.name
    inputRowCount := rows.length
    resultRowCount := done.rows.length
    aggregation? := done.aggregation?
    groupedBy? := done.groupedBy?
    derivedMetrics? := done.derivedMetrics?
    formula? := done.formula? }

theorem process_eq [Calendar] (rows : Dataset) (chartType : ChartType) (mapping : ChartMapping) :
    process rows chartType mapping = Progress.chart rows chartType <$>
      (if rows.isEmpty then pure { rows := [] } else compute rows mapping chartType) := by
  unfold process
  split
  · exact bind_pure_comp _ _
  · exact bind_pure_comp _ _

theorem Progress.cut_chart (done : Progress) (rows : Dataset) (chartType : ChartType)
    (limit : Nat) :
    (done.chart rows chartType).cut limit = (done.cut limit).chart rows chartType := by
  simp [Progress.chart, Progress.cut, ChartData.cut]

/-- A step that does not look at the limit passes the cut on to the steps behind it. -/
theorem bind_cut {ε α β : Type} {x : Except ε α} {f g : α → Except ε β} {cut : β → β}
    (h : ∀ a, f a = cut <$> g a) : x >>= f = cut <$> (x >>= g) := by
  rw [map_bind]
  exact bind_congr h

section
variable (rows : Dataset) (mapping : ChartMapping) (limit : Nat)

/-! ## Sorted rows -/

theorem sortAndCut_limit [Calendar] (column? : Option String) (order : SortOrder) :
    sortAndCut { mapping with limit? := some limit } column? order rows =
      List.take limit <$> sortAndCut { mapping with limit? := none } column? order rows := by
  unfold sortAndCut
  cases mapping.sortBy? with
  | none => rfl
  | some reference =>
    rw [map_bind]
    exact bind_congr fun column? => rfl

theorem arrange_limit [Calendar] (column? : Option String) (order : SortOrder)
    (progress : Progress) :
    arrange { mapping with limit? := some limit } column? order progress =
      Progress.cut limit <$> arrange { mapping with limit? := none } column? order progress := by
  unfold arrange
  rw [sortAndCut_limit, bind_map_left, map_bind]
  exact bind_congr fun rows => rfl

/-! ## One chart after the other -/

theorem bars_limit [Calendar] : bars rows { mapping with limit? := some limit } =
    Progress.cut limit <$> bars rows { mapping with limit? := none } := by
  unfold bars
  refine bind_cut fun prepared => bind_cut fun categories => ?_
  dsimp only
  split
  · exact arrange_limit ..
  split
  · exact bind_cut fun values => arrange_limit ..
  split
  · exact bind_cut fun values => arrange_limit ..
  · exact arrange_limit ..

theorem lines_limit [Calendar] : lines rows { mapping with limit? := some limit } =
    Progress.cut limit <$> lines rows { mapping with limit? := none } := by
  unfold lines
  refine bind_cut fun prepared => bind_cut fun groups => ?_
  split
  · exact arrange_limit ..
  refine bind_cut fun axes => ?_
  cases axes.isEmpty with
  | true => exact bind_cut fun values => arrange_limit ..
  | false => exact arrange_limit ..

theorem points_limit [Calendar] : points rows { mapping with limit? := some limit } =
    Progress.cut limit <$> points rows { mapping with limit? := none } := by
  unfold points
  refine bind_cut fun prepared => ?_
  dsimp only
  split
  · exact arrange_limit ..
  · exact bind_cut fun groups => bind_cut fun x => bind_cut fun ys => arrange_limit ..

theorem slices_limit [Calendar] : slices rows { mapping with limit? := some limit } =
    Progress.cut limit <$> slices rows { mapping with limit? := none } := by
  unfold slices
  refine bind_cut fun prepared => bind_cut fun categories => ?_
  have hgroups : ∀ value : String,
      (if categories.isEmpty then arrange { mapping with limit? := some limit } none .desc prepared
        else arrange { mapping with limit? := some limit } (some value) .desc
          (aggregateGroups prepared categories [value] (mapping.aggregation?.getD .sum)
            mapping.percentile?)) =
      Progress.cut limit <$>
        (if categories.isEmpty then arrange { mapping with limit? := none } none .desc prepared
          else arrange { mapping with limit? := none } (some value) .desc
            (aggregateGroups prepared categories [value] (mapping.aggregation?.getD .sum)
              mapping.percentile?)) := by
    intro value
    split
    · exact arrange_limit ..
    · exact arrange_limit ..
  have hcolumn : formulaColumn? { mapping with limit? := some limit } =
      formulaColumn? { mapping with limit? := none } := rfl
  dsimp only
  cases mapping.value?.or mapping.yAxis.head? with
  | some reference =>
    refine bind_cut fun value? => ?_
    cases value? with
    | none => exact arrange_limit ..
    | some value => exact hgroups value
  | none =>
    rw [hcolumn]
    cases formulaColumn? { mapping with limit? := none } with
    | none => exact arrange_limit ..
    | some value => exact hgroups value

/-- The types of charts that arrange their rows. -/
def arranged : List ChartType := [.bar, .column, .line, .area, .scatter, .pie, .donut]

theorem compute_limit [Calendar] {chartType : ChartType} (h : chartType ∈ arranged) :
    compute rows { mapping with limit? := some limit } chartType =
      Progress.cut limit <$> compute rows { mapping with limit? := none } chartType := by
  cases chartType with
  | scorecard => exact absurd h (by decide)
  | bar => exact bars_limit rows mapping limit
  | column => exact bars_limit rows mapping limit
  | line => exact lines_limit rows mapping limit
  | area => exact lines_limit rows mapping limit
  | scatter => exact points_limit rows mapping limit
  | pie => exact slices_limit rows mapping limit
  | donut => exact slices_limit rows mapping limit
  | unsupported name => simp [arranged] at h

end

/-- A limit keeps the first rows of a chart and the number of rows that its metadata tells.
It changes nothing else, and fails where and as the chart without it does. -/
theorem process_limit [Calendar] (rows : Dataset) (mapping : ChartMapping) (limit : Nat)
    {chartType : ChartType} (h : chartType ∈ arranged) :
    process rows chartType { mapping with limit? := some limit } =
      ChartData.cut limit <$> process rows chartType { mapping with limit? := none } := by
  have hdone : (if rows.isEmpty then pure { rows := [] }
        else compute rows { mapping with limit? := some limit } chartType) =
      Progress.cut limit <$> (if rows.isEmpty then pure { rows := [] }
        else compute rows { mapping with limit? := none } chartType) := by
    split
    · simp [Progress.cut]
    · exact compute_limit rows mapping limit h
  rw [process_eq, process_eq, hdone, Functor.map_map, Functor.map_map]
  exact map_congr fun done => (done.cut_chart rows chartType limit).symm

/-- Of two regions a limit of one leaves the first. -/
theorem process_limit_first_region :
    let rows := [Row.ofList [("Region", .text "East"), ("Revenue", .number 3.0)],
      Row.ofList [("Region", .text "West"), ("Revenue", .number 5.0)]]
    let mapping : ChartMapping := { category := ["Region"], value? := some "Revenue" }
    (process rows .bar { mapping with limit? := some 1 }).toOption.map
      (fun data => (data.rows.map (·.groupKey ["Region"]), data.metadata.resultRowCount)) =
        some ([[some "East"]], 1) := by
  intro rows mapping
  have hbar : ChartType.bar ∈ arranged := by decide
  rw [process_limit rows mapping 1 hbar]
  decide +kernel

end Chart
end Tabular
