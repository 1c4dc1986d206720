import Mathlib.Data.List.Perm.Subperm
import Tabular.Chart
import Tabular.Instant
import Tabular.Proofs.Except
import Tabular.Proofs.Formula.Memo
import Tabular.Proofs.Grouping.GroupBy

/-!
# Groups of a chart

The rows of a grouped chart are those of `groupBy` over its prepared rows, in another order
and up to the limit (`compute_grouped`). Every value column is aggregated into a column of
its own name. So the chart keeps the groups where no value column is a group column, and
elsewhere an aggregate stands in the place of the group's cell (`process_grouped`).
-/
namespace Tabular.Chart

/-! ## Resolved references -/

theorem resolveIn_eq_ok {available : List String} {reference column : String} :
    resolveIn available reference = .ok column ↔ resolve reference available = some column :=
  require_eq_ok

theorem resolveEach_eq_ok {available references found : List String}
    (h : resolveEach available references = .ok found) :
    found = references.filterMap (resolve · available) := by
  induction references generalizing found with
  | nil =>
    cases h
    rfl
  | cons reference rest ih =>
    rw [resolveEach, List.mapM_cons, bind_eq_ok] at h
    obtain ⟨column, hcolumn, h⟩ := h
    rw [bind_eq_ok] at h
    obtain ⟨others, hothers, h⟩ := h
    cases h
    rw [List.filterMap_cons, resolveIn_eq_ok.mp hcolumn, ← ih hothers]

theorem resolveEach_eq_nil {available references : List String}
    (h : resolveEach available references = .ok []) : references = [] := by
  cases references with
  | nil => rfl
  | cons reference rest =>
    rw [resolveEach, List.mapM_cons, bind_eq_ok] at h
    obtain ⟨column, -, h⟩ := h
    rw [bind_eq_ok] at h
    obtain ⟨others, -, h⟩ := h
    cases h

theorem resolveOption_eq_ok {available : List String} {reference? found? : Option String}
    (h : resolveOption available reference? = .ok found?) :
    found? = reference?.bind (resolve · available) := by
  cases reference? with
  | none =>
    cases h
    rfl
  | some reference =>
    cases hr : resolveIn available reference with
    | error e => simp [resolveOption, hr, Except.map] at h
    | ok column =>
      simp only [resolveOption, hr, Except.map, Except.ok.injEq] at h
      rw [Option.bind_some, resolveIn_eq_ok.mp hr, ← h]

/-! ## Value columns -/

/-- The references to the columns that a chart of some type aggregates over groups. -/
def valueReferences (mapping : ChartMapping) : ChartType → List String
  | .scatter => mapping.xAxis?.toList ++ mapping.yAxis
  | .pie | .donut => (mapping.value?.or mapping.yAxis.head?).toList
  | _ => if mapping.yAxis.isEmpty then mapping.value?.toList else mapping.yAxis

/-- The column of the formula is aggregated too: always by lines and areas, never by points,
and by others in the place of value columns that are not named. -/
def aggregatesFormula (mapping : ChartMapping) : ChartType → Bool
  | .scatter => false
  | .line | .area => true
  | other => (valueReferences mapping other).isEmpty

/-- The columns that a chart of some type aggregates over groups. -/
def valueColumns (available : List String) (mapping : ChartMapping) (chartType : ChartType) :
    List String :=
  (valueReferences mapping chartType).filterMap (resolve · available) ++
    if aggregatesFormula mapping chartType then (formulaColumn? mapping).toList else []

/-! ## Rows on their way -/

theorem sortOption_perm [Calendar] (rows : Dataset) (column? : Option String) (order : SortOrder) :
    List.Perm (match column? with
      | some column => Dataset.sort rows column order
      | none => rows) rows := by
  cases column? with
  | none => exact List.Perm.refl _
  | some column => exact sort_perm rows column order

theorem cutOption_subperm {rows sorted : Dataset} (h : sorted.Perm rows) (limit? : Option Nat) :
    List.Subperm (match limit? with
      | some limit => sorted.take limit
      | none => sorted) rows := by
  cases limit? with
  | none => exact h.subperm
  | some limit => exact (List.take_sublist _ _).subperm.trans h.subperm

theorem sortAndCut_subperm [Calendar] {mapping : ChartMapping} {column? : Option String}
    {order : SortOrder} {rows out : Dataset}
    (h : sortAndCut mapping column? order rows = .ok out) : out.Subperm rows := by
  unfold sortAndCut at h
  dsimp only at h
  split at h
  · obtain ⟨found, -, h⟩ := bind_eq_ok.mp h
    cases h
    exact cutOption_subperm (sortOption_perm rows found _) mapping.limit?
  · cases h
    exact cutOption_subperm (sortOption_perm rows column? _) mapping.limit?

theorem arrange_eq_ok [Calendar] {mapping : ChartMapping} {column? : Option String}
    {order : SortOrder}
    {progress done : Progress} (h : arrange mapping column? order progress = .ok done) :
    done.rows.Subperm progress.rows ∧ done.groupedBy? = progress.groupedBy? ∧
      done.aggregation? = progress.aggregation? := by
  rw [arrange, bind_eq_ok] at h
  obtain ⟨rows, hrows, h⟩ := h
  cases h
  exact ⟨sortAndCut_subperm hrows, rfl, rfl⟩

theorem withComputed_groupedBy? {rows : Dataset} {mapping : ChartMapping} {prepared : Progress}
    (h : withComputed rows mapping = .ok prepared) : prepared.groupedBy? = none := by
  unfold withComputed at h
  dsimp only at h
  split at h
  · obtain ⟨calculated, -, h⟩ := bind_eq_ok.mp h
    obtain ⟨derived, -, h⟩ := bind_eq_ok.mp h
    cases h
    rfl
  · obtain ⟨calculated, -, h⟩ := bind_eq_ok.mp h
    obtain ⟨derived, -, h⟩ := bind_eq_ok.mp h
    cases h
    rfl

/-- The rows done are those of groups over prepared rows, in another order and some perhaps
left out. -/
def Grouped (prepared : Dataset) (mapping : ChartMapping) (chartType : ChartType)
    (groups : List String) (done : Progress) : Prop :=
  ∃ kind values, (∀ c, c ∈ values ↔ c ∈ valueColumns (columns prepared) mapping chartType) ∧
    done.aggregation? = some kind ∧
    done.rows.Subperm
      (aggregateGroups { rows := prepared } groups values kind mapping.percentile?).rows

section
variable {rows : Dataset} {mapping : ChartMapping} {column? : Option String} {order : SortOrder}
  {prepared done : Progress} {groups : List String}

/-- Rows that pass through are not grouped. -/
theorem not_grouped_of_arrange [Calendar] (hp : withComputed rows mapping = .ok prepared)
    (h : arrange mapping column? order prepared = .ok done) : done.groupedBy? ≠ some groups := by
  rw [(arrange_eq_ok h).2.1, withComputed_groupedBy? hp]
  exact fun he => by cases he

theorem grouped_of_arrange [Calendar] {chartType : ChartType} {given values : List String}
    {kind : AggregateKind}
    (hvalues : ∀ c, c ∈ values ↔ c ∈ valueColumns (columns prepared.rows) mapping chartType)
    (h : arrange mapping column? order
      (aggregateGroups prepared given values kind mapping.percentile?) = .ok done)
    (hg : done.groupedBy? = some groups) : Grouped prepared.rows mapping chartType groups done := by
  obtain ⟨hrows, hgroups, haggregation⟩ := arrange_eq_ok h
  cases hgroups.symm.trans hg
  exact ⟨kind, values, hvalues, haggregation, hrows⟩

/-! ## One chart after the other -/

theorem bars_grouped [Calendar] (h : bars rows mapping = .ok done)
    (hg : done.groupedBy? = some groups) :
    ∃ prepared, withComputed rows mapping = .ok prepared ∧
      Grouped prepared.rows mapping .bar groups done := by
  unfold bars at h
  obtain ⟨prepared, hp, h⟩ := bind_eq_ok.mp h
  obtain ⟨categories, -, h⟩ := bind_eq_ok.mp h
  refine ⟨prepared, hp, ?_⟩
  split at h
  · exact absurd hg (not_grouped_of_arrange hp h)
  split at h
  · rename_i hy
    obtain ⟨values, hv, h⟩ := bind_eq_ok.mp h
    refine grouped_of_arrange (fun c => ?_) h hg
    rw [resolveEach_eq_ok hv]
    simp_all [valueColumns, valueReferences, aggregatesFormula]
  · rename_i hy
    split at h
    · rename_i reference hvalue
      obtain ⟨values, hv, h⟩ := bind_eq_ok.mp h
      refine grouped_of_arrange (fun c => ?_) h hg
      rw [resolveEach_eq_ok hv]
      simp_all [valueColumns, valueReferences, aggregatesFormula]
    · rename_i hvalue
      refine grouped_of_arrange (fun c => ?_) h hg
      simp_all [valueColumns, valueReferences, aggregatesFormula]

theorem mem_appendOption (column? : Option String) (values : List String) (c : String) :
    (c ∈ match column? with
      | some column => Formula.appendNew column values
      | none => values) ↔ c ∈ values ∨ c ∈ column? := by
  cases column? with
  | none => simp
  | some column => simp [Formula.mem_appendNew, eq_comm]

theorem lines_grouped [Calendar] (h : lines rows mapping = .ok done)
    (hg : done.groupedBy? = some groups) :
    ∃ prepared, withComputed rows mapping = .ok prepared ∧
      Grouped prepared.rows mapping .line groups done := by
  unfold lines at h
  obtain ⟨prepared, hp, h⟩ := bind_eq_ok.mp h
  obtain ⟨found, -, h⟩ := bind_eq_ok.mp h
  refine ⟨prepared, hp, ?_⟩
  split at h
  · exact absurd hg (not_grouped_of_arrange hp h)
  obtain ⟨axes, ha, h⟩ := bind_eq_ok.mp h
  cases hempty : axes.isEmpty with
  | true =>
    obtain rfl := List.isEmpty_iff.mp hempty
    obtain ⟨values, hv, h⟩ := bind_eq_ok.mp h
    refine grouped_of_arrange (fun c => ?_) h hg
    refine (mem_appendOption (formulaColumn? mapping) values c).trans ?_
    rw [resolveEach_eq_ok hv]
    simp [valueColumns, valueReferences, aggregatesFormula, resolveEach_eq_nil ha]
  | false =>
    have hy : mapping.yAxis.isEmpty = false := by
      rw [Bool.eq_false_iff]
      intro hy
      rw [resolveEach_eq_ok ha, List.isEmpty_iff.mp hy] at hempty
      cases hempty
    simp only [hempty, Bool.false_eq_true, if_false] at h
    refine grouped_of_arrange (fun c => ?_) h hg
    refine (mem_appendOption (formulaColumn? mapping) axes c).trans ?_
    rw [resolveEach_eq_ok ha]
    simp [valueColumns, valueReferences, aggregatesFormula, hy]

theorem points_grouped [Calendar] (h : points rows mapping = .ok done)
    (hg : done.groupedBy? = some groups) :
    ∃ prepared, withComputed rows mapping = .ok prepared ∧
      Grouped prepared.rows mapping .scatter groups done := by
  unfold points at h
  obtain ⟨prepared, hp, h⟩ := bind_eq_ok.mp h
  refine ⟨prepared, hp, ?_⟩
  split at h
  · exact absurd hg (not_grouped_of_arrange hp h)
  obtain ⟨found, -, h⟩ := bind_eq_ok.mp h
  obtain ⟨x, hx, h⟩ := bind_eq_ok.mp h
  obtain ⟨ys, hy, h⟩ := bind_eq_ok.mp h
  refine grouped_of_arrange (fun c => ?_) h hg
  rw [Formula.mem_foldl_appendNew, resolveEach_eq_ok hx, resolveEach_eq_ok hy]
  simp [valueColumns, valueReferences, aggregatesFormula]

theorem grouped_of_slices [Calendar] {categories : List String} (value? : Option String)
    (hp : withComputed rows mapping = .ok prepared)
    (hvalue : ∀ c, c ∈ value? ↔ c ∈ valueColumns (columns prepared.rows) mapping .pie)
    (h : (match value? with
      | none => arrange mapping none .desc prepared
      | some value =>
        if categories.isEmpty then arrange mapping none .desc prepared
        else arrange mapping (some value) .desc (aggregateGroups prepared categories [value]
          (mapping.aggregation?.getD .sum) mapping.percentile?)) = .ok done)
    (hg : done.groupedBy? = some groups) : Grouped prepared.rows mapping .pie groups done := by
  cases value? with
  | none => exact absurd hg (not_grouped_of_arrange hp h)
  | some value =>
    dsimp only at h
    split at h
    · exact absurd hg (not_grouped_of_arrange hp h)
    · refine grouped_of_arrange (fun c => ?_) h hg
      rw [← hvalue c]
      simp [eq_comm]

theorem slices_grouped [Calendar] (h : slices rows mapping = .ok done)
    (hg : done.groupedBy? = some groups) :
    ∃ prepared, withComputed rows mapping = .ok prepared ∧
      Grouped prepared.rows mapping .pie groups done := by
  unfold slices at h
  obtain ⟨prepared, hp, h⟩ := bind_eq_ok.mp h
  obtain ⟨categories, -, h⟩ := bind_eq_ok.mp h
  refine ⟨prepared, hp, ?_⟩
  cases href : mapping.value?.or mapping.yAxis.head? with
  | some reference =>
    simp only [href] at h
    obtain ⟨value?, hv, h⟩ := bind_eq_ok.mp h
    refine grouped_of_slices value? hp (fun c => ?_) h hg
    rw [resolveOption_eq_ok hv]
    simp [valueColumns, valueReferences, aggregatesFormula, href]
  | none =>
    simp only [href] at h
    refine grouped_of_slices (formulaColumn? mapping) hp (fun c => ?_) h hg
    simp [valueColumns, valueReferences, aggregatesFormula, href]

theorem scorecard_groupedBy? (h : scorecard rows mapping = .ok done) : done.groupedBy? = none := by
  unfold scorecard at h
  split at h
  · obtain ⟨values, -, h⟩ := bind_eq_ok.mp h
    cases h
    rfl
  split at h
  · cases h
    rfl
  · obtain ⟨column, -, h⟩ := bind_eq_ok.mp h
    cases h
    rfl

theorem compute_grouped [Calendar] {chartType : ChartType}
    (h : compute rows mapping chartType = .ok done)
    (hg : done.groupedBy? = some groups) :
    ∃ prepared, withComputed rows mapping = .ok prepared ∧
      Grouped prepared.rows mapping chartType groups done := by
  cases chartType with
  | scorecard =>
    rw [scorecard_groupedBy? h] at hg
    cases hg
  | bar => exact bars_grouped h hg
  | column => exact bars_grouped h hg
  | line => exact lines_grouped h hg
  | area => exact lines_grouped h hg
  | scatter => exact points_grouped h hg
  | pie => exact slices_grouped h hg
  | donut => exact slices_grouped h hg
  | unsupported name =>
    cases h
    cases hg

end

/-! ## What becomes of the groups -/

section
variable {prepared : Dataset} {groups values : List String} {kind : AggregateKind}
  {percentile? : Option Float}

/-- Each row carries cells of one group, and no two rows have the same key. -/
structure KeepsGroups (prepared : Dataset) (groups : List String) (out : Dataset) : Prop where
  carried : ∀ row ∈ out, ∃ g ∈ partition prepared groups, ∀ c ∈ groups,
    ∃ source ∈ g.rows, row.get? c = some (source.cell c)
  apart : out.Pairwise fun a b => a.groupKey groups ≠ b.groupKey groups

/-- Under a group column stands the group's cell, unless it is a value column too: then the
aggregate does. -/
theorem get?_aggregateGroups {row : Row}
    (h : row ∈ (aggregateGroups { rows := prepared } groups values kind percentile?).rows) :
    ∃ g ∈ partition prepared groups, ∀ c ∈ groups, row.get? c = some (
      if c ∈ values then .ofValue (Aggregate.ofRows g.rows c kind percentile?)
      else g.first.cell c) := by
  obtain ⟨g, hg, rfl⟩ := List.mem_map.mp h
  refine ⟨g, hg, fun c hc => ?_⟩
  split
  · rename_i hv
    refine GroupConfig.get?_row_output (a := ⟨c, kind, some c, percentile?⟩)
      (List.mem_map_of_mem hv) ?_
    intro b hb he
    obtain ⟨column, -, rfl⟩ := List.mem_map.mp hb
    obtain rfl : column = c := he
    rfl
  · rename_i hv
    refine GroupConfig.get?_row_group hc ?_
    intro a ha he
    obtain ⟨column, hcolumn, rfl⟩ := List.mem_map.mp ha
    obtain rfl : column = c := he
    exact hv hcolumn

/-- Groups are kept by all of their rows if no value column is a group column. -/
theorem apart_aggregateGroups (hfree : ∀ c ∈ values, c ∉ groups) :
    (aggregateGroups { rows := prepared } groups values kind percentile?).rows.Pairwise
      fun a b => a.groupKey groups ≠ b.groupKey groups := by
  have hcarries : ∀ g ∈ partition prepared groups, (GroupConfig.row
      { groupColumns := groups, aggregates := values.map fun column =>
          { column, kind, output? := some column, percentile? : AggregateConfig } } g).Carries
      g.first groups := by
    intro g _
    refine GroupConfig.carries_row ?_
    intro a ha
    obtain ⟨column, hcolumn, rfl⟩ := List.mem_map.mp ha
    exact hfree column hcolumn
  exact List.pairwise_map.mp (firstOccurrences_groups hcarries).nodup

end

/-- A grouped chart's rows are groups of its prepared rows. Under a group column that is no
value column a row has the cell of its group's first row, and under one that is a value
column it has the aggregate. So the groups are kept if no value column is a group column. -/
theorem process_grouped [Calendar] {rows : Dataset} {chartType : ChartType} {mapping : ChartMapping}
    {data : ChartData} {groups : List String}
    (hdata : process rows chartType mapping = .ok data)
    (hgroups : data.metadata.groupedBy? = some groups) :
    ∃ prepared kind, withComputed rows mapping = .ok prepared ∧
      data.metadata.aggregation? = some kind ∧
      (∀ row ∈ data.rows, ∃ g ∈ partition prepared.rows groups, ∀ c ∈ groups,
        row.get? c = some (
          if c ∈ valueColumns (columns prepared.rows) mapping chartType then
            .ofValue (Aggregate.ofRows g.rows c kind mapping.percentile?)
          else g.first.cell c)) ∧
      ((∀ c ∈ valueColumns (columns prepared.rows) mapping chartType, c ∉ groups) →
        KeepsGroups prepared.rows groups data.rows) := by
  unfold process at hdata
  dsimp only at hdata
  split at hdata
  -- A chart of no rows has no groups.
  · cases hdata
    cases hgroups
  obtain ⟨done, hcompute, h⟩ := bind_eq_ok.mp hdata
  cases h
  obtain ⟨prepared, hp, kind, values, hvalues, hkind, hrows⟩ := compute_grouped hcompute hgroups
  have hcells : ∀ row ∈ done.rows, ∃ g ∈ partition prepared.rows groups, ∀ c ∈ groups,
      row.get? c = some (
        if c ∈ valueColumns (columns prepared.rows) mapping chartType then
          .ofValue (Aggregate.ofRows g.rows c kind mapping.percentile?)
        else g.first.cell c) := by
    intro row hrow
    obtain ⟨g, hg, hcell⟩ := get?_aggregateGroups (hrows.subset hrow)
    refine ⟨g, hg, fun c hc => ?_⟩
    rw [hcell c hc]
    simp only [hvalues c]
  refine ⟨prepared, kind, hp, hkind, hcells, fun hfree => ⟨?_, ?_⟩⟩
  · intro row hrow
    obtain ⟨g, hg, hcell⟩ := hcells row hrow
    refine ⟨g, hg, fun c hc => ⟨g.first, List.mem_cons_self, ?_⟩⟩
    rw [hcell c hc, if_neg fun hv => hfree c hv hc]
  · obtain ⟨sub, hperm, hsub⟩ := hrows
    have hapart := (apart_aggregateGroups fun c hc => hfree c ((hvalues c).mp hc)).sublist hsub
    exact (hperm.pairwise_iff fun hne => Ne.symm hne).mp hapart

/-- Revenues summed by region: no value column is a group column, so the regions are kept. -/
theorem process_grouped_by_region :
    let rows := [Row.ofList [("Region", .text "East"), ("Revenue", .text "3")],
      Row.ofList [("Region", .text "West")]]
    let mapping : ChartMapping := { category := ["Region"], yAxis := ["Revenue"] }
    ∃ data prepared, process rows .bar mapping = .ok data ∧
      data.metadata.groupedBy? = some ["Region"] ∧ withComputed rows mapping = .ok prepared ∧
      KeepsGroups prepared.rows ["Region"] data.rows := by
  intro rows mapping
  have hchart : (process rows .bar mapping).toOption.bind (·.metadata.groupedBy?) =
      some ["Region"] := by decide +kernel
  have hvalues : (withComputed rows mapping).toOption.map
      (fun prepared => valueColumns (columns prepared.rows) mapping .bar) = some ["Revenue"] := by
    decide +kernel
  cases hdata : process rows .bar mapping with
  | error e => simp [hdata, Except.toOption] at hchart
  | ok data =>
    have hgroups : data.metadata.groupedBy? = some ["Region"] := by
      simpa [hdata, Except.toOption] using hchart
    obtain ⟨prepared, kind, hp, -, -, hkeeps⟩ := process_grouped hdata hgroups
    have hcolumns : valueColumns (columns prepared.rows) mapping .bar = ["Revenue"] := by
      simpa [hp, Except.toOption] using hvalues
    refine ⟨data, prepared, rfl, hgroups, hp, hkeeps ?_⟩
    rw [hcolumns]
    decide

/-- Regions counted under their own name: the counts stand in the place of the regions, and
the rows can no longer be told apart. -/
theorem not_keepsGroups_of_counted_category :
    ¬ ∀ (rows : Dataset) (chartType : ChartType) (mapping : ChartMapping) (data : ChartData)
      (groups : List String), rows ≠ [] → process rows chartType mapping = .ok data →
      data.metadata.groupedBy? = some groups →
      ∃ prepared, withComputed rows mapping = .ok prepared ∧
        KeepsGroups prepared.rows groups data.rows := by
  intro hall
  let rows := [Row.ofList [("Region", .text "East")], Row.ofList [("Region", .text "West")]]
  let mapping : ChartMapping :=
    { category := ["Region"], yAxis := ["Region"], aggregation? := some .count }
  -- Neither region is a number, so both are counted zero times.
  have hchart : (process rows .bar mapping).toOption.map
      (fun data => (data.rows.map (·.groupKey ["Region"]), data.metadata.groupedBy?)) =
      some ([[some "0"], [some "0"]], some ["Region"]) := by decide +kernel
  cases hdata : process rows .bar mapping with
  | error e => simp [hdata, Except.toOption] at hchart
  | ok data =>
    simp only [hdata, Except.toOption, Option.map_some, Option.some.injEq, Prod.mk.injEq] at hchart
    obtain ⟨hkeys, hgroups⟩ := hchart
    obtain ⟨prepared, -, hkeeps⟩ := hall rows .bar mapping data ["Region"] (by decide) hdata hgroups
    have hapart := List.pairwise_map.mpr hkeeps.apart
    rw [hkeys] at hapart
    exact absurd hapart (by decide)

end Tabular.Chart
