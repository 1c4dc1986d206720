import Tabular.Proofs.Chart.Computed
import Tabular.Proofs.Columns
import Tabular.Proofs.Except
import Tabular.Proofs.Reference

/-!
# Names in a chart

A mapping comes from users, and what it writes are references: they are resolved before they
are used. So the columns of a chart's rows, and those it is grouped by, are columns of the
dataset or outputs that the mapping computes (`process_names`).
-/
namespace Tabular

/-! ## Names of rows -/

section
variable {P : String → Prop}

/-- Every column of the row has a name of some sort. -/
def Row.NamesAre (P : String → Prop) (row : Row) : Prop := ∀ name ∈ row.names, P name

/-- Every column of the rows has a name of some sort. -/
def NamesAre (P : String → Prop) (rows : Dataset) : Prop := ∀ row ∈ rows, row.NamesAre P

theorem NamesAre.columns {rows : Dataset} (h : NamesAre P rows) {name : String}
    (hn : name ∈ columns rows) : P name := by
  obtain ⟨row, hrow, hname⟩ := mem_columns.mp hn
  exact h row hrow name hname

theorem Row.namesAre_empty : Row.empty.NamesAre P := fun _ hn => absurd hn List.not_mem_nil

theorem Row.NamesAre.insert {row : Row} (h : row.NamesAre P) {name : String} (hn : P name)
    (cell : Cell) : (row.insert name cell).NamesAre P := by
  intro other ho
  obtain ⟨entry, hentry, rfl⟩ := List.mem_map.mp ho
  rcases mem_insertEntry hentry with rfl | hentry
  · exact hn
  · exact h _ (List.mem_map_of_mem hentry)

theorem Row.NamesAre.foldl_insert {α : Type} {items : List α} {name : α → String}
    (hn : ∀ item ∈ items, P (name item)) (cell : α → Cell) {row : Row} (h : row.NamesAre P) :
    (items.foldl (fun row item => row.insert (name item) (cell item)) row).NamesAre P := by
  induction items generalizing row with
  | nil => exact h
  | cons item rest ih =>
    obtain ⟨hitem, hrest⟩ := List.forall_mem_cons.mp hn
    exact ih hrest (h.insert hitem _)

/-! ## Names of what is computed -/

theorem Formula.evaluate_names {rows out : Dataset} {formula output : String} {mode : Mode}
    (h : evaluate rows formula output mode = .ok out) (hrows : NamesAre P rows)
    (ho : P output) : NamesAre P out := by
  unfold evaluate at h
  obtain ⟨f, -, h⟩ := bind_eq_ok.mp h
  cases mode with
  | datasetWise =>
    obtain ⟨v, -, h⟩ := bind_eq_ok.mp h
    cases h
    intro row hrow
    obtain rfl := List.mem_singleton.mp hrow
    exact Row.namesAre_empty.insert ho _
  | rowWise =>
    intro written hw
    obtain ⟨row, hrow, hrun⟩ := exists_of_mem_mapM h hw
    obtain ⟨v, -, hrun⟩ := bind_eq_ok.mp hrun
    cases hrun
    exact (hrows row hrow).insert ho _

theorem Metric.apply_names {rows out : Dataset} {config : MetricConfig}
    (h : apply rows config = .ok out) (hrows : NamesAre P rows) (ho : P config.output) :
    NamesAre P out := by
  intro written hw
  obtain ⟨row, hrow, value, rfl⟩ := mem_apply h hw
  exact (hrows row hrow).insert ho _

theorem Metric.applyAll_names {rows out : Dataset} {configs : List MetricConfig}
    (h : applyAll rows configs = .ok out) (hrows : NamesAre P rows)
    (ho : ∀ config ∈ configs, P config.output) : NamesAre P out := by
  induction configs generalizing rows with
  | nil =>
    cases h
    exact hrows
  | cons config rest ih =>
    obtain ⟨hconfig, hrest⟩ := List.forall_mem_cons.mp ho
    rw [applyAll_cons, bind_eq_ok] at h
    obtain ⟨next, ha, h⟩ := h
    exact ih h (apply_names ha hrows hconfig) hrest

/-- Rows of groups have the group columns and those of the aggregates, and no others. -/
theorem groupBy_names {rows : Dataset} {config : GroupConfig} (hkeep : config.keepOthers = false)
    (hgroups : ∀ column ∈ config.groupColumns, P column)
    (haggregates : ∀ a ∈ config.aggregates, P a.outputColumn) :
    NamesAre P (groupBy rows config) := by
  intro row hrow
  obtain ⟨g, -, rfl⟩ := List.mem_map.mp hrow
  unfold GroupConfig.row
  rw [hkeep]
  refine .foldl_insert haggregates _ ?_
  exact .foldl_insert hgroups _ Row.namesAre_empty

end

namespace Chart

/-! ## Names on the way to a chart -/

/-- The columns of rows on their way to a chart, and those they are grouped by, have names of
some sort. -/
structure Progress.NamesAre (P : String → Prop) (progress : Progress) : Prop where
  rows : Tabular.NamesAre P progress.rows
  groups : ∀ groups ∈ progress.groupedBy?, ∀ name ∈ groups, P name

/-- The names that a mapping may give to columns of a chart: those of the dataset, the name of
its formula's column if it has a formula, and those of its derived metrics. -/
def Known (rows : Dataset) (mapping : ChartMapping) (name : String) : Prop :=
  name ∈ columns rows ∨ (mapping.activeFormula? ≠ none ∧ name = mapping.output) ∨
    ∃ config ∈ mapping.derivedMetrics, name = config.output

/-- The strings that a mapping writes where it means columns. -/
def writtenReferences (mapping : ChartMapping) : List String :=
  mapping.xAxis?.toList ++ mapping.yAxis ++ mapping.category ++ mapping.value?.toList ++
    mapping.metric?.toList ++ mapping.groupBy ++ mapping.sortBy?.toList ++
    mapping.derivedMetrics.flatMap fun config =>
      config.numerator?.toList ++ config.denominator?.toList ++ config.column?.toList

section
variable {P : String → Prop} {rows : Dataset} {mapping : ChartMapping}

theorem resolveEach_names {references found : List String} (hrows : NamesAre P rows)
    (h : resolveEach (columns rows) references = .ok found) : ∀ name ∈ found, P name := by
  rw [resolveEach_eq_ok h]
  intro name hn
  obtain ⟨reference, -, hr⟩ := List.mem_filterMap.mp hn
  exact hrows.columns (mem_of_resolve hr)

theorem formulaColumn?_known {name : String} (h : name ∈ formulaColumn? mapping) :
    Known rows mapping name := by
  obtain ⟨formula, hf, rfl⟩ := Option.map_eq_some_iff.mp h
  exact .inr (.inl ⟨by simp [hf], rfl⟩)

theorem known_of_mem_columns : NamesAre (Known rows mapping) rows :=
  fun row hrow _ hn => .inl (mem_columns.mpr ⟨row, hrow, hn⟩)

theorem known_output {formula : String} (h : mapping.activeFormula? = some formula) :
    Known rows mapping mapping.output :=
  .inr (.inl ⟨by simp [h], rfl⟩)

theorem withComputed_names {prepared : Progress} (h : withComputed rows mapping = .ok prepared) :
    prepared.NamesAre (Known rows mapping) := by
  have hderived : ∀ {calculated derived : Dataset},
      Metric.applyAll calculated mapping.derivedMetrics = .ok derived →
      NamesAre (Known rows mapping) calculated → NamesAre (Known rows mapping) derived := by
    intro calculated derived ha hc
    exact Metric.applyAll_names ha hc fun config hconfig => .inr (.inr ⟨config, hconfig, rfl⟩)
  refine ⟨?_, fun groups hg => ?_⟩
  · unfold withComputed at h
    dsimp only at h
    split at h
    · rename_i formula hf
      obtain ⟨calculated, hc, h⟩ := bind_eq_ok.mp h
      obtain ⟨derived, hd, h⟩ := bind_eq_ok.mp h
      cases h
      exact hderived hd (Formula.evaluate_names hc known_of_mem_columns (known_output hf))
    · obtain ⟨calculated, hc, h⟩ := bind_eq_ok.mp h
      cases hc
      obtain ⟨derived, hd, h⟩ := bind_eq_ok.mp h
      cases h
      exact hderived hd known_of_mem_columns
  · rw [withComputed_groupedBy? h] at hg
    cases hg

theorem aggregateGroups_names {progress : Progress} {groups values : List String}
    {kind : AggregateKind} {percentile? : Option Float} (hgroups : ∀ name ∈ groups, P name)
    (hvalues : ∀ name ∈ values, P name) :
    (aggregateGroups progress groups values kind percentile?).NamesAre P := by
  refine ⟨groupBy_names rfl hgroups fun a ha => ?_, fun found hf => ?_⟩
  · obtain ⟨column, hc, rfl⟩ := List.mem_map.mp ha
    exact hvalues column hc
  · cases hf
    exact hgroups

theorem Progress.NamesAre.arrange [Calendar] {progress done : Progress} {column? : Option String}
    {order : SortOrder} (h : progress.NamesAre P)
    (ha : arrange mapping column? order progress = .ok done) : done.NamesAre P := by
  obtain ⟨hrows, hgroups, -⟩ := arrange_eq_ok ha
  refine ⟨fun row hrow => h.rows row (hrows.subset hrow), ?_⟩
  rw [hgroups]
  exact h.groups

/-! ## One chart after the other -/

variable {done : Progress}

theorem scorecard_names (h : scorecard rows mapping = .ok done) :
    done.NamesAre (Known rows mapping) := by
  have hungrouped : ∀ groups ∈ done.groupedBy?, ∀ name ∈ groups, Known rows mapping name := by
    rw [scorecard_groupedBy? h]
    exact fun groups hg => by cases hg
  refine ⟨?_, hungrouped⟩
  unfold scorecard at h
  split at h
  · rename_i formula hf
    obtain ⟨values, hv, h⟩ := bind_eq_ok.mp h
    cases h
    exact Formula.evaluate_names hv known_of_mem_columns (known_output hf)
  split at h
  · cases h
    exact known_of_mem_columns
  · obtain ⟨column, hc, h⟩ := bind_eq_ok.mp h
    cases h
    intro row hrow
    obtain rfl := List.mem_singleton.mp hrow
    exact Row.namesAre_empty.insert (.inl (mem_of_resolve (resolveIn_eq_ok.mp hc))) _

theorem bars_names [Calendar] (h : bars rows mapping = .ok done) :
    done.NamesAre (Known rows mapping) := by
  unfold bars at h
  obtain ⟨prepared, hp, h⟩ := bind_eq_ok.mp h
  obtain ⟨categories, hc, h⟩ := bind_eq_ok.mp h
  have hprepared := withComputed_names hp
  have hcategories := resolveEach_names hprepared.rows hc
  split at h
  · exact hprepared.arrange h
  split at h
  · obtain ⟨values, hv, h⟩ := bind_eq_ok.mp h
    exact (aggregateGroups_names hcategories (resolveEach_names hprepared.rows hv)).arrange h
  split at h
  · obtain ⟨values, hv, h⟩ := bind_eq_ok.mp h
    exact (aggregateGroups_names hcategories (resolveEach_names hprepared.rows hv)).arrange h
  · refine (aggregateGroups_names hcategories fun name hn => ?_).arrange h
    exact formulaColumn?_known (Option.mem_toList.mp hn)

theorem lineGroups_names {groups : List String} (hrows : NamesAre P rows)
    (h : lineGroups (columns rows) mapping = .ok groups) : ∀ name ∈ groups, P name := by
  unfold lineGroups at h
  split at h
  · exact resolveEach_names hrows h
  split at h
  · exact resolveEach_names hrows h
  · cases h
    exact fun name hn => absurd hn List.not_mem_nil

theorem lines_names [Calendar] (h : lines rows mapping = .ok done) :
    done.NamesAre (Known rows mapping) := by
  unfold lines at h
  obtain ⟨prepared, hp, h⟩ := bind_eq_ok.mp h
  obtain ⟨groups, hg, h⟩ := bind_eq_ok.mp h
  have hprepared := withComputed_names hp
  have hgroups := lineGroups_names hprepared.rows hg
  split at h
  · exact hprepared.arrange h
  obtain ⟨axes, ha, h⟩ := bind_eq_ok.mp h
  cases hempty : axes.isEmpty with
  | true =>
    simp only [hempty, if_true] at h
    obtain ⟨values, hv, h⟩ := bind_eq_ok.mp h
    refine (aggregateGroups_names hgroups fun name hn => ?_).arrange h
    rcases (mem_appendOption _ values name).mp hn with hn | hn
    · exact resolveEach_names hprepared.rows hv name hn
    · exact formulaColumn?_known hn
  | false =>
    simp only [hempty, Bool.false_eq_true, if_false] at h
    refine (aggregateGroups_names hgroups fun name hn => ?_).arrange h
    rcases (mem_appendOption _ axes name).mp hn with hn | hn
    · exact resolveEach_names hprepared.rows ha name hn
    · exact formulaColumn?_known hn

theorem points_names [Calendar] (h : points rows mapping = .ok done) :
    done.NamesAre (Known rows mapping) := by
  unfold points at h
  obtain ⟨prepared, hp, h⟩ := bind_eq_ok.mp h
  have hprepared := withComputed_names hp
  split at h
  · exact hprepared.arrange h
  obtain ⟨groups, hg, h⟩ := bind_eq_ok.mp h
  obtain ⟨x, hx, h⟩ := bind_eq_ok.mp h
  obtain ⟨ys, hy, h⟩ := bind_eq_ok.mp h
  refine (aggregateGroups_names (resolveEach_names hprepared.rows hg) fun name hn => ?_).arrange h
  rcases Formula.mem_foldl_appendNew.mp hn with hn | ⟨y, hy', rfl⟩
  · exact resolveEach_names hprepared.rows hx name hn
  · exact resolveEach_names hprepared.rows hy _ hy'

theorem slices_names [Calendar] (h : slices rows mapping = .ok done) :
    done.NamesAre (Known rows mapping) := by
  unfold slices at h
  obtain ⟨prepared, hp, h⟩ := bind_eq_ok.mp h
  obtain ⟨categories, hc, h⟩ := bind_eq_ok.mp h
  have hprepared := withComputed_names hp
  have hcategories := resolveEach_names hprepared.rows hc
  have hsome : ∀ {value}, Known rows mapping value →
      (if categories.isEmpty then Chart.arrange mapping none .desc prepared
        else Chart.arrange mapping (some value) .desc (aggregateGroups prepared categories [value]
          (mapping.aggregation?.getD .sum) mapping.percentile?)) = .ok done →
      done.NamesAre (Known rows mapping) := by
    intro value hvalue h
    split at h
    · exact hprepared.arrange h
    · refine (aggregateGroups_names hcategories fun name hn => ?_).arrange h
      obtain rfl := List.mem_singleton.mp hn
      exact hvalue
  -- The value is resolved, or it is the formula's column.
  cases href : mapping.value?.or mapping.yAxis.head? with
  | some reference =>
    simp only [href] at h
    obtain ⟨value?, hv, h⟩ := bind_eq_ok.mp h
    cases value? with
    | none => exact hprepared.arrange h
    | some value =>
      have hresolved := (resolveOption_eq_ok hv).symm
      exact hsome (hprepared.rows.columns (mem_of_resolve hresolved)) h
  | none =>
    simp only [href] at h
    cases hcolumn : formulaColumn? mapping with
    | none =>
      rw [hcolumn] at h
      exact hprepared.arrange h
    | some column =>
      rw [hcolumn] at h
      exact hsome (formulaColumn?_known hcolumn) h

theorem compute_names [Calendar] {chartType : ChartType}
    (h : compute rows mapping chartType = .ok done) :
    done.NamesAre (Known rows mapping) := by
  cases chartType with
  | scorecard => exact scorecard_names h
  | bar => exact bars_names h
  | column => exact bars_names h
  | line => exact lines_names h
  | area => exact lines_names h
  | scatter => exact points_names h
  | pie => exact slices_names h
  | donut => exact slices_names h
  | unsupported name =>
    cases h
    exact ⟨known_of_mem_columns, fun groups hg => by cases hg⟩

end

/-- The columns of a chart's rows, and those it is grouped by, are columns of the dataset, the
column of the formula or of a derived metric. What the mapping writes where it means a column
is not among them unless it is the name of one. -/
theorem process_names [Calendar] {rows : Dataset} {chartType : ChartType} {mapping : ChartMapping}
    {data : ChartData} (h : process rows chartType mapping = .ok data) :
    (∀ row ∈ data.rows, ∀ name ∈ row.names, Known rows mapping name) ∧
      (∀ groups, data.metadata.groupedBy? = some groups →
        ∀ name ∈ groups, Known rows mapping name) ∧
      ∀ reference ∈ writtenReferences mapping,
        ((∃ row ∈ data.rows, reference ∈ row.names) ∨
          ∃ groups, data.metadata.groupedBy? = some groups ∧ reference ∈ groups) →
        Known rows mapping reference := by
  have hnames : (∀ row ∈ data.rows, ∀ name ∈ row.names, Known rows mapping name) ∧
      ∀ groups, data.metadata.groupedBy? = some groups →
        ∀ name ∈ groups, Known rows mapping name := by
    rw [process_eq] at h
    split at h
    -- A chart of no rows has no columns and no groups.
    · cases h
      exact ⟨fun row hrow => absurd hrow List.not_mem_nil, fun groups hg => by cases hg⟩
    · cases hdone : compute rows mapping chartType with
      | error e =>
        rw [hdone] at h
        cases h
      | ok done =>
        rw [hdone] at h
        cases h
        exact ⟨(compute_names hdone).rows, (compute_names hdone).groups⟩
  obtain ⟨hrows, hgroups⟩ := hnames
  refine ⟨hrows, hgroups, fun reference _ hr => ?_⟩
  rcases hr with ⟨row, hrow, hname⟩ | ⟨groups, hg, hname⟩
  · exact hrows row hrow reference hname
  · exact hgroups groups hg reference hname

/-- A category spelled its own way appears as the dataset spells it. -/
theorem process_names_respelled :
    let rows := [Row.ofList [("Sales_Region", .text "East"), ("Revenue", .number 3.0)]]
    let mapping : ChartMapping := { category := ["sales region"], yAxis := ["REVENUE"] }
    ∃ data, process rows .bar mapping = .ok data ∧
      data.metadata.groupedBy? = some ["Sales_Region"] ∧
      ∀ row ∈ data.rows, "sales region" ∉ row.names := by
  intro rows mapping
  have hchart : (process rows .bar mapping).toOption.bind (·.metadata.groupedBy?) =
      some ["Sales_Region"] := by decide +kernel
  cases hdata : process rows .bar mapping with
  | error e => simp [hdata, Except.toOption] at hchart
  | ok data =>
    refine ⟨data, rfl, by simpa [hdata, Except.toOption] using hchart, fun row hrow hname => ?_⟩
    have hwritten : "sales region" ∈ writtenReferences mapping := by decide
    rcases (process_names hdata).2.2 _ hwritten (.inl ⟨row, hrow, hname⟩) with h | ⟨h, -⟩ | h
    · exact absurd h (by decide +kernel)
    · exact h (by decide)
    · obtain ⟨config, hconfig, -⟩ := h
      exact absurd hconfig List.not_mem_nil

end Chart
end Tabular
