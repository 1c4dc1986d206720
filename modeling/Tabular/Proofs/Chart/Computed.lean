import Tabular.Proofs.Chart.Groups
import Tabular.Proofs.Chart.Scorecard
import Tabular.Proofs.Formula.Finite
import Tabular.Proofs.Grouping.Pivot
import Tabular.Proofs.Metric.Written

/-!
# Computed cells are finite

Formulas, groups, pivots, scorecards and derived metrics write values that are null or finite
(`computed_finite`). What else the rows hold may be anything, and so may the fill value of a
pivot.
-/
namespace Tabular

/-- A cell is null or a finite number. -/
def Cell.IsFinite : Cell → Prop
  | .null => True
  | .number x => x.isFinite
  | _ => False

theorem Cell.isFinite_ofValue {value : Option Float} (h : FiniteOrNull value) :
    (Cell.ofValue value).IsFinite := by
  cases value with
  | none => trivial
  | some x => exact h x rfl

/-- A row has a column, and the cell under it is null or a finite number. -/
def Row.FiniteAt (row : Row) (column : String) : Prop :=
  ∃ cell, row.get? column = some cell ∧ cell.IsFinite

section
variable {row : Row} {column : String} {value : Option Float}

theorem Row.finiteAt_insert_self (hv : FiniteOrNull value) :
    (row.insert column (.ofValue value)).FiniteAt column :=
  ⟨_, row.get?_insert_self column _, Cell.isFinite_ofValue hv⟩

/-- A finite column stays finite when another value is written, there or elsewhere. -/
theorem Row.FiniteAt.insert (h : row.FiniteAt column) (hv : FiniteOrNull value) (name : String) :
    (row.insert name (.ofValue value)).FiniteAt column := by
  by_cases hname : column = name
  · subst hname
    exact finiteAt_insert_self hv
  · obtain ⟨cell, hcell, hfinite⟩ := h
    exact ⟨cell, (row.get?_insert_of_ne _ hname).trans hcell, hfinite⟩

/-- Values written one after the other leave their columns finite. -/
theorem Row.finiteAt_foldl_insert {α : Type} {items : List α} {name : α → String}
    {value : α → Option Float} (hv : ∀ item, FiniteOrNull (value item))
    (h : column ∈ items.map name ∨ row.FiniteAt column) :
    (items.foldl (fun row item => row.insert (name item) (.ofValue (value item))) row).FiniteAt
      column := by
  induction items generalizing row with
  | nil => exact h.resolve_left List.not_mem_nil
  | cons item rest ih =>
    refine ih ?_
    rcases h with h | h
    · rcases List.mem_cons.mp h with rfl | h
      · exact .inr (finiteAt_insert_self (hv item))
      · exact .inl h
    · exact .inr (h.insert (hv item) _)

end

/-! ## Formulas -/

theorem Formula.evaluate_finite {rows out : Dataset} {formula output : String}
    {mode : Formula.Mode} (h : Formula.evaluate rows formula output mode = .ok out) :
    ∀ row ∈ out, row.FiniteAt output := by
  unfold Formula.evaluate at h
  obtain ⟨f, hf, h⟩ := bind_eq_ok.mp h
  cases mode with
  | datasetWise =>
    obtain ⟨v, hv, h⟩ := bind_eq_ok.mp h
    cases h
    intro row hrow
    obtain rfl := List.mem_singleton.mp hrow
    exact Row.finiteAt_insert_self ((Formula.compiled_finite hf).2 (mapError_eq_ok.mp hv))
  | rowWise =>
    refine forall_mem_of_mapM (fun row written hw => ?_) h
    obtain ⟨v, hv, hw⟩ := bind_eq_ok.mp hw
    cases hw
    exact Row.finiteAt_insert_self ((Formula.compiled_finite hf).1 row (mapError_eq_ok.mp hv))

/-! ## Groups -/

theorem groupBy_finite {rows : Dataset} {config : GroupConfig} {row : Row}
    (h : row ∈ groupBy rows config) {a : AggregateConfig} (ha : a ∈ config.aggregates) :
    row.FiniteAt a.outputColumn := by
  obtain ⟨g, -, rfl⟩ := List.mem_map.mp h
  exact Row.finiteAt_foldl_insert (fun a => Aggregate.ofRows_finite _ _ _ _)
    (.inl (List.mem_map_of_mem ha))

theorem pivot_finite {rows : Dataset} {config : PivotConfig} {row : Row}
    (h : row ∈ pivot rows config) {label column : String}
    (hcolumn : (label, column) ∈ labelColumns config.indexColumns
      (labelsUnder rows config.pivotColumns))
    (hfill : config.crossing rows (row.groupKey config.indexColumns) label ≠ []) :
    row.FiniteAt column := by
  obtain ⟨g, hg, rfl⟩ := List.mem_map.mp h
  have htabulates := PivotConfig.tabulates_row hg
  obtain ⟨hl, he⟩ := eq_labelColumn (nodup_labelsUnder rows config.pivotColumns) hcolumn
  change column = labelColumn _ _ label at he
  subst he
  refine ⟨_, htabulates.cell label hl, ?_⟩
  rw [PivotConfig.crossValue, if_neg (by simpa using hfill)]
  exact Cell.isFinite_ofValue (Aggregate.ofRows_finite _ _ _ _)

/-! ## Scorecards -/

theorem Chart.scorecard_finite [Calendar] {rows : Dataset} {mapping : ChartMapping}
    {data : ChartData}
    (hf : mapping.activeFormula? = none) (hfigure : mapping.figure? ≠ none)
    (h : Chart.process rows .scorecard mapping = .ok data) :
    ∀ row ∈ data.rows, ∀ entry ∈ row.entries, entry.2.IsFinite := by
  by_cases hrows : rows = []
  -- A chart of no rows has none.
  · subst hrows
    cases h
    exact fun row hrow => absurd hrow List.not_mem_nil
  obtain ⟨reference, href⟩ := Option.ne_none_iff_exists'.mp hfigure
  rw [process_scorecard hrows, scorecard_figure hf href] at h
  cases hc : resolveIn (columns rows) reference with
  | error e =>
    rw [hc] at h
    cases h
  | ok column =>
    rw [hc] at h
    cases h
    intro row hrow entry hentry
    obtain rfl := List.mem_singleton.mp hrow
    obtain rfl := List.mem_singleton.mp hentry
    exact Cell.isFinite_ofValue (Aggregate.ofRows_finite _ _ _ _)

/-! ## Derived metrics -/

theorem Metric.finite?_finite (value : Option Float) : FiniteOrNull (Metric.finite? value) :=
  fun _ hx => (Option.mem_filter_iff.mp hx).2

/-- A metric leaves the columns finite that are, and its own. -/
theorem Metric.apply_finite {rows out : Dataset} {config : MetricConfig}
    (h : Metric.apply rows config = .ok out) {column : String}
    (hcolumn : column = config.output ∨ ∀ row ∈ rows, row.FiniteAt column) :
    ∀ row ∈ out, row.FiniteAt column := by
  intro written hw
  obtain ⟨row, hrow, value, rfl⟩ := mem_apply h hw
  rcases hcolumn with rfl | hrows
  · exact Row.finiteAt_insert_self (finite?_finite value)
  · exact (hrows row hrow).insert (finite?_finite value) _

theorem Metric.applyAll_finite {rows out : Dataset} {configs : List MetricConfig}
    (h : Metric.applyAll rows configs = .ok out) {column : String}
    (hcolumn : column ∈ configs.map MetricConfig.output ∨ ∀ row ∈ rows, row.FiniteAt column) :
    ∀ row ∈ out, row.FiniteAt column := by
  induction configs generalizing rows with
  | nil =>
    cases h
    exact hcolumn.resolve_left List.not_mem_nil
  | cons config rest ih =>
    rw [applyAll_cons, bind_eq_ok] at h
    obtain ⟨next, ha, h⟩ := h
    refine ih h ?_
    rcases hcolumn with hc | hc
    · rcases List.mem_cons.mp hc with hc | hc
      · exact .inr (Metric.apply_finite ha (.inl hc))
      · exact .inl hc
    · exact .inr (Metric.apply_finite ha (.inr hc))

/-- Nothing that is computed is NaN or infinite, whatever the cells of the rows hold. -/
theorem computed_finite [Calendar] :
    (∀ rows formula output mode out, Formula.evaluate rows formula output mode = .ok out →
      ∀ row ∈ out, row.FiniteAt output) ∧
    (∀ rows (config : GroupConfig), ∀ row ∈ groupBy rows config, ∀ a ∈ config.aggregates,
      row.FiniteAt a.outputColumn) ∧
    (∀ rows (config : PivotConfig), ∀ row ∈ pivot rows config, ∀ label column,
      (label, column) ∈ labelColumns config.indexColumns (labelsUnder rows config.pivotColumns) →
      config.crossing rows (row.groupKey config.indexColumns) label ≠ [] → row.FiniteAt column) ∧
    (∀ rows mapping data, mapping.activeFormula? = none → mapping.figure? ≠ none →
      Chart.process rows .scorecard mapping = .ok data →
      ∀ row ∈ data.rows, ∀ entry ∈ row.entries, entry.2.IsFinite) ∧
    (∀ rows configs out, Metric.applyAll rows configs = .ok out → ∀ config ∈ configs,
      ∀ row ∈ out, row.FiniteAt config.output) := by
  refine ⟨?_, ?_, ?_, ?_, ?_⟩
  · exact fun rows formula output mode out h => Formula.evaluate_finite h
  · exact fun rows config row hrow a ha => groupBy_finite hrow ha
  · exact fun rows config row hrow label column hc hfill => pivot_finite hrow hc hfill
  · exact fun rows mapping data hf hfigure h => Chart.scorecard_finite hf hfigure h
  · exact fun rows configs out h config hc =>
      Metric.applyAll_finite h (.inl (List.mem_map_of_mem hc))

/-- Revenues whose sum is too large for a double: what is computed from them is null. -/
theorem computed_finite_past_largest :
    let rows := [Row.ofList [("Region", .text "East"), ("Revenue", .number 1e308)],
      Row.ofList [("Region", .text "East"), ("Revenue", .text "(5%)")],
      Row.ofList [("Region", .text "East"), ("Revenue", .number 1e308)]]
    let grouping : GroupConfig :=
      { groupColumns := ["Region"], aggregates := [{ column := "Revenue", kind := .sum }] }
    let crosstab : PivotConfig :=
      { indexColumns := [], pivotColumns := ["Region"], valueColumn := "Revenue" }
    let running : MetricConfig :=
      { kind := .runningTotal, output := "Total", column? := some "Revenue" }
    (∃ out, Formula.evaluate rows "-SUM(Revenue)" "Net" .rowWise = .ok out ∧
      ∀ row ∈ out, row.FiniteAt "Net") ∧
    (∃ row ∈ groupBy rows grouping, row.FiniteAt "sum_Revenue") ∧
    (∃ row ∈ pivot rows crosstab, row.FiniteAt "East") ∧
    (∃ data, Chart.process rows .scorecard { metric? := some "Revenue" } = .ok data ∧
      ∀ row ∈ data.rows, ∀ entry ∈ row.entries, entry.2.IsFinite) ∧
    ∃ out, Metric.applyAll rows [running] = .ok out ∧ ∀ row ∈ out, row.FiniteAt "Total" := by
  intro rows grouping crosstab running
  obtain ⟨hformula, hgroups, hpivot, hscorecard, hmetrics⟩ := computed_finite
  have hok : ∀ {α : Type} {x : Except Error α}, x.toOption.isSome → ∃ a, x = .ok a := by
    intro α x hx
    cases x with
    | error e => cases hx
    | ok a => exact ⟨a, rfl⟩
  refine ⟨?_, ?_, ?_, ?_, ?_⟩
  · obtain ⟨out, hout⟩ := @hok _ (Formula.evaluate rows "-SUM(Revenue)" "Net" .rowWise)
      (by decide +kernel)
    exact ⟨out, hout, hformula _ _ _ _ out hout⟩
  · have hne : (groupBy rows grouping).isEmpty = false := by decide +kernel
    obtain ⟨row, hrow⟩ := List.exists_mem_of_ne_nil _ (List.isEmpty_eq_false_iff.mp hne)
    exact ⟨row, hrow, hgroups rows grouping row hrow _ List.mem_cons_self⟩
  · have hne : (pivot rows crosstab).isEmpty = false := by decide +kernel
    have hfill : (pivot rows crosstab).all fun row =>
        !(crosstab.crossing rows (row.groupKey []) "East").isEmpty := by decide +kernel
    obtain ⟨row, hrow⟩ := List.exists_mem_of_ne_nil _ (List.isEmpty_eq_false_iff.mp hne)
    refine ⟨row, hrow, hpivot rows crosstab row hrow "East" "East" (by decide +kernel) ?_⟩
    simpa using List.all_eq_true.mp hfill row hrow
  · obtain ⟨data, hdata⟩ := @hok _ (Chart.process rows .scorecard { metric? := some "Revenue" })
      (by decide +kernel)
    exact ⟨data, hdata, hscorecard rows _ data (by decide) (by decide) hdata⟩
  · obtain ⟨out, hout⟩ := @hok _ (Metric.applyAll rows [running]) (by decide +kernel)
    exact ⟨out, hout, hmetrics rows _ out hout running List.mem_cons_self⟩

end Tabular
