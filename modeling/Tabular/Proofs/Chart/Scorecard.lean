import Tabular.Breakdown
import Tabular.Proofs.Chart.Limit
import Tabular.Proofs.Formula.Reads

/-!
# Scorecards and their breakdowns

A scorecard and its breakdown go from the mapping to a figure on separate ways. Where the
formula has one value for the dataset, and where there is none and a column is folded, they
show one figure or fail alike (`scorecard_explained`). A formula that reads the rows has a
breakdown without a result, and no scorecard.
-/
namespace Tabular.Chart
open Formula (Compiled)

/-- A breakdown and a chart tell the same: both fail with one error, or the chart is one row of
one cell, and the cell is the result of the breakdown. -/
inductive Explains : Except Error Breakdown → Except Error ChartData → Prop
  | failed (e : Error) : Explains (.error e) (.error e)
  | shown {b : Breakdown} {data : ChartData} {row : Row} {column : String} :
      data.rows = [row] → row.entries = [(column, .ofValue b.result)] →
      Explains (.ok b) (.ok data)

/-- What a figure that both ways compute becomes on either of them. -/
theorem explains_of_map {α : Type} {x : Except Error α} {rows : Dataset}
    {described : α → Breakdown} {done : α → Progress} {column : α → String}
    (h : ∀ a, (done a).rows = [Row.empty.insert (column a) (.ofValue (described a).result)]) :
    Explains (x.map described) ((x.map done).map (Progress.chart rows .scorecard)) := by
  cases x with
  | error e => exact .failed e
  | ok a => exact .shown (h a) rfl

section
variable {rows : Dataset} {mapping : ChartMapping}

theorem process_scorecard [Calendar] (hrows : rows ≠ []) :
    process rows .scorecard mapping =
      (scorecard rows mapping).map (Progress.chart rows .scorecard) := by
  rw [process_eq, if_neg (by simpa using hrows)]
  rfl

/-! ## The figure of a column -/

theorem describe_figure (hf : mapping.activeFormula? = none) {reference : String}
    (href : mapping.figure? = some reference) :
    Breakdown.describe rows mapping = (resolveIn (columns rows) reference).map fun column => {
      expression := Text.upper (mapping.aggregation?.getD .sum).name ++ "(" ++ column ++ ")"
      columns := [column]
      samples := Breakdown.samplesOf rows [column]
      valueCount := Breakdown.countOf rows [column]
      result := Aggregate.ofRows rows column (mapping.aggregation?.getD .sum)
        mapping.percentile? } := by
  simp only [Breakdown.describe, hf, href]
  cases resolveIn (columns rows) reference <;> rfl

theorem scorecard_figure (hf : mapping.activeFormula? = none) {reference : String}
    (href : mapping.figure? = some reference) :
    scorecard rows mapping = (resolveIn (columns rows) reference).map fun column => {
      rows := [Row.empty.insert column (.ofValue (Aggregate.ofRows rows column
        (mapping.aggregation?.getD .sum) mapping.percentile?))]
      aggregation? := some (mapping.aggregation?.getD .sum) } := by
  simp only [scorecard, hf, href]
  cases resolveIn (columns rows) reference <;> rfl

/-! ## The figure of a formula -/

/-- A formula is evaluated over the dataset unless it is asked for row by row. -/
theorem datasetWise_of_ne (h : mapping.formulaMode? ≠ some .rowWise) :
    mapping.formulaMode?.getD .datasetWise = .datasetWise := by
  cases hmode : mapping.formulaMode? with
  | none => rfl
  | some mode =>
    cases mode with
    | rowWise => exact absurd hmode h
    | datasetWise => rfl

variable {formula : String} (hf : mapping.activeFormula? = some formula)
include hf

theorem describe_formula :
    Breakdown.describe rows mapping = (Compiled.compile formula rows).bind fun f =>
      (if f.isConstant then f.onDataset.mapError .eval else .ok none).map fun result => {
        expression := formula
        columns := Breakdown.formulaColumns f
        samples := Breakdown.samplesOf rows (Breakdown.formulaColumns f)
        valueCount := Breakdown.countOf rows (Breakdown.formulaColumns f)
        result
        aggregates := f.aggregates } := by
  simp only [Breakdown.describe, hf]
  cases Compiled.compile formula rows with
  | error e => rfl
  | ok f =>
    simp only [bind, Except.bind]
    split
    · cases f.onDataset <;> rfl
    · rfl

theorem scorecard_formula (hmode : mapping.formulaMode? ≠ some .rowWise) :
    scorecard rows mapping = (Compiled.compile formula rows).bind fun f =>
      (f.onDataset.mapError .eval).map fun value => {
        rows := [Row.empty.insert mapping.output (.ofValue value)]
        formula? := some formula } := by
  simp only [scorecard, hf, datasetWise_of_ne hmode, Formula.evaluate]
  cases Compiled.compile formula rows with
  | error e => rfl
  | ok f =>
    simp only [bind, Except.bind]
    cases f.onDataset <;> rfl

end

/-- A scorecard of a dataset is explained by its breakdown where there is no formula and where
the formula needs no row. Where it needs one, its breakdown has no result and the scorecard
fails when the formula is evaluated. Where it is not compiled, both fail for that reason. -/
theorem scorecard_explained [Calendar] {rows : Dataset} {mapping : ChartMapping}
    (hrows : rows ≠ [])
    (hmode : mapping.activeFormula? ≠ none → mapping.formulaMode? ≠ some .rowWise)
    (hfigure : mapping.activeFormula? = none → mapping.figure? ≠ none) :
    match mapping.activeFormula? with
    | none => Explains (Breakdown.describe rows mapping) (process rows .scorecard mapping)
    | some formula =>
      match Compiled.compile formula rows with
      | .error e =>
        Breakdown.describe rows mapping = .error e ∧ process rows .scorecard mapping = .error e
      | .ok f =>
        if f.isConstant then
          Explains (Breakdown.describe rows mapping) (process rows .scorecard mapping)
        else
          (∃ b, Breakdown.describe rows mapping = .ok b ∧ b.result = none) ∧
            ∃ e, process rows .scorecard mapping = .error (.eval e) := by
  rw [process_scorecard hrows]
  cases hf : mapping.activeFormula? with
  | none =>
    obtain ⟨reference, href⟩ := Option.ne_none_iff_exists'.mp (hfigure hf)
    rw [describe_figure hf href, scorecard_figure hf href]
    exact explains_of_map fun column => rfl
  | some formula =>
    have hm := hmode (by simp [hf])
    rw [describe_formula hf, scorecard_formula hf hm]
    cases hc : Compiled.compile formula rows with
    | error e => simp only [hc]; exact ⟨rfl, rfl⟩
    | ok f =>
      simp only [hc, Except.bind]
      by_cases hconst : f.isConstant = true
      · simp only [hconst, if_true]
        exact explains_of_map fun value => rfl
      · obtain ⟨e, he⟩ := Formula.onDataset_fails hc (Bool.eq_false_iff.mpr hconst)
        simp only [if_neg hconst, he]
        exact ⟨⟨_, rfl, rfl⟩, e, rfl⟩

/-- A quotient of sums is explained as its value, and where it divides by zero as the failure. -/
theorem scorecard_explained_quotient :
    let mapping : ChartMapping := { formula? := some "SUM(Revenue) / SUM(Cost)" }
    let sold := [Row.ofList [("Revenue", .number 6.0), ("Cost", .text "$4")]]
    let given := [Row.ofList [("Revenue", .number 3.0), ("Cost", .text "0")]]
    (Explains (Breakdown.describe sold mapping) (process sold .scorecard mapping) ∧
        (Breakdown.describe sold mapping).toOption.map (·.result) = some (some 1.5)) ∧
      Explains (Breakdown.describe given mapping) (process given .scorecard mapping) ∧
        (Breakdown.describe given mapping).toOption.isNone := by
  intro mapping sold given
  have hactive : mapping.activeFormula? = some "SUM(Revenue) / SUM(Cost)" := by decide
  have hexplained : ∀ rows, rows ≠ [] →
      (Compiled.compile "SUM(Revenue) / SUM(Cost)" rows).toOption.map (·.isConstant) = some true →
      Explains (Breakdown.describe rows mapping) (process rows .scorecard mapping) := by
    intro rows hrows hconstant
    have h := @scorecard_explained _ rows mapping hrows (fun _ => by decide)
      (fun hnone => absurd (hactive.symm.trans hnone) (by simp))
    rw [hactive] at h
    cases hc : Compiled.compile "SUM(Revenue) / SUM(Cost)" rows with
    | error e => simp [hc, Except.toOption] at hconstant
    | ok f =>
      have hf : f.isConstant = true := by simpa [hc, Except.toOption] using hconstant
      simpa only [hc, hf, if_true] using h
  exact ⟨⟨hexplained sold (List.cons_ne_nil _ _) (by decide +kernel), by decide +kernel⟩,
    hexplained given (List.cons_ne_nil _ _) (by decide +kernel), by decide +kernel⟩

end Tabular.Chart
