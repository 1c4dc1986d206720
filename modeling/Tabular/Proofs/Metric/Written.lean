import Tabular.Formula
import Tabular.Metric
import Tabular.Proofs.Except

/-!
# Columns that are written

A formula and a metric write one column into every row and leave the other columns as they were.
The values come from the rows before the column is written, also where it takes the place of a
column they read. Metrics that follow each other each start from the rows the one before has
left, and where one fails there are no rows (`columns_written`).
-/
namespace Tabular

/-- The dataset `after` is `before` with a column written: row by row in the same order, each row
has its value there and all other cells as they were. -/
structure Writes (before : Dataset) (column : String) (values : List (Option Float))
    (after : Dataset) : Prop where
  rowCount : after.length = before.length
  valueCount : values.length = before.length
  rows : ∀ (i : Nat) (new : Row), after[i]? = some new → ∃ old value, before[i]? = some old ∧
    values[i]? = some value ∧ new.get? column = some (.ofValue value) ∧
    ∀ c, c ≠ column → new.get? c = old.get? c

/-- The dataset `after` is `before` with some columns written: row by row in the same order, each
row has all of these and the cells of the others as they were. -/
structure Extends (before : Dataset) (written : List String) (after : Dataset) : Prop where
  rowCount : after.length = before.length
  rows : ∀ (i : Nat) (new : Row), after[i]? = some new → ∃ old, before[i]? = some old ∧
    (∀ c, c ∉ written → new.get? c = old.get? c) ∧
    ∀ c ∈ written, ∃ cell, new.get? c = some cell

theorem writes_zipWith {rows : Dataset} {values : List (Option Float)}
    (h : values.length = rows.length) (column : String) :
    Writes rows column values
      (rows.zipWith (fun row value => row.insert column (.ofValue value)) values) where
  rowCount := by rw [List.length_zipWith, h, Nat.min_self]
  valueCount := h
  rows i new hnew := by
    obtain ⟨old, value, hold, hvalue, rfl⟩ := List.getElem?_zipWith_eq_some.mp hnew
    exact ⟨old, value, hold, hvalue, old.get?_insert_self column _,
      fun c hc => old.get?_insert_of_ne _ hc⟩

section
variable {before between after : Dataset} {written later : List String}

theorem Extends.refl (rows : Dataset) : Extends rows [] rows where
  rowCount := rfl
  rows _ row h := ⟨row, h, fun _ _ => rfl, fun _ hc => absurd hc List.not_mem_nil⟩

/-- A column that is written twice stays written. -/
theorem Extends.trans (h : Extends before written between) (h' : Extends between later after) :
    Extends before (written ++ later) after where
  rowCount := h'.rowCount.trans h.rowCount
  rows i new hnew := by
    obtain ⟨mid, hmid, hkept', hlater⟩ := h'.rows i new hnew
    obtain ⟨old, hold, hkept, hwritten⟩ := h.rows i mid hmid
    refine ⟨old, hold, ?_, ?_⟩
    · intro c hc
      rw [List.mem_append, not_or] at hc
      exact (hkept' c hc.2).trans (hkept c hc.1)
    · intro c hc
      by_cases hl : c ∈ later
      · exact hlater c hl
      · rw [hkept' c hl]
        exact hwritten c ((List.mem_append.mp hc).resolve_right hl)

theorem Writes.extends {column : String} {values : List (Option Float)}
    (h : Writes before column values after) : Extends before [column] after where
  rowCount := h.rowCount
  rows i new hnew := by
    obtain ⟨old, value, hold, -, hwritten, hkept⟩ := h.rows i new hnew
    refine ⟨old, hold, fun c hc => hkept c (by simpa using hc), fun c hc => ?_⟩
    rw [List.mem_singleton.mp hc]
    exact ⟨_, hwritten⟩

end

/-! ## Formulas -/

theorem Formula.evaluate_rowWise_eq_ok {rows out : Dataset} {formula output : String} :
    evaluate rows formula output .rowWise = .ok out ↔ ∃ f values,
      Compiled.compile formula rows = .ok f ∧ rows.map f.onRow = values.map .ok ∧
      rows.zipWith (fun row value => row.insert output (.ofValue value)) values = out := by
  unfold evaluate
  rw [bind_eq_ok]
  refine exists_congr fun f => ?_
  have hrow : ∀ row new, (do
      let value ← (f.onRow row).mapError Error.eval
      return row.insert output (.ofValue value)) = .ok new ↔
      ∃ value, f.onRow row = .ok value ∧ row.insert output (.ofValue value) = new := by
    intro row new
    rw [bind_eq_ok]
    simp only [mapError_eq_ok]
    exact exists_congr fun value => and_congr_right fun _ => ⟨Except.ok.inj, congrArg Except.ok⟩
  rw [exists_and_left]
  exact and_congr_right fun _ => mapM_eq_ok_zipWith hrow

/-- A formula has values on the rows if it compiles and fails on none of them. -/
theorem Formula.evaluate_rowWise_isOk {rows : Dataset} {formula output : String} :
    (∃ out, evaluate rows formula output .rowWise = .ok out) ↔
      ∃ f, Compiled.compile formula rows = .ok f ∧
        ∀ row ∈ rows, ∃ value, f.onRow row = .ok value := by
  simp only [evaluate_rowWise_eq_ok, ← exists_map_eq_ok]
  constructor
  · rintro ⟨out, f, values, hf, hvalues, -⟩
    exact ⟨f, hf, values, hvalues⟩
  · rintro ⟨f, hf, values, hvalues⟩
    exact ⟨_, f, values, hf, hvalues, rfl⟩

theorem Formula.evaluate_writes {rows out : Dataset} {formula output : String}
    (h : evaluate rows formula output .rowWise = .ok out) : ∃ f values,
      Compiled.compile formula rows = .ok f ∧ rows.map f.onRow = values.map .ok ∧
      Writes rows output values out := by
  obtain ⟨f, values, hf, hvalues, rfl⟩ := evaluate_rowWise_eq_ok.mp h
  have hlength : values.length = rows.length := by
    simpa using (congrArg List.length hvalues).symm
  exact ⟨f, values, hf, hvalues, writes_zipWith hlength output⟩

/-! ## Metrics -/

namespace Metric

theorem length_runningTotals {α : Type} [Add α] (zero : α) (values : List (Option α)) :
    (runningTotals zero values).length = values.length := by
  suffices h : ∀ total, (runningTotals.go zero total values).length = values.length from h zero
  induction values with
  | nil => exact fun _ => rfl
  | cons v rest ih => exact fun total => congrArg (· + 1) (ih _)

theorem length_movingAverages {α : Type} [Add α] [Sub α] (zero : α) (divide : α → Nat → α)
    (values : List (Option α)) (window : Nat) :
    (movingAverages zero divide values window).length = values.length := by
  suffices h : ∀ (pairs : List (Option α × Option α)) (sum : α) (count : Nat),
      (movingAverages.go divide sum count pairs).length = pairs.length by
    rw [movingAverages, h]
    simp [lagged]
  intro pairs
  induction pairs with
  | nil => exact fun _ _ => rfl
  | cons pair rest ih => exact fun sum count => congrArg (· + 1) (ih _ _)

theorem length_changes (values : List (Option Float)) (places : Nat) :
    (changes values places).length = values.length := by
  simp [changes, lagged]

theorem length_ofSequence (kind : MetricKind) (values : List (Option Float))
    (window periods : Nat) : (ofSequence kind values window periods).length = values.length := by
  unfold ofSequence
  split
  · rw [List.length_map, length_runningTotals]
  · exact length_movingAverages ..
  · exact length_changes ..
  · exact length_changes ..
  · exact length_changes ..

theorem length_values (kind : MetricKind) (rows : Dataset) (inputs : Inputs) :
    (values kind rows inputs).length = rows.length := by
  cases inputs with
  | pair numerator denominator => exact List.length_map ..
  | sequence column window periods =>
    exact (length_ofSequence ..).trans (List.length_map ..)

variable {rows out : Dataset} {config : MetricConfig}

/-- What a metric does to rows, of which there are some: it plans its inputs and writes its
values. -/
theorem apply_eq_ok (hrows : rows ≠ []) : apply rows config = .ok out ↔
    ∃ planned, inputs config (columns rows) = .ok planned ∧
      rows.zipWith (fun row value => row.insert config.output (.ofValue value))
        ((values config.kind rows planned).map finite?) = out := by
  rw [apply, if_neg (by simpa using hrows), map_eq_ok]
  simp only [List.zipWith_map_right]

theorem apply_writes (hrows : rows ≠ []) (h : apply rows config = .ok out) :
    ∃ planned, inputs config (columns rows) = .ok planned ∧
      Writes rows config.output ((values config.kind rows planned).map finite?) out := by
  obtain ⟨planned, hplanned, rfl⟩ := (apply_eq_ok hrows).mp h
  refine ⟨planned, hplanned, writes_zipWith ?_ config.output⟩
  rw [List.length_map, length_values]

/-- What a metric makes of a row. -/
theorem mem_apply (h : apply rows config = .ok out) {written : Row} (hw : written ∈ out) :
    ∃ row ∈ rows, ∃ value,
      row.insert config.output (.ofValue (finite? value)) = written := by
  by_cases hrows : rows = []
  · subst hrows
    cases h
    exact absurd hw List.not_mem_nil
  · obtain ⟨planned, -, rfl⟩ := (apply_eq_ok hrows).mp h
    obtain ⟨i, hi, rfl⟩ := List.mem_iff_getElem.mp hw
    rw [List.getElem_zipWith, List.getElem_map]
    exact ⟨_, List.getElem_mem _, _, rfl⟩

theorem apply_extends (h : apply rows config = .ok out) : Extends rows [config.output] out := by
  by_cases hrows : rows = []
  · subst hrows
    cases h
    exact ⟨rfl, fun i new hnew => by cases hnew⟩
  · obtain ⟨planned, -, hwrites⟩ := apply_writes hrows h
    exact hwrites.extends

theorem applyAll_append (rows : Dataset) (first later : List MetricConfig) :
    applyAll rows (first ++ later) = applyAll rows first >>= fun between =>
      applyAll between later := by
  induction first generalizing rows with
  | nil => rfl
  | cons config rest ih =>
    rw [List.cons_append, applyAll, applyAll]
    cases apply rows config with
    | error e => rfl
    | ok next => exact ih next

theorem applyAll_cons (rows : Dataset) (config : MetricConfig) (rest : List MetricConfig) :
    applyAll rows (config :: rest) = apply rows config >>= fun next => applyAll next rest := by
  rw [applyAll]
  cases apply rows config <;> rfl

theorem applyAll_extends {configs : List MetricConfig} (h : applyAll rows configs = .ok out) :
    Extends rows (configs.map MetricConfig.output) out := by
  induction configs generalizing rows with
  | nil =>
    cases h
    exact .refl _
  | cons config rest ih =>
    rw [applyAll_cons, bind_eq_ok] at h
    obtain ⟨next, hnext, h⟩ := h
    exact (apply_extends hnext).trans (ih h)

end Metric

/-- Rows with columns written. A formula on rows succeeds exactly if it compiles and fails on none
of them; its values are those on the rows as they were, and all other cells are kept. So does a
metric on rows, of which there are some, exactly if its inputs can be planned; its values are
computed from the rows as they were. Of several metrics each is applied to what those before it
have left, all columns that none of them writes are kept, and no column they write is missing. -/
theorem columns_written (rows : Dataset) :
    (∀ formula output,
      ((∃ out, Formula.evaluate rows formula output .rowWise = .ok out) ↔
        ∃ f, Formula.Compiled.compile formula rows = .ok f ∧
          ∀ row ∈ rows, ∃ value, f.onRow row = .ok value) ∧
      ∀ out, Formula.evaluate rows formula output .rowWise = .ok out → ∃ f values,
        Formula.Compiled.compile formula rows = .ok f ∧ rows.map f.onRow = values.map .ok ∧
        Writes rows output values out) ∧
    (∀ config, rows ≠ [] →
      ((∃ out, Metric.apply rows config = .ok out) ↔
        ∃ planned, Metric.inputs config (columns rows) = .ok planned) ∧
      ∀ out, Metric.apply rows config = .ok out → ∃ planned,
        Metric.inputs config (columns rows) = .ok planned ∧ Writes rows config.output
          ((Metric.values config.kind rows planned).map Metric.finite?) out) ∧
    (∀ first config later, Metric.applyAll rows (first ++ config :: later) =
      Metric.applyAll rows first >>= fun before => Metric.apply before config >>= fun after =>
        Metric.applyAll after later) ∧
    ∀ configs out, Metric.applyAll rows configs = .ok out →
      Extends rows (configs.map MetricConfig.output) out := by
  refine ⟨?_, ?_, ?_, ?_⟩
  · exact fun formula output =>
      ⟨Formula.evaluate_rowWise_isOk, fun out h => Formula.evaluate_writes h⟩
  · intro config hrows
    refine ⟨?_, fun out h => Metric.apply_writes hrows h⟩
    simp only [Metric.apply_eq_ok hrows]
    constructor
    · rintro ⟨out, planned, hplanned, -⟩
      exact ⟨planned, hplanned⟩
    · rintro ⟨planned, hplanned⟩
      exact ⟨_, planned, hplanned, rfl⟩
  · intro first config later
    rw [Metric.applyAll_append]
    simp only [Metric.applyAll_cons]
  · exact fun configs out h => Metric.applyAll_extends h

/-- Columns written over what they are computed from. The second metric reads the running totals
where the first has written them. -/
theorem columns_written_over_input :
    let rows := [Row.ofList [("Region", .text "East"), ("Revenue", .number 10.0)],
      Row.ofList [("Region", .null)],
      Row.ofList [("Revenue", .text "$5"), ("Cost", .number 2.0)]]
    let running : MetricConfig :=
      { kind := .runningTotal, output := "Revenue", column? := some "revenue" }
    let growth : MetricConfig :=
      { kind := .growthRate, output := "Revenue", column? := some "Revenue" }
    (∃ out f values, Formula.evaluate rows "Revenue * 2" "Revenue" .rowWise = .ok out ∧
      Formula.Compiled.compile "Revenue * 2" rows = .ok f ∧
      rows.map f.onRow = values.map .ok ∧ Writes rows "Revenue" values out) ∧
    (∃ out, Metric.apply rows running = .ok out ∧
      Writes rows "Revenue" ((Metric.values .runningTotal rows
        (.sequence "Revenue" Metric.defaultWindow 1)).map Metric.finite?) out) ∧
    ∃ out, Metric.applyAll rows [running, growth] = .ok out ∧
      Extends rows ["Revenue", "Revenue"] out := by
  intro rows running growth
  obtain ⟨hformula, hmetric, -, hmetrics⟩ := columns_written rows
  refine ⟨?_, ?_, ?_⟩
  · obtain ⟨out, hout⟩ : ∃ out, Formula.evaluate rows "Revenue * 2" "Revenue" .rowWise = .ok out :=
      exists_eq_ok (by decide +kernel)
    obtain ⟨f, values, hf, hvalues, hwrites⟩ := (hformula _ _).2 out hout
    exact ⟨out, f, values, hout, hf, hvalues, hwrites⟩
  · have hrows : rows ≠ [] := List.cons_ne_nil _ _
    have hinputs : Metric.inputs running (columns rows) =
        .ok (.sequence "Revenue" Metric.defaultWindow 1) :=
      toOption_eq_some.mp (by decide +kernel)
    obtain ⟨out, hout⟩ := (hmetric running hrows).1.mpr ⟨_, hinputs⟩
    obtain ⟨planned, hplanned, hwrites⟩ := (hmetric running hrows).2 out hout
    cases hinputs.symm.trans hplanned
    exact ⟨out, hout, hwrites⟩
  · obtain ⟨out, hout⟩ : ∃ out, Metric.applyAll rows [running, growth] = .ok out :=
      exists_eq_ok (by decide +kernel)
    exact ⟨out, hout, hmetrics _ out hout⟩

end Tabular
