import Tabular.Proofs.Grouping.GroupBy
import Tabular.Proofs.Grouping.Pivot

/-!
# A pivot reshapes a grouping

Grouping by the index columns of a pivot and then by its pivot columns makes one row for each
cell of the pivot that rows fall into. Where labels tell the pivot keys apart, such a cell holds
what the grouped row holds, and the other cells hold the fill value (`pivot_reshapes_groupBy`).
-/
namespace Tabular

/-! ## Keys of several columns -/

section
variable {first second columns : List String} {a b : Row}

theorem groupKey_append_eq_iff : a.groupKey (first ++ second) = b.groupKey (first ++ second) ↔
    a.groupKey first = b.groupKey first ∧ a.groupKey second = b.groupKey second := by
  simp only [Row.groupKey, List.map_append]
  refine ⟨fun h => List.append_inj h (by simp), fun h => ?_⟩
  rw [h.1, h.2]

/-- A label shows no more of a row than its key does. -/
theorem labelUnder_congr (h : a.groupKey columns = b.groupKey columns) :
    a.labelUnder columns = b.labelUnder columns := by
  have hlabel : ∀ row : Row, row.labelUnder columns =
      "_".intercalate ((row.groupKey columns).map (·.getD "")) := by
    intro row
    rw [Row.groupKey, List.map_map]
    rfl
  rw [hlabel a, hlabel b, h]

end

/-- Rows of different keys under some columns have different labels there. -/
def LabelsTellApart (rows : Dataset) (columns : List String) : Prop :=
  ∀ a ∈ rows, ∀ b ∈ rows, a.labelUnder columns = b.labelUnder columns →
    a.groupKey columns = b.groupKey columns

instance (rows : Dataset) (columns : List String) : Decidable (LabelsTellApart rows columns) :=
  inferInstanceAs (Decidable (∀ a ∈ rows, ∀ b ∈ rows, _ → _))

/-! ## The grouping in a pivot -/

/-- A grouping by the index columns of a pivot and then by its pivot columns, with one aggregate,
which is the pivot's and is written under no group column. As a pivot has no argument for
percentiles, the grouping gives none to them either. -/
structure PivotConfig.ReshapedFrom (config : PivotConfig) (grouping : GroupConfig)
    (a : AggregateConfig) : Prop where
  groupColumns : grouping.groupColumns = config.indexColumns ++ config.pivotColumns
  aggregates : grouping.aggregates = [a]
  column : a.column = config.valueColumn
  kind : a.kind = config.kind
  percentile : a.kind = .percentile → a.percentile? = none
  free : a.outputColumn ∉ config.indexColumns ++ config.pivotColumns

/-- The column of a pivot that a row belongs to. -/
def PivotConfig.columnOf (config : PivotConfig) (rows : Dataset) (row : Row) : String :=
  labelColumn config.indexColumns (labelsUnder rows config.pivotColumns)
    (row.labelUnder config.pivotColumns)

/-- Only percentiles depend on their argument. -/
theorem Aggregate.ofValues_percentile {kind : AggregateKind} {p? : Option Float}
    (h : kind = .percentile → p? = none) (values : List Float) :
    ofValues values kind p? = ofValues values kind none := by
  cases kind with
  | percentile => rw [h rfl]
  | _ => cases values <;> rfl

/-- One row of a list has a key that is listed there once. -/
theorem filter_key_eq_singleton {α κ : Type} [BEq κ] [LawfulBEq κ] {key : α → κ} {l : List α}
    {a : α} (h : (l.map key).Nodup) (ha : a ∈ l) :
    l.filter (fun b => key b == key a) = [a] := by
  induction l with
  | nil => exact absurd ha List.not_mem_nil
  | cons b rest ih =>
    obtain ⟨hb, hrest⟩ := List.nodup_cons.mp h
    rcases List.mem_cons.mp ha with rfl | ha
    · have hother : rest.filter (fun b => key b == key a) = [] := by
        refine List.filter_eq_nil_iff.mpr fun c hc he => hb ?_
        exact List.mem_map.mpr ⟨c, hc, eq_of_beq he⟩
      rw [List.filter_cons, if_pos (beq_self_eq_true _), hother]
    · have hne : ¬ (key b == key a) = true := fun he =>
        hb (List.mem_map.mpr ⟨a, ha, (eq_of_beq he).symm⟩)
      rw [List.filter_cons, if_neg hne, ih hrest ha]

section
variable {rows : Dataset} {config : PivotConfig} {grouping : GroupConfig} {a : AggregateConfig}

theorem PivotConfig.ReshapedFrom.outputs_free (h : config.ReshapedFrom grouping a) :
    ∀ b ∈ grouping.aggregates, b.outputColumn ∉ grouping.groupColumns := by
  rw [h.aggregates, h.groupColumns]
  exact List.forall_mem_singleton.mpr h.free

/-- There is one row of a pivot for the index key of each row. -/
theorem exists_pivot_row {row : Row} (h : row ∈ rows) : ∃ out,
    (pivot rows config).filter (fun out => out.groupKey config.indexColumns ==
      row.groupKey config.indexColumns) = [out] := by
  have hkeys : FirstOccurrences (rows.map (·.groupKey config.indexColumns))
      ((pivot rows config).map (·.groupKey config.indexColumns)) :=
    firstOccurrences_groups fun _ _ => PivotConfig.carries_row (nodup_labelsUnder _ _)
  obtain ⟨out, hout, hkey⟩ := List.mem_map.mp ((hkeys.mem _).mpr (List.mem_map_of_mem h))
  exact ⟨out, hkey ▸ filter_key_eq_singleton hkeys.nodup hout⟩

/-- Each row has its group. -/
theorem exists_grouped_row (h : config.ReshapedFrom grouping a) {row : Row} (hrow : row ∈ rows) :
    ∃ g ∈ groupBy rows grouping, g.groupKey config.indexColumns = row.groupKey config.indexColumns ∧
      g.groupKey config.pivotColumns = row.groupKey config.pivotColumns := by
  have hkeys : FirstOccurrences (rows.map (·.groupKey grouping.groupColumns))
      ((groupBy rows grouping).map (·.groupKey grouping.groupColumns)) :=
    firstOccurrences_groups fun _ _ => GroupConfig.carries_row h.outputs_free
  obtain ⟨g, hg, hkey⟩ := List.mem_map.mp ((hkeys.mem _).mpr (List.mem_map_of_mem hrow))
  rw [h.groupColumns] at hkey
  exact ⟨g, hg, groupKey_append_eq_iff.mp hkey⟩

/-- The cell of a pivot in the column of some row. -/
theorem pivot_cell {out row : Row} (hout : out ∈ pivot rows config) (hrow : row ∈ rows) :
    out.get? (config.columnOf rows row) = some (config.crossValue (config.crossing rows
      (out.groupKey config.indexColumns) (row.labelUnder config.pivotColumns))) := by
  obtain ⟨part, hpart, rfl⟩ := List.mem_map.mp hout
  exact (PivotConfig.tabulates_row hpart).cell _ (List.mem_eraseDups.mpr (List.mem_map_of_mem hrow))

/-- The rows of a group are those of its cell. -/
theorem rows_eq_crossing (hlabels : LabelsTellApart rows config.pivotColumns) {part : Group}
    (hp : part ∈ partition rows (config.indexColumns ++ config.pivotColumns)) :
    part.rows = config.crossing rows (part.first.groupKey config.indexColumns)
      (part.first.labelUnder config.pivotColumns) := by
  have hrows := rows_of_mem_partition hp
  have hfirst : part.first ∈ rows := by
    have hm : part.first ∈ part.rows := List.mem_cons_self
    rw [← hrows] at hm
    exact List.mem_of_mem_filter hm
  rw [← hrows, PivotConfig.crossing]
  refine List.filter_congr fun row hrow => Bool.eq_iff_iff.mpr ?_
  rw [Bool.and_eq_true, beq_iff_eq, beq_iff_eq, beq_iff_eq, groupKey_append_eq_iff]
  exact and_congr_right fun _ =>
    ⟨labelUnder_congr, hlabels row hrow part.first hfirst⟩

/-- A grouped row: the group's keys, and the aggregate over the rows of its cell. -/
theorem grouped_row (h : config.ReshapedFrom grouping a)
    (hlabels : LabelsTellApart rows config.pivotColumns) {g : Row} (hg : g ∈ groupBy rows grouping) :
    ∃ first ∈ rows, g.groupKey config.indexColumns = first.groupKey config.indexColumns ∧
      g.groupKey config.pivotColumns = first.groupKey config.pivotColumns ∧
      g.get? a.outputColumn = some (config.crossValue (config.crossing rows
        (first.groupKey config.indexColumns) (first.labelUnder config.pivotColumns))) := by
  obtain ⟨part, hpart, rfl⟩ := List.mem_map.mp hg
  rw [h.groupColumns] at hpart
  have hrows := rows_eq_crossing hlabels hpart
  have hfirst : part.first ∈ config.crossing rows (part.first.groupKey config.indexColumns)
      (part.first.labelUnder config.pivotColumns) := hrows ▸ List.mem_cons_self
  have hcarries := @GroupConfig.carries_row grouping part h.outputs_free
  rw [h.groupColumns] at hcarries
  obtain ⟨hindex, hpivot⟩ := groupKey_append_eq_iff.mp hcarries.groupKey
  refine ⟨part.first, List.mem_of_mem_filter hfirst, hindex, hpivot, ?_⟩
  have ha : a ∈ grouping.aggregates := h.aggregates ▸ List.mem_cons_self
  rw [GroupConfig.get?_row_output ha]
  · have hne : config.crossing rows (part.first.groupKey config.indexColumns)
        (part.first.labelUnder config.pivotColumns) ≠ [] := List.ne_nil_of_mem hfirst
    rw [PivotConfig.crossValue, if_neg (by simpa using hne), ← hrows, AggregateConfig.evaluate,
      Aggregate.ofRows, Aggregate.ofValues_percentile h.percentile, h.column, h.kind,
      Aggregate.ofRows]
  · intro b hb _
    rw [h.aggregates] at hb
    exact List.mem_singleton.mp hb

end

/-- What a grouped row holds under its aggregate stands in the one row of the pivot with its
index key, in the column of its label. A cell whose keys no grouped row has holds the fill
value. -/
theorem pivot_reshapes_groupBy {rows : Dataset} {config : PivotConfig} {grouping : GroupConfig}
    {a : AggregateConfig} (h : config.ReshapedFrom grouping a)
    (hlabels : LabelsTellApart rows config.pivotColumns) :
    (∀ g ∈ groupBy rows grouping, ∃ out value,
      (pivot rows config).filter (fun out => out.groupKey config.indexColumns ==
        g.groupKey config.indexColumns) = [out] ∧
      g.labelUnder config.pivotColumns ∈ labelsUnder rows config.pivotColumns ∧
      g.get? a.outputColumn = some value ∧ out.get? (config.columnOf rows g) = some value) ∧
    ∀ out ∈ pivot rows config, ∀ row ∈ rows,
      (∀ g ∈ groupBy rows grouping, g.groupKey config.indexColumns =
        out.groupKey config.indexColumns →
        g.groupKey config.pivotColumns ≠ row.groupKey config.pivotColumns) →
      out.get? (config.columnOf rows row) = some config.fill := by
  refine ⟨?_, ?_⟩
  · intro g hg
    obtain ⟨first, hfirst, hindex, hpivot, hvalue⟩ := grouped_row h hlabels hg
    have hlabel := labelUnder_congr hpivot
    obtain ⟨out, hout⟩ := @exists_pivot_row rows config first hfirst
    obtain ⟨hmem, hkey⟩ := List.mem_filter.mp (hout ▸ List.mem_singleton_self out)
    refine ⟨out, _, hindex ▸ hout, ?_, hvalue, ?_⟩
    · rw [hlabel]
      exact List.mem_eraseDups.mpr (List.mem_map_of_mem hfirst)
    · rw [PivotConfig.columnOf, hlabel, ← eq_of_beq hkey]
      exact pivot_cell hmem hfirst
  · intro out hout row hrow hno
    have hempty : config.crossing rows (out.groupKey config.indexColumns)
        (row.labelUnder config.pivotColumns) = [] := by
      refine List.filter_eq_nil_iff.mpr fun other hother hboth => ?_
      obtain ⟨hindex, hlabel⟩ := Bool.and_eq_true_iff.mp hboth
      obtain ⟨g, hg, hgindex, hgpivot⟩ := exists_grouped_row h hother
      refine hno g hg (hgindex.trans (eq_of_beq hindex)) (hgpivot.trans ?_)
      exact hlabels other hother row hrow (eq_of_beq hlabel)
    rw [pivot_cell hout hrow, hempty]
    rfl

/-- Revenues by region and quarter: a null region and a missing quarter are keys as any others,
and one quarter has the name of the index column. -/
theorem pivot_reshapes_quarters :
    let rows := [
      Row.ofList [("Region", .text "East"), ("Quarter", .text "Region"), ("v", .number 1.0)],
      Row.ofList [("Region", .null), ("v", .number 2.0)],
      Row.ofList [("Region", .text "East"), ("Quarter", .text "Region"), ("v", .text "(3)")]]
    let config : PivotConfig := {
      indexColumns := ["Region"], pivotColumns := ["Quarter"], valueColumn := "v", fill := .text "-" }
    let a : AggregateConfig := ⟨"v", .sum, some "total", none⟩
    let grouping : GroupConfig := { groupColumns := ["Region", "Quarter"], aggregates := [a] }
    config.ReshapedFrom grouping a ∧ LabelsTellApart rows ["Quarter"] ∧
      (groupBy rows grouping).map (fun g => (g.get? "total", config.columnOf rows g)) =
        [(some (.number (-2.0)), "Region_"), (some (.number 2.0), "")] ∧
      (∀ g ∈ groupBy rows grouping, ∃ out ∈ pivot rows config,
        out.get? (config.columnOf rows g) = g.get? "total") ∧
      ∀ out ∈ pivot rows config, out.key? "Region" = none →
        out.get? "Region_" = some (.text "-") := by
  intro rows config a grouping
  have h : config.ReshapedFrom grouping a :=
    ⟨rfl, rfl, rfl, rfl, fun _ => rfl, by decide⟩
  have hlabels : LabelsTellApart rows ["Quarter"] := by decide +kernel
  obtain ⟨hcells, hfill⟩ := pivot_reshapes_groupBy h hlabels
  refine ⟨h, hlabels, by decide +kernel, ?_, ?_⟩
  · intro g hg
    obtain ⟨out, value, hout, -, hvalue, hcell⟩ := hcells g hg
    exact ⟨out, List.mem_of_mem_filter (hout ▸ List.mem_singleton_self out), hcell.trans hvalue.symm⟩
  · intro out hout hnull
    have hquarter : ∀ g ∈ groupBy rows grouping, g.key? "Region" = none →
        g.groupKey ["Quarter"] ≠ [some "Region"] := by decide +kernel
    refine hfill out hout (Row.ofList _) List.mem_cons_self fun g hg hkey => ?_
    refine hquarter g hg ?_
    have hregion : [g.key? "Region"] = [out.key? "Region"] := hkey
    rw [(List.cons.inj hregion).1, hnull]

end Tabular
