import Mathlib.Data.List.Basic
import Tabular.Proofs.Grouping.Pivot

/-!
# Rows past a ceiling

An aggregate scans as many rows as its kind allows, whether they hold numbers or not, and then stops
(`Scan.run_eq`). So what stands behind them cannot be seen, and the last of them still can. Groups
and the cells of a pivot are aggregated each on its own, so there the ceiling counts the rows of a
group or a cell and not those of the dataset (`ceiling_invisible`).
-/
namespace Tabular

theorem AggregateKind.rowCeiling_pos (kind : AggregateKind) : 0 < kind.rowCeiling := by
  cases kind <;> decide

/-! ## One scan -/

namespace Aggregate

/-- How far a scan of a column has come: the rows it has looked at, and the numbers in them. -/
structure Scan where
  scanned : Nat := 0
  found : List Float := []

/-- One row more, unless the ceiling is reached. A row without a number counts too. -/
def Scan.step (ceiling : Nat) (column : String) (scan : Scan) (row : Row) : Scan :=
  if scan.scanned = ceiling then scan
  else ⟨scan.scanned + 1, scan.found ++ (row.number? column).toList⟩

/-- The scan of all rows, from the top. -/
def Scan.run (ceiling : Nat) (column : String) (rows : Dataset) : Scan :=
  rows.foldl (Scan.step ceiling column) {}

section
variable {kind : AggregateKind} {column : String} {before rows rows' : Dataset} {row : Row}

theorem numbers_append (rows rows' : Dataset) (column : String) :
    numbers (rows ++ rows') column = numbers rows column ++ numbers rows' column :=
  List.filterMap_append

theorem numbers_singleton (row : Row) (column : String) :
    numbers [row] column = (row.number? column).toList := by
  rw [numbers, List.filterMap_cons]
  cases row.number? column <;> rfl

/-- A scan looks at the first rows up to the ceiling, and at all of them. -/
theorem Scan.run_eq (ceiling : Nat) (column : String) (rows : Dataset) :
    Scan.run ceiling column rows =
      ⟨min rows.length ceiling, numbers (rows.take ceiling) column⟩ := by
  induction rows using List.reverseRecOn with
  | nil => rw [List.take_nil, List.length_nil, Nat.zero_min]; rfl
  | append_singleton rows row ih =>
    rw [run] at ih ⊢
    rw [List.foldl_append, ih, List.foldl_cons, List.foldl_nil, step, List.length_append,
      List.length_singleton]
    by_cases hfull : ceiling ≤ rows.length
    · have hmin : min rows.length ceiling = ceiling := Nat.min_eq_right hfull
      have hmin' : min (rows.length + 1) ceiling = ceiling := by omega
      rw [if_pos hmin, hmin, hmin', List.take_append_of_le_length hfull]
    · have hmin : min rows.length ceiling = rows.length := by omega
      have hmin' : min (rows.length + 1) ceiling = rows.length + 1 := by omega
      have hall : (rows ++ [row]).take ceiling = rows ++ [row] := by
        refine List.take_of_length_le ?_
        rw [List.length_append, List.length_singleton]
        omega
      have hrows : rows.take ceiling = rows := List.take_of_length_le (by omega)
      rw [hmin, if_neg (Nat.ne_of_lt (Nat.not_le.mp hfull)), hmin', hall, hrows, numbers_append,
        numbers_singleton]

theorem ofRows_congr {p? : Option Float}
    (h : rows.take kind.rowCeiling = rows'.take kind.rowCeiling) :
    ofRows rows column kind p? = ofRows rows' column kind p? := by
  rw [ofRows, h, ofRows]

/-- A number is told from none by every kind. -/
theorem ofValues_one (kind : AggregateKind) (p? : Option Float) :
    ofValues [1.0] kind p? ≠ ofValues [] kind p? := by
  have hsorted : rank (sorted [1.0]) 0 = 1.0 := by rw [sorted, List.mergeSort_singleton]; rfl
  have hsome : finite? 1.0 ≠ none := Option.isSome_iff_ne_none.mp rfl
  cases kind with
  | count =>
    intro he
    exact absurd (Option.some.inj he) (by decide +kernel)
  | distinct =>
    intro he
    exact absurd (Option.some.inj he) (by decide +kernel)
  | median =>
    show finite? (rank (sorted [1.0]) 0) ≠ none
    rwa [hsorted]
  | percentile =>
    show finite? (rank (sorted [1.0]) 0) ≠ none
    rwa [hsorted]
  | _ => exact Option.isSome_iff_ne_none.mp rfl

/-- Rows without numbers use the ceiling up: a one behind them is seen if there is room left. -/
theorem ofRows_concat_ne_iff (p? : Option Float) (hbefore : ∀ r ∈ before, r.number? column = none)
    (hrow : row.number? column = some 1.0) :
    ofRows (before ++ [row]) column kind p? ≠ ofRows before column kind p? ↔
      before.length < kind.rowCeiling := by
  have hnone : ∀ n, numbers (before.take n) column = [] := by
    intro n
    refine List.filterMap_eq_nil_iff.mpr fun r hr => hbefore r (List.mem_of_mem_take hr)
  constructor
  · intro hne
    by_contra hfull
    exact hne (ofRows_congr (List.take_append_of_le_length (Nat.not_lt.mp hfull)))
  · intro hlt
    have hall : (before ++ [row]).take kind.rowCeiling = before.take kind.rowCeiling ++ [row] := by
      rw [List.take_append, List.take_of_length_le (l := [row])]
      rw [List.length_singleton]
      omega
    rw [ofRows, ofRows, hall, numbers_append, hnone, numbers_singleton, hrow]
    exact ofValues_one kind p?

end
end Aggregate

/-! ## Groups -/

/-- In both datasets the same keys occur first in the same order, and the first `n` rows with a key
are the same. -/
structure AgreeUpTo {κ : Type} [BEq κ] (key : Row → κ) (n : Nat) (rows rows' : Dataset) : Prop where
  keys : (rows.map key).eraseDups = (rows'.map key).eraseDups
  rows : ∀ k, (rows.filter fun row => key row == k).take n =
    (rows'.filter fun row => key row == k).take n

section
variable {rows rows' : Dataset}

/-- A row is not among the first ones of its kind if there are enough before it. -/
theorem take_filter_concat {p : Row → Bool} {row : Row} {n : Nat}
    (h : p row → n ≤ (rows.filter p).length) :
    ((rows ++ [row]).filter p).take n = (rows.filter p).take n := by
  rw [List.filter_append]
  by_cases hp : p row
  · exact List.take_append_of_le_length (h hp)
  · rw [List.filter_cons_of_neg hp, List.filter_nil, List.append_nil]

/-- A row that comes to a group with enough rows makes no difference. -/
theorem agreeUpTo_concat {κ : Type} [BEq κ] [LawfulBEq κ] {key : Row → κ} {n : Nat} {row : Row}
    (hn : 0 < n) (h : n ≤ (rows.filter fun other => key other == key row).length) :
    AgreeUpTo key n (rows ++ [row]) rows where
  keys := by
    obtain ⟨other, hother⟩ := List.exists_mem_of_length_pos (Nat.lt_of_lt_of_le hn h)
    obtain ⟨hmem, hkey⟩ := List.mem_filter.mp hother
    have hold : key row ∈ rows.map key := by
      rw [← beq_iff_eq.mp hkey]
      exact List.mem_map_of_mem hmem
    rw [List.map_append, List.map_singleton, eraseDups_concat, if_pos hold]
  rows k := by
    refine take_filter_concat fun hk => ?_
    rwa [← beq_iff_eq.mp hk]

/-- Rows that are made of the groups are the same if those of each key are. -/
theorem map_partition_congr {columns : List String} {row : Group → Row} {row' : Group → Row}
    (hkeys : (rows.map (·.groupKey columns)).eraseDups = (rows'.map (·.groupKey columns)).eraseDups)
    (h : ∀ k, (Group.ofRows? (rows.filter fun r => r.groupKey columns == k)).map row =
      (Group.ofRows? (rows'.filter fun r => r.groupKey columns == k)).map row') :
    (partition rows columns).map row = (partition rows' columns).map row' := by
  rw [partition, partition, partitionBy_eq, partitionBy_eq, List.map_filterMap, List.map_filterMap,
    hkeys]
  exact List.filterMap_congr fun k _ => h k

/-- Two lists of rows that begin with the same row make groups with the same first row. -/
theorem map_ofRows?_congr {members members' : Dataset} {row row' : Group → Row}
    (hfirst : members.take 1 = members'.take 1)
    (h : ∀ first others others', members = first :: others → members' = first :: others' →
      row ⟨first, others⟩ = row' ⟨first, others'⟩) :
    (Group.ofRows? members).map row = (Group.ofRows? members').map row' := by
  cases members with
  | nil =>
    cases members' with
    | nil => rfl
    | cons first' others' => cases hfirst
  | cons first others =>
    cases members' with
    | nil => cases hfirst
    | cons first' others' =>
      obtain rfl : first = first' := (List.cons.inj hfirst).1
      exact congrArg some (h first others others' rfl rfl)

/-- Grouping sees of each group the first row, and as many rows as its aggregates may scan. -/
theorem groupBy_congr {config : GroupConfig}
    (hfirst : AgreeUpTo (·.groupKey config.groupColumns) 1 rows rows')
    (h : ∀ a ∈ config.aggregates,
      AgreeUpTo (·.groupKey config.groupColumns) a.kind.rowCeiling rows rows') :
    groupBy rows config = groupBy rows' config := by
  refine map_partition_congr hfirst.keys fun k => map_ofRows?_congr (hfirst.rows k) ?_
  intro first others others' hrows hrows'
  have hevaluate : ∀ a ∈ config.aggregates,
      a.evaluate (first :: others) = a.evaluate (first :: others') := by
    intro a ha
    have htake := (h a ha).rows k
    rw [hrows, hrows'] at htake
    exact Aggregate.ofRows_congr htake
  unfold GroupConfig.row Row.withAggregates Group.rows
  exact List.foldl_ext _ _ _ fun row a ha => by rw [hevaluate a ha]

/-! ## Cells of a pivot -/

/-- The value of a cell is that of its first rows, as many as its kind may scan. -/
theorem PivotConfig.crossValue_congr {config : PivotConfig}
    (h : rows.take config.kind.rowCeiling = rows'.take config.kind.rowCeiling) :
    config.crossValue rows = config.crossValue rows' := by
  have hempty : rows.isEmpty = rows'.isEmpty := by
    have hpos := config.kind.rowCeiling_pos
    have hlength := congrArg List.length h
    rw [List.length_take, List.length_take] at hlength
    rw [Bool.eq_iff_iff, List.isEmpty_iff_length_eq_zero, List.isEmpty_iff_length_eq_zero]
    omega
  rw [crossValue, crossValue, hempty, Aggregate.ofRows_congr h]

/-- A pivot sees of each index group the first row, and of each cell as many rows as its kind may
scan. -/
theorem pivot_congr {config : PivotConfig}
    (hindex : AgreeUpTo (·.groupKey config.indexColumns) 1 rows rows')
    (hlabels : labelsUnder rows config.pivotColumns = labelsUnder rows' config.pivotColumns)
    (hcells : ∀ key label, (config.crossing rows key label).take config.kind.rowCeiling =
      (config.crossing rows' key label).take config.kind.rowCeiling) :
    pivot rows config = pivot rows' config := by
  unfold pivot
  rw [hlabels]
  refine map_partition_congr hindex.keys fun k => map_ofRows?_congr (hindex.rows k) ?_
  intro first others others' hrows hrows'
  unfold PivotConfig.row
  refine List.foldl_ext _ _ _ fun row p _ => ?_
  have hvalue : config.cell ⟨first, others⟩ p.1 = config.cell ⟨first, others'⟩ p.1 := by
    rw [PivotConfig.cell_of_rows hrows, PivotConfig.cell_of_rows hrows',
      PivotConfig.crossValue_congr (hcells k p.1)]
  exact congrArg (row.insert p.2) hvalue

end

/-- An aggregate is that of the numbers in its first rows, as many as its kind scans, and rows
behind these cannot be seen: a number behind rows without numbers makes a difference exactly if
fewer rows than that stand before it. Groups and cells of a pivot are aggregated each on its own:
what lies past the ceiling in a group or in a cell cannot be seen, wherever in the dataset it
stands. -/
theorem ceiling_invisible (p? : Option Float) :
    (∀ (kind : AggregateKind) (column : String),
      (∀ rows, Aggregate.ofRows rows column kind p? =
          Aggregate.ofValues (Aggregate.Scan.run kind.rowCeiling column rows).found kind p? ∧
        Aggregate.ofRows rows column kind p? =
          Aggregate.ofValues (numbers (rows.take kind.rowCeiling) column) kind p?) ∧
      (∀ rows rows' : Dataset, rows.take kind.rowCeiling = rows'.take kind.rowCeiling →
        Aggregate.ofRows rows column kind p? = Aggregate.ofRows rows' column kind p?) ∧
      ∀ (before : Dataset) (row : Row), (∀ r ∈ before, r.number? column = none) →
        row.number? column = some 1.0 →
        (Aggregate.ofRows (before ++ [row]) column kind p? ≠
          Aggregate.ofRows before column kind p? ↔ before.length < kind.rowCeiling)) ∧
    (∀ (rows rows' : Dataset) (config : GroupConfig),
      AgreeUpTo (·.groupKey config.groupColumns) 1 rows rows' →
      (∀ a ∈ config.aggregates,
        AgreeUpTo (·.groupKey config.groupColumns) a.kind.rowCeiling rows rows') →
      groupBy rows config = groupBy rows' config) ∧
    ∀ (rows rows' : Dataset) (config : PivotConfig),
      AgreeUpTo (·.groupKey config.indexColumns) 1 rows rows' →
      labelsUnder rows config.pivotColumns = labelsUnder rows' config.pivotColumns →
      (∀ key label, (config.crossing rows key label).take config.kind.rowCeiling =
        (config.crossing rows' key label).take config.kind.rowCeiling) →
      pivot rows config = pivot rows' config := by
  refine ⟨fun kind column => ⟨fun rows => ⟨?_, rfl⟩, ?_, ?_⟩, ?_, ?_⟩
  · rw [Aggregate.Scan.run_eq]
    rfl
  · exact fun rows rows' h => Aggregate.ofRows_congr h
  · exact fun before row hbefore hrow => Aggregate.ofRows_concat_ne_iff p? hbefore hrow
  · exact fun rows rows' config hfirst h => groupBy_congr hfirst h
  · exact fun rows rows' config hindex hlabels hcells => pivot_congr hindex hlabels hcells

/-- One row more than medians scan, all in one group and in one cell. -/
theorem ceiling_invisible_late_row :
    let early := Row.ofList
      [("Region", .text "East"), ("Quarter", .text "Q1"), ("Revenue", .number 1.0)]
    let late := Row.ofList
      [("Region", .text "East"), ("Quarter", .text "Q1"), ("Revenue", .number 9.0)]
    let rows := List.replicate AggregateKind.median.rowCeiling early
    let byRegion : GroupConfig :=
      { groupColumns := ["Region"], aggregates := [⟨"Revenue", .median, none, none⟩] }
    let byQuarter : PivotConfig :=
      { indexColumns := ["Region"], pivotColumns := ["Quarter"], valueColumn := "Revenue",
        kind := .median }
    Aggregate.ofRows (rows ++ [late]) "Revenue" .median none =
      Aggregate.ofRows rows "Revenue" .median none ∧
    (∀ blank : Row, blank.number? "Revenue" = none →
      Aggregate.ofRows (List.replicate 49999 blank ++ [early]) "Revenue" .median none ≠
        Aggregate.ofRows (List.replicate 49999 blank) "Revenue" .median none) ∧
    groupBy (rows ++ [late]) byRegion = groupBy rows byRegion ∧
    pivot (rows ++ [late]) byQuarter = pivot rows byQuarter := by
  intro early late rows byRegion byQuarter
  obtain ⟨hcolumn, hgroups, hcells⟩ := ceiling_invisible none
  obtain ⟨-, hbehind, hnumber⟩ := hcolumn .median "Revenue"
  have hpos := AggregateKind.median.rowCeiling_pos
  have hlength : rows.length = AggregateKind.median.rowCeiling := List.length_replicate
  -- All of the early rows have the key and the label of the late one.
  have hfull : ∀ p : Row → Bool, p early → rows.filter p = rows := fun p hp =>
    List.filter_eq_self.mpr fun row hrow => List.eq_of_mem_replicate hrow ▸ hp
  have hkey : early.groupKey ["Region"] = late.groupKey ["Region"] := by decide +kernel
  have hlabel : early.labelUnder ["Quarter"] = late.labelUnder ["Quarter"] := by decide +kernel
  have hagree : ∀ n, 0 < n → n ≤ AggregateKind.median.rowCeiling →
      AgreeUpTo (·.groupKey ["Region"]) n (rows ++ [late]) rows := by
    intro n hn hle
    refine agreeUpTo_concat hn ?_
    rw [hfull (fun other => other.groupKey ["Region"] == late.groupKey ["Region"])
      (beq_iff_eq.mpr hkey), hlength]
    exact hle
  refine ⟨hbehind _ _ (List.take_append_of_le_length (Nat.le_of_eq hlength.symm)), ?_, ?_, ?_⟩
  · intro blank hblank
    refine (hnumber _ early ?_ (by decide +kernel)).mpr ?_
    · exact fun r hr => List.eq_of_mem_replicate hr ▸ hblank
    · rw [List.length_replicate]
      decide
  · refine hgroups _ _ _ (hagree 1 Nat.one_pos hpos) fun a ha => ?_
    obtain rfl := List.mem_singleton.mp ha
    exact hagree _ hpos (Nat.le_refl _)
  · refine hcells _ _ _ (hagree 1 Nat.one_pos hpos) ?_ fun key label => ?_
    · have hold : late.labelUnder ["Quarter"] ∈ rows.map (·.labelUnder ["Quarter"]) := by
        rw [← hlabel]
        exact List.mem_map_of_mem (List.mem_replicate.mpr ⟨Nat.ne_of_gt hpos, rfl⟩)
      show (((rows ++ [late]).map (·.labelUnder ["Quarter"])).eraseDups : List String) = _
      rw [List.map_append, List.map_singleton, eraseDups_concat, if_pos hold]
      rfl
    · refine take_filter_concat fun hlate => ?_
      rw [hfull, hlength]
      change (early.groupKey ["Region"] == key && early.labelUnder ["Quarter"] == label) = true
      rw [hkey, hlabel]
      exact hlate

end Tabular
