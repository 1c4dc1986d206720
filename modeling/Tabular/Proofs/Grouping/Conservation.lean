import Tabular.Proofs.Grouping.GroupBy
import Tabular.Proofs.Number.Value
import Tabular.Proofs.Number.Whole

/-!
# Grouping keeps every value once

The groups of a dataset hold its rows, each once and in order (`partition_perm`). So the values
of a column are only dealt out: COUNT over the groups adds up to COUNT over the dataset, and so
does SUM where nothing is rounded (`groups_conserve`).
-/
namespace Tabular

/-! ## Rows of all groups -/

/-- Rows with one of some keys, listed key by key. -/
theorem flatMap_filter_perm {κ : Type} [BEq κ] [LawfulBEq κ] (key : Row → κ) (rows : Dataset)
    {keys : List κ} (h : keys.Nodup) :
    (keys.flatMap fun k => rows.filter fun row => key row == k).Perm
      (rows.filter fun row => keys.contains (key row)) := by
  induction keys with
  | nil => simp
  | cons k keys ih =>
    obtain ⟨hk, hkeys⟩ := List.nodup_cons.mp h
    -- The rows with one of the keys are those with the first and those with a later one.
    have hsplit := List.filter_append_perm (fun row => key row == k)
      (rows.filter fun row => (k :: keys).contains (key row))
    have hfirst : (rows.filter fun row => (k :: keys).contains (key row)).filter
        (fun row => key row == k) = rows.filter fun row => key row == k := by
      rw [List.filter_filter]
      refine List.filter_congr fun row _ => ?_
      rw [List.contains_cons]
      cases key row == k <;> rfl
    have hlater : (rows.filter fun row => (k :: keys).contains (key row)).filter
        (fun row => !(key row == k)) = rows.filter fun row => keys.contains (key row) := by
      rw [List.filter_filter]
      refine List.filter_congr fun row _ => ?_
      rw [List.contains_cons]
      cases hkey : key row == k with
      | false => rfl
      | true =>
        rw [eq_of_beq hkey, List.contains_eq_mem, decide_eq_false hk]
        rfl
    rw [hfirst, hlater] at hsplit
    rw [List.flatMap_cons]
    exact ((ih hkeys).append_left _).trans hsplit

/-- Empty groups are left out without a loss. -/
theorem flatMap_rows_ofRows? {κ : Type} (members : κ → Dataset) (keys : List κ) :
    (keys.filterMap fun k => Group.ofRows? (members k)).flatMap Group.rows =
      keys.flatMap members := by
  induction keys with
  | nil => rfl
  | cons k keys ih =>
    rw [List.filterMap_cons, List.flatMap_cons, ← ih]
    cases members k <;> rfl

theorem partition_perm (rows : Dataset) (columns : List String) :
    ((partition rows columns).flatMap Group.rows).Perm rows := by
  have hkeys : ∀ row ∈ rows, ((rows.map (·.groupKey columns)).eraseDups.contains
      (row.groupKey columns)) = true := fun row hrow =>
    List.contains_iff_mem.mpr (List.mem_eraseDups.mpr (List.mem_map_of_mem hrow))
  have hall := flatMap_filter_perm (·.groupKey columns) rows
    (firstOccurrences_eraseDups (rows.map (·.groupKey columns))).nodup
  rw [List.filter_eq_self.mpr hkeys] at hall
  rw [partition, partitionBy_eq, flatMap_rows_ofRows?]
  exact hall

section
variable {rows : Dataset} {columns : List String} {value : String}

theorem numbers_flatMap (groups : List Group) (value : String) :
    numbers (groups.flatMap Group.rows) value = groups.flatMap fun g => numbers g.rows value :=
  List.filterMap_flatMap

/-- The values of the groups, group by group, are those of the dataset in another order. -/
theorem numbers_partition_perm (rows : Dataset) (columns : List String) (value : String) :
    ((partition rows columns).flatMap fun g => numbers g.rows value).Perm (numbers rows value) := by
  rw [← numbers_flatMap]
  exact (partition_perm rows columns).filterMap _

theorem rows_sublist {g : Group} (h : g ∈ partition rows columns) : g.rows.Sublist rows :=
  rows_of_mem_partition h ▸ List.filter_sublist

end

/-! ## Counts -/

section
variable {rows : Dataset} {columns : List String} {a : AggregateConfig}

theorem Cell.number?_ofValue {v : Option Float} (h : FiniteOrNull v) :
    (Cell.ofValue v).number? = v := by
  cases v with
  | none => rfl
  | some x => exact if_pos (h x rfl)

/-- The numbers in grouped rows under the output of an aggregate that stands alone. -/
def groupValues (rows : Dataset) (columns : List String) (a : AggregateConfig) : List Float :=
  numbers (groupBy rows { groupColumns := columns, aggregates := [a] }) a.outputColumn

theorem groupValues_eq (rows : Dataset) (columns : List String) (a : AggregateConfig) :
    groupValues rows columns a = (partition rows columns).filterMap fun g => a.evaluate g.rows := by
  rw [groupValues, numbers, groupBy, List.filterMap_map]
  refine List.filterMap_congr fun g _ => ?_
  show (GroupConfig.row _ g).number? a.outputColumn = _
  rw [Row.number?, Row.cell, GroupConfig.get?_row_output List.mem_cons_self
    fun b hb _ => List.mem_singleton.mp hb, Option.getD_some]
  exact Cell.number?_ofValue (Aggregate.ofRows_finite _ _ _ _)

/-- Few enough whole numbers are added up exactly. -/
theorem total_ofNat {sizes : List Nat} {start : Nat} (h : start + sizes.sum < 2 ^ 53) :
    Aggregate.total (Float.ofNat start) (sizes.map Float.ofNat) =
      Float.ofNat (start + sizes.sum) := by
  induction sizes generalizing start with
  | nil => rfl
  | cons n rest ih =>
    rw [List.sum_cons, ← Nat.add_assoc] at h ⊢
    show Aggregate.total (Float.ofNat start + Float.ofNat n) (rest.map Float.ofNat) = _
    rw [Number.ofNat_add (Nat.lt_of_le_of_lt (Nat.le_add_right _ _) h)]
    exact ih h

theorem count_ofRows (h : rows.length ≤ Limits.linearRows) (value : String) (p? : Option Float) :
    Aggregate.ofRows rows value .count p? = some (Float.ofNat (numbers rows value).length) := by
  have hall : rows.take AggregateKind.count.rowCeiling = rows := List.take_of_length_le h
  rw [Aggregate.ofRows, hall]
  rfl

theorem counts_conserve (h : rows.length ≤ Limits.linearRows) (hkind : a.kind = .count) :
    a.evaluate rows = some (Aggregate.total 0.0 (groupValues rows columns a)) := by
  have hgroups : groupValues rows columns a = ((partition rows columns).map fun g =>
      (numbers g.rows a.column).length).map Float.ofNat := by
    rw [groupValues_eq, List.map_map, ← List.filterMap_eq_map]
    refine List.filterMap_congr fun g hg => ?_
    rw [AggregateConfig.evaluate, hkind,
      count_ofRows (Nat.le_trans (rows_sublist hg).length_le h)]
    rfl
  have hsum : ((partition rows columns).map fun g => (numbers g.rows a.column).length).sum =
      (numbers rows a.column).length := by
    rw [← List.length_flatMap]
    exact (numbers_partition_perm rows columns a.column).length_eq
  have hbound : (numbers rows a.column).length < 2 ^ 53 :=
    calc (numbers rows a.column).length ≤ rows.length := List.length_filterMap_le _ _
      _ ≤ Limits.linearRows := h
      _ < 2 ^ 53 := by decide
  have htotal := @total_ofNat ((partition rows columns).map fun g =>
    (numbers g.rows a.column).length) 0 (by rwa [Nat.zero_add, hsum])
  rw [AggregateConfig.evaluate, hkind, count_ofRows h, hgroups]
  rw [Nat.zero_add, hsum] at htotal
  exact congrArg some htotal.symm

end

/-! ## Sums -/

/-- SUM over rows in an arithmetic of one's own: null if there are no numbers, else the numbers
of the rows up to the ceiling, as they are read there, added up from the left. -/
def Aggregate.sumIn {α : Type} [Add α] (start : α) (read : Float → α) (rows : Dataset)
    (column : String) : Option α :=
  let values := numbers (rows.take AggregateKind.sum.rowCeiling) column
  if values.isEmpty then none else some (total start (values.map read))

/-- What is computed is the sum in doubles, from negative zero on and if it is finite. -/
theorem Aggregate.ofRows_sum (rows : Dataset) (column : String) (p? : Option Float) :
    ofRows rows column .sum p? = (sumIn (-0.0) id rows column).bind finite? := by
  unfold ofRows sumIn
  cases numbers (rows.take AggregateKind.sum.rowCeiling) column with
  | nil => rfl
  | cons x rest =>
    show _ = (some (total (-0.0) ((x :: rest).map id))).bind finite?
    rw [List.map_id]
    rfl

/-- SUM without rounding. -/
def Aggregate.exactSum (rows : Dataset) (column : String) : Option ℚ :=
  sumIn 0 Number.exact rows column

section
variable {rows : Dataset} {columns : List String} {value : String}

theorem Aggregate.exactSum_eq (h : rows.length ≤ Limits.linearRows) :
    exactSum rows value = if (numbers rows value).isEmpty then none
      else some ((numbers rows value).map Number.exact).sum := by
  have hall : rows.take AggregateKind.sum.rowCeiling = rows := List.take_of_length_le h
  rw [exactSum, sumIn, hall, List.sum_eq_foldl]
  rfl

theorem Aggregate.exactSum_eq_none (h : rows.length ≤ Limits.linearRows) :
    exactSum rows value = none ↔ numbers rows value = [] := by
  simp [exactSum_eq h]

/-- A null adds nothing. -/
theorem sum_filterMap (f : Group → Option ℚ) (groups : List Group) :
    (groups.filterMap f).sum = (groups.map fun g => (f g).getD 0).sum := by
  induction groups with
  | nil => rfl
  | cons g rest ih =>
    rw [List.filterMap_cons, List.map_cons, List.sum_cons, ← ih]
    cases f g with
    | none => exact (zero_add _).symm
    | some s => rfl

theorem sums_conserve (h : rows.length ≤ Limits.linearRows) :
    ((partition rows columns).filterMap fun g => Aggregate.exactSum g.rows value).sum =
      ((numbers rows value).map Number.exact).sum := by
  have hgroup : ∀ g ∈ partition rows columns, (Aggregate.exactSum g.rows value).getD 0 =
      ((numbers g.rows value).map Number.exact).sum := by
    intro g hg
    rw [Aggregate.exactSum_eq (Nat.le_trans (rows_sublist hg).length_le h)]
    cases numbers g.rows value <;> rfl
  calc ((partition rows columns).filterMap fun g => Aggregate.exactSum g.rows value).sum
      = ((partition rows columns).map fun g => ((numbers g.rows value).map Number.exact).sum).sum := by
        rw [sum_filterMap, List.map_congr_left hgroup]
    _ = (((partition rows columns).flatMap fun g => numbers g.rows value).map Number.exact).sum := by
        rw [List.map_flatMap, List.flatMap_def, List.sum_flatten, List.map_map]
        rfl
    _ = ((numbers rows value).map Number.exact).sum :=
        ((numbers_partition_perm rows columns value).map _).sum_eq

end

/-- Grouping deals out the values of a column of few enough rows: group by group they are the
values of the dataset in another order, and each group has its own in their order. So the counts
in grouped rows add up to the count of the dataset, in doubles as they are. The sums are those of
`Aggregate.sumIn` in doubles, where each is rounded; without rounding, the ones that are not null
add up to the sum of the dataset, which is null exactly if they all are. -/
theorem groups_conserve {rows : Dataset} (h : rows.length ≤ Limits.linearRows)
    (columns : List String) (value : String) :
    ((partition rows columns).flatMap fun g => numbers g.rows value).Perm (numbers rows value) ∧
    (∀ g ∈ partition rows columns,
      g.rows = rows.filter (fun row => row.groupKey columns == g.first.groupKey columns) ∧
      (numbers g.rows value).Sublist (numbers rows value)) ∧
    (∀ a : AggregateConfig, a.column = value → a.kind = .count →
      a.evaluate rows = some (Aggregate.total 0.0 (groupValues rows columns a))) ∧
    (∀ a : AggregateConfig, a.column = value → a.kind = .sum →
      a.evaluate rows = (Aggregate.sumIn (-0.0) id rows value).bind Aggregate.finite? ∧
      groupValues rows columns a = (partition rows columns).filterMap fun g =>
        (Aggregate.sumIn (-0.0) id g.rows value).bind Aggregate.finite?) ∧
    (Aggregate.exactSum rows value = none ↔
      ∀ g ∈ partition rows columns, Aggregate.exactSum g.rows value = none) ∧
    ∀ s ∈ Aggregate.exactSum rows value,
      ((partition rows columns).filterMap fun g => Aggregate.exactSum g.rows value).sum = s := by
  refine ⟨numbers_partition_perm rows columns value, ?_, ?_, ?_, ?_, ?_⟩
  · exact fun g hg => ⟨(rows_of_mem_partition hg).symm, (rows_sublist hg).filterMap _⟩
  · exact fun a _ hkind => counts_conserve h hkind
  · rintro a rfl hkind
    have hsum : ∀ rows, a.evaluate rows =
        (Aggregate.sumIn (-0.0) id rows a.column).bind Aggregate.finite? := by
      intro rows
      rw [AggregateConfig.evaluate, hkind, Aggregate.ofRows_sum]
    refine ⟨hsum rows, ?_⟩
    rw [groupValues_eq]
    exact List.filterMap_congr fun g _ => hsum g.rows
  · have hnone : ∀ g ∈ partition rows columns, Aggregate.exactSum g.rows value = none ↔
        numbers g.rows value = [] := fun g hg =>
      Aggregate.exactSum_eq_none (Nat.le_trans (rows_sublist hg).length_le h)
    have hperm := numbers_partition_perm rows columns value
    have hnil : numbers rows value = [] ↔
        ((partition rows columns).flatMap fun g => numbers g.rows value) = [] :=
      ⟨fun he => (he ▸ hperm).eq_nil, fun he => (he ▸ hperm.symm).eq_nil⟩
    rw [Aggregate.exactSum_eq_none h, hnil, List.flatMap_eq_nil_iff]
    exact forall₂_congr fun g hg => (hnone g hg).symm
  · intro s hs
    rw [sums_conserve h]
    rw [Aggregate.exactSum_eq h] at hs
    split at hs
    · cases hs
    · exact Option.mem_some.mp hs

/-- Two revenues whose sum is too large for a double: their SUM is null as computed and still
known without rounding, and every row is counted in its region. -/
theorem groups_conserve_past_largest :
    let rows := [Row.ofList [("Region", .text "East"), ("Revenue", .number 1e308)],
      Row.ofList [("Revenue", .text "(5)")],
      Row.ofList [("Region", .text "East"), ("Revenue", .number 1e308)]]
    let count : AggregateConfig := ⟨"Revenue", .count, none, none⟩
    let sum : AggregateConfig := ⟨"Revenue", .sum, none, none⟩
    rows.length ≤ Limits.linearRows ∧ count.evaluate rows = some 3.0 ∧
      some (Aggregate.total 0.0 (groupValues rows ["Region"] count)) = some 3.0 ∧
      groupValues rows ["Region"] sum = [-5.0] ∧
      ((partition rows ["Region"]).filterMap fun g => Aggregate.exactSum g.rows "Revenue").sum =
        2 * Number.exact 1e308 - 5 := by
  intro rows count sum
  have h : rows.length ≤ Limits.linearRows := by decide
  obtain ⟨-, -, hcounts, -, -, hsums⟩ := groups_conserve h ["Region"] "Revenue"
  have hcount : count.evaluate rows = some 3.0 := by decide +kernel
  refine ⟨h, hcount, (hcounts count rfl rfl).symm.trans hcount, by decide +kernel, ?_⟩
  exact hsums _ (by decide +kernel)

end Tabular
