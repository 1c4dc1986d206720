import Mathlib.Data.List.Nodup
import Mathlib.Data.List.Perm.Subperm
import Mathlib.Data.Nat.Find
import Tabular.Pivot
import Tabular.Proofs.Grouping.Partition

/-!
# Cross-tabulation loses nothing

Every label of the rows has a column of its own, which is no index column
(`labelColumn_inj`, `labelColumn_not_mem`), so no cell of a pivot is written twice. The
search for such a column ends: one more candidate than there are taken names is enough
(`freeName_eq`).
-/
namespace Tabular

/-! ## Free names -/

/-- A name with a number of underscores behind it. -/
def underscored (name : String) (n : Nat) : String :=
  name ++ String.ofList (List.replicate n '_')

@[simp] theorem underscored_zero (name : String) : underscored name 0 = name := by
  simp [underscored]

theorem underscored_succ (name : String) (n : Nat) :
    underscored (name ++ "_") n = underscored name (n + 1) := by
  rw [← String.toList_inj]
  simp [underscored, List.replicate_succ]

theorem underscored_inj {name : String} {m n : Nat} (h : underscored name m = underscored name n) :
    m = n := by
  have hl := congrArg String.length h
  simpa [underscored] using hl

/-- Of one more candidate than there are taken names, one is free. -/
theorem exists_underscored_not_mem (taken : List String) (name : String) :
    ∃ n ≤ taken.length, underscored name n ∉ taken := by
  by_contra hall
  have hsub : (List.range (taken.length + 1)).map (underscored name) ⊆ taken := by
    intro candidate hc
    obtain ⟨n, hn, rfl⟩ := List.mem_map.mp hc
    by_contra hfree
    exact hall ⟨n, Nat.le_of_lt_succ (List.mem_range.mp hn), hfree⟩
  have hnodup : ((List.range (taken.length + 1)).map (underscored name)).Nodup :=
    List.nodup_range.map fun _ _ he => underscored_inj he
  have hlength := (List.subperm_of_subset hnodup hsub).length_le
  rw [List.length_map, List.length_range] at hlength
  exact Nat.not_succ_le_self _ hlength

/-- The search goes through the candidates up to the first that is free. -/
theorem freeName_of_first {taken : List String} {name : String} {n fuel : Nat} (hn : n < fuel)
    (htaken : ∀ m < n, underscored name m ∈ taken) (hfree : underscored name n ∉ taken) :
    freeName taken name fuel = underscored name n := by
  induction n generalizing name fuel with
  | zero =>
    obtain ⟨fuel, rfl⟩ := Nat.exists_eq_add_of_lt hn
    rw [underscored_zero] at hfree
    simp [freeName, hfree]
  | succ n ih =>
    obtain ⟨fuel, rfl⟩ : ∃ k, fuel = k + 1 := ⟨fuel - 1, by omega⟩
    have hname : name ∈ taken := by simpa using htaken 0 (Nat.succ_pos n)
    rw [freeName, if_pos (List.contains_iff_mem.mpr hname), ← underscored_succ]
    refine ih (Nat.lt_of_succ_lt_succ hn) ?_ ?_
    · intro m hm
      rw [underscored_succ]
      exact htaken (m + 1) (Nat.succ_lt_succ hm)
    · rwa [underscored_succ]

/-- The search ends with the first free candidate, and more fuel than there are taken names
changes nothing. -/
theorem freeName_eq (taken : List String) (name : String) :
    ∃ n ≤ taken.length, underscored name n ∉ taken ∧
      (∀ m < n, underscored name m ∈ taken) ∧
      ∀ fuel, taken.length < fuel → freeName taken name fuel = underscored name n := by
  classical
  obtain ⟨bound, hle, hfree⟩ := exists_underscored_not_mem taken name
  have hex : ∃ n, underscored name n ∉ taken := ⟨bound, hfree⟩
  have hfirst : ∀ m < Nat.find hex, underscored name m ∈ taken := fun m hm =>
    not_not.mp (Nat.find_min hex hm)
  have hbound : Nat.find hex ≤ taken.length := Nat.le_trans (Nat.find_min' hex hfree) hle
  refine ⟨Nat.find hex, hbound, Nat.find_spec hex, hfirst, ?_⟩
  intro fuel hfuel
  exact freeName_of_first (Nat.lt_of_le_of_lt hbound hfuel) hfirst (Nat.find_spec hex)

/-! ## Columns of labels -/

section
variable {indexColumns taken labels : List String}

theorem map_fst_go : (labelColumns.go indexColumns taken labels).map Prod.fst = labels := by
  induction labels generalizing taken with
  | nil => rfl
  | cons label rest ih =>
    rw [labelColumns.go]
    split
    · simp [ih]
    · simp [ih]

/-- The column that a label gets while some names are taken. -/
structure Named (indexColumns taken : List String) (label column : String) : Prop where
  kept : label ∉ indexColumns → column = label
  free : label ∈ indexColumns → column ∉ taken
  suffixed : label ∈ indexColumns → ∃ n, column = underscored label (n + 1)

theorem Named.mono {taken' : List String} {label column : String} (hsub : taken ⊆ taken')
    (h : Named indexColumns taken' label column) : Named indexColumns taken label column :=
  ⟨h.kept, fun hl hm => h.free hl (hsub hm), h.suffixed⟩

theorem named_freeName {label : String} (taken : List String) (h : label ∈ indexColumns) :
    Named indexColumns taken label (freeName taken (label ++ "_") (taken.length + 1)) := by
  obtain ⟨n, -, hfree, -, hsearch⟩ := freeName_eq taken (label ++ "_")
  rw [hsearch _ (Nat.lt_succ_self _)]
  exact ⟨fun hn => absurd h hn, fun _ => hfree, fun _ => ⟨n, underscored_succ label n⟩⟩

theorem named_of_mem_go {p : String × String}
    (hp : p ∈ labelColumns.go indexColumns taken labels) : Named indexColumns taken p.1 p.2 := by
  induction labels generalizing taken with
  | nil => cases hp
  | cons label rest ih =>
    rw [labelColumns.go] at hp
    split at hp
    · rename_i hindex
      rcases List.mem_cons.mp hp with rfl | hp
      · exact named_freeName taken (List.contains_iff_mem.mp hindex)
      · exact (ih hp).mono (List.subset_cons_self _ _)
    · rename_i hindex
      rcases List.mem_cons.mp hp with rfl | hp
      · exact ⟨fun _ => rfl, fun hm => absurd (List.contains_iff_mem.mpr hm) hindex,
          fun hm => absurd (List.contains_iff_mem.mpr hm) hindex⟩
      · exact ih hp

/-- No two labels share a column, if all labels are taken names from the start. -/
theorem nodup_snd_go (hnodup : labels.Nodup) (htaken : ∀ label ∈ labels, label ∈ taken) :
    ((labelColumns.go indexColumns taken labels).map Prod.snd).Nodup := by
  induction labels generalizing taken with
  | nil => exact List.nodup_nil
  | cons label rest ih =>
    obtain ⟨hlabel, hrest⟩ := List.nodup_cons.mp hnodup
    obtain ⟨hhead, htail⟩ := List.forall_mem_cons.mp htaken
    -- A later column is a later label, or was free when this one had been given away.
    have later : ∀ {taken' : List String} {p : String × String}, taken ⊆ taken' →
        p ∈ labelColumns.go indexColumns taken' rest → ∀ column ∈ taken', column ∉ rest →
        column ≠ p.2 := by
      intro taken' p hsub hp column hc hother he
      have hnamed := named_of_mem_go hp
      by_cases hindex : p.1 ∈ indexColumns
      · exact hnamed.free hindex (he ▸ hc)
      · have hfst := List.mem_map_of_mem (f := Prod.fst) hp
        rw [map_fst_go, ← hnamed.kept hindex, ← he] at hfst
        exact hother hfst
    rw [labelColumns.go]
    split
    · rename_i hindex
      have hnamed := @named_freeName _ label taken (List.contains_iff_mem.mp hindex)
      have hfree := hnamed.free (List.contains_iff_mem.mp hindex)
      generalize freeName taken (label ++ "_") (taken.length + 1) = column at *
      refine List.nodup_cons.mpr ⟨?_, ih hrest fun l hl => List.mem_cons_of_mem _ (htail l hl)⟩
      intro hm
      obtain ⟨p, hp, he⟩ := List.mem_map.mp hm
      exact later (List.subset_cons_self _ _) hp column List.mem_cons_self
        (fun hr => hfree (htail column hr)) he.symm
    · refine List.nodup_cons.mpr ⟨?_, ih hrest htail⟩
      intro hm
      obtain ⟨p, hp, he⟩ := List.mem_map.mp hm
      exact later (List.Subset.refl _) hp label hhead hlabel he.symm

end

/-- The column of a label in a pivot. -/
def labelColumn (indexColumns labels : List String) (label : String) : String :=
  ((labelColumns indexColumns labels).lookup label).getD label

section
variable {indexColumns labels : List String} {label other : String}

theorem mem_labelColumns (h : label ∈ labels) :
    (label, labelColumn indexColumns labels label) ∈ labelColumns indexColumns labels := by
  cases hl : (labelColumns indexColumns labels).lookup label with
  | none =>
    have hfst : label ∈ (labelColumns indexColumns labels).map Prod.fst := by
      rwa [labelColumns, map_fst_go]
    obtain ⟨p, hp, rfl⟩ := List.mem_map.mp hfst
    exact absurd (List.lookup_eq_none_iff.mp hl p hp) (by simp)
  | some column =>
    obtain ⟨before, after, he, -⟩ := List.lookup_eq_some_iff.mp hl
    rw [labelColumn, hl, Option.getD_some, he]
    exact List.mem_append_right _ List.mem_cons_self

theorem named_labelColumn (h : label ∈ labels) :
    Named indexColumns (indexColumns ++ labels) label (labelColumn indexColumns labels label) :=
  named_of_mem_go (mem_labelColumns h)

theorem labelColumn_not_mem (h : label ∈ labels) :
    labelColumn indexColumns labels label ∉ indexColumns := by
  have hnamed := @named_labelColumn indexColumns _ _ h
  by_cases hindex : label ∈ indexColumns
  · exact fun hm => hnamed.free hindex (List.mem_append_left _ hm)
  · rwa [hnamed.kept hindex]

theorem nodup_columns (h : labels.Nodup) :
    ((labelColumns indexColumns labels).map Prod.snd).Nodup :=
  nodup_snd_go h fun _ hl => List.mem_append_right _ hl

theorem labelColumn_inj (h : labels.Nodup) (hl : label ∈ labels) (ho : other ∈ labels)
    (he : labelColumn indexColumns labels label = labelColumn indexColumns labels other) :
    label = other :=
  congrArg Prod.fst (List.inj_on_of_nodup_map (nodup_columns h) (mem_labelColumns hl)
    (mem_labelColumns ho) he)

theorem eq_labelColumn (h : labels.Nodup) {p : String × String}
    (hp : p ∈ labelColumns indexColumns labels) :
    p.1 ∈ labels ∧ p.2 = labelColumn indexColumns labels p.1 := by
  have hfst : (labelColumns indexColumns labels).map Prod.fst = labels := map_fst_go
  have hl : p.1 ∈ labels := by
    have := List.mem_map_of_mem (f := Prod.fst) hp
    rwa [hfst] at this
  refine ⟨hl, ?_⟩
  rw [← hfst] at h
  exact congrArg Prod.snd (List.inj_on_of_nodup_map h hp (mem_labelColumns hl) rfl)

/-! ## Rows of a pivot -/

/-- The rows with an index key and a label, in order. -/
def PivotConfig.crossing (config : PivotConfig) (rows : Dataset) (key : GroupKey)
    (label : String) : Dataset :=
  rows.filter fun row => row.groupKey config.indexColumns == key &&
    row.labelUnder config.pivotColumns == label

/-- The value over some rows: their aggregate, or the fill value if there are none. -/
def PivotConfig.crossValue (config : PivotConfig) (rows : Dataset) : Cell :=
  if rows.isEmpty then config.fill
  else .ofValue (Aggregate.ofRows rows config.valueColumn config.kind none)

variable {config : PivotConfig} {g : Group}

theorem PivotConfig.get?_row_of_ne {pairs : List (String × String)} {c : String}
    (h : ∀ p ∈ pairs, p.2 ≠ c) : (config.row pairs g).get? c =
      (Row.empty.copy g.first config.indexColumns).get? c :=
  Row.get?_foldl_insert_of_ne Prod.snd (fun p => config.cell g p.1) h _

theorem PivotConfig.carries_row (h : labels.Nodup) :
    (config.row (labelColumns config.indexColumns labels) g).Carries g.first
      config.indexColumns := by
  intro c hc
  rw [get?_row_of_ne]
  · exact Row.carries_copy _ _ _ c hc
  · rintro p hp rfl
    obtain ⟨hl, he⟩ := eq_labelColumn h hp
    exact labelColumn_not_mem hl (he ▸ hc)

theorem PivotConfig.get?_row_label (h : labels.Nodup) (hl : label ∈ labels) :
    (config.row (labelColumns config.indexColumns labels) g).get?
      (labelColumn config.indexColumns labels label) = some (config.cell g label) := by
  refine Row.get?_foldl_insert Prod.snd (fun p => config.cell g p.1) (mem_labelColumns hl) ?_ _
  intro p hp he
  rw [List.inj_on_of_nodup_map (nodup_columns h) hp (mem_labelColumns hl) he]

theorem PivotConfig.get?_row_other (h : labels.Nodup) {c : String}
    (hindex : c ∉ config.indexColumns)
    (hlabel : ∀ label ∈ labels, labelColumn config.indexColumns labels label ≠ c) :
    (config.row (labelColumns config.indexColumns labels) g).get? c = none := by
  rw [get?_row_of_ne, Row.get?_copy_of_not_mem hindex]
  · rfl
  · intro p hp he
    obtain ⟨hl, hcolumn⟩ := eq_labelColumn h hp
    exact hlabel p.1 hl (hcolumn ▸ he)

/-- A pivot's cell is the aggregate over the rows of its group with its label. -/
theorem PivotConfig.cell_of_rows {rows : Dataset} {key : GroupKey}
    (h : rows.filter (fun row => row.groupKey config.indexColumns == key) = g.rows) :
    config.cell g label = config.crossValue (config.crossing rows key label) := by
  have hmembers : (g.rows.filter fun row => row.labelUnder config.pivotColumns == label) =
      config.crossing rows key label := by
    rw [← h, List.filter_filter]
    exact List.filter_congr fun _ _ => Bool.and_comm _ _
  rw [cell, hmembers, crossValue]
  cases config.crossing rows key label with
  | nil => rfl
  | cons => rfl

theorem PivotConfig.cell_eq {rows : Dataset} (hg : g ∈ partition rows config.indexColumns) :
    config.cell g label = config.crossValue
      (config.crossing rows (g.first.groupKey config.indexColumns) label) :=
  cell_of_rows (rows_of_mem_partition hg)

end

theorem nodup_labelsUnder (rows : Dataset) (columns : List String) :
    (labelsUnder rows columns).Nodup := (firstOccurrences_eraseDups _).nodup

/-- The columns of the labels that rows have: different for different labels, none an index
column, and the label itself or, if that is an index column, with underscores behind it. -/
structure PivotConfig.Labels (config : PivotConfig) (rows : Dataset) (column : String → String) :
    Prop where
  inj : ∀ label ∈ labelsUnder rows config.pivotColumns,
    ∀ other ∈ labelsUnder rows config.pivotColumns, column label = column other → label = other
  free : ∀ label ∈ labelsUnder rows config.pivotColumns, column label ∉ config.indexColumns
  kept : ∀ label ∈ labelsUnder rows config.pivotColumns, label ∉ config.indexColumns →
    column label = label
  suffixed : ∀ label ∈ labelsUnder rows config.pivotColumns, label ∈ config.indexColumns →
    ∃ n, column label = underscored label (n + 1)

/-- A row of a pivot: the index cells of the first row of its group, under the column of
each label the value over the rows of the group with that label, and nothing else. -/
structure PivotConfig.Tabulates (config : PivotConfig) (rows : Dataset)
    (column : String → String) (out : Row) : Prop where
  index : ∃ first others, rows.filter (fun row => row.groupKey config.indexColumns ==
    out.groupKey config.indexColumns) = first :: others ∧ out.Carries first config.indexColumns
  cell : ∀ label ∈ labelsUnder rows config.pivotColumns, out.get? (column label) = some
    (config.crossValue (config.crossing rows (out.groupKey config.indexColumns) label))
  other : ∀ c, c ∉ config.indexColumns →
    (∀ label ∈ labelsUnder rows config.pivotColumns, column label ≠ c) → out.get? c = none

theorem PivotConfig.labels_labelColumn (config : PivotConfig) (rows : Dataset) :
    config.Labels rows
      (labelColumn config.indexColumns (labelsUnder rows config.pivotColumns)) where
  inj _ hl _ ho := labelColumn_inj (nodup_labelsUnder _ _) hl ho
  free _ hl := labelColumn_not_mem hl
  kept _ hl := (named_labelColumn hl).kept
  suffixed _ hl := (named_labelColumn hl).suffixed

theorem PivotConfig.tabulates_row {config : PivotConfig} {rows : Dataset} {g : Group}
    (hg : g ∈ partition rows config.indexColumns) :
    config.Tabulates rows
      (labelColumn config.indexColumns (labelsUnder rows config.pivotColumns))
      (config.row (labelColumns config.indexColumns (labelsUnder rows config.pivotColumns)) g) := by
  have hnodup := nodup_labelsUnder rows config.pivotColumns
  have hcarries := @PivotConfig.carries_row _ config g hnodup
  refine ⟨?_, ?_, ?_⟩
  · rw [hcarries.groupKey]
    exact ⟨g.first, g.others, rows_of_mem_partition hg, hcarries⟩
  · intro label hl
    rw [hcarries.groupKey, get?_row_label hnodup hl, cell_eq hg]
  · intro c hindex hother
    exact get?_row_other hnodup hindex hother

/-- A pivot has one row for each index key, in the order in which the keys first occur. Each
label that a row has gets a column of its own, which is no index column, and each row of the
pivot tabulates its group over these columns. Every search for a free name ends: it stops at
the first candidate that is not taken, however much fuel is left. -/
theorem pivot_crosstab (rows : Dataset) (config : PivotConfig) :
    FirstOccurrences (rows.map (·.groupKey config.indexColumns))
      ((pivot rows config).map (·.groupKey config.indexColumns)) ∧
    FirstOccurrences (rows.map (·.labelUnder config.pivotColumns))
      (labelsUnder rows config.pivotColumns) ∧
    (∃ column : String → String, config.Labels rows column ∧
      ∀ out ∈ pivot rows config, config.Tabulates rows column out) ∧
    ∀ taken name, ∃ n ≤ taken.length, underscored name n ∉ taken ∧
      (∀ m < n, underscored name m ∈ taken) ∧
      ∀ fuel, taken.length < fuel → freeName taken name fuel = underscored name n := by
  refine ⟨?_, firstOccurrences_eraseDups _, ⟨_, config.labels_labelColumn rows, ?_⟩, freeName_eq⟩
  · exact firstOccurrences_groups fun g _ => PivotConfig.carries_row (nodup_labelsUnder _ _)
  · intro out hout
    obtain ⟨g, hg, rfl⟩ := List.mem_map.mp hout
    exact PivotConfig.tabulates_row hg

/-- A label that another one would get is passed over. -/
example : labelColumns ["Region"] ["Region", "Region_"] =
    [("Region", "Region__"), ("Region_", "Region_")] := by decide

end Tabular
