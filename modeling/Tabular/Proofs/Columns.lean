import Tabular.Dataset
import Tabular.Proofs.Occurrences

/-!
# Columns of a dataset

A dataset's columns are the names that its rows have, each once. One row more adds the names that
are new, in the row's own order (`columns_concat`). So names are in the order of the first rows
that have them, then by code point, and rows that follow only add names at the end
(`columns_stable_union`).
-/
namespace Tabular

theorem Row.mem_names_iff {row : Row} {name : String} :
    name ∈ row.names ↔ ∃ cell, row.get? name = some cell := by
  rw [Row.names, List.mem_map, ← Option.isSome_iff_exists, Row.get?, List.lookup_isSome_iff]
  simp only [beq_iff_eq, eq_comm (a := name)]

/-- A row's names are in the order of code points. -/
theorem Row.names_ascending (row : Row) : row.names.Pairwise (· < ·) :=
  List.pairwise_map.mpr row.ascending

theorem Row.names_nodup (row : Row) : row.names.Nodup := by
  refine row.names_ascending.imp fun hlt he => ?_
  rw [he] at hlt
  exact String.lt_irrefl _ hlt

section
variable {rows : Dataset} {row : Row} {name : String}

theorem mem_columns : name ∈ columns rows ↔ ∃ row ∈ rows, name ∈ row.names := by
  rw [columns, List.mem_eraseDups, List.mem_flatMap]

theorem columns_nodup (rows : Dataset) : (columns rows).Nodup :=
  (firstOccurrences_eraseDups _).nodup

theorem columns_perm {rows' : Dataset} (h : rows.Perm rows') :
    (columns rows).Perm (columns rows') := by
  refine (List.perm_ext_iff_of_nodup (columns_nodup rows) (columns_nodup rows')).mpr fun name => ?_
  rw [mem_columns, mem_columns]
  exact exists_congr fun row => and_congr_left fun _ => h.mem_iff

/-! ## One row more -/

/-- The names of a row that the rows before it do not have. -/
def newNames (rows : Dataset) (row : Row) : List String :=
  row.names.filter fun name => !(columns rows).contains name

theorem mem_newNames : name ∈ newNames rows row ↔ name ∈ row.names ∧ name ∉ columns rows := by
  simp [newNames]

theorem newNames_ascending (rows : Dataset) (row : Row) :
    (newNames rows row).Pairwise (· < ·) :=
  row.names_ascending.filter _

theorem columns_concat (rows : Dataset) (row : Row) :
    columns (rows ++ [row]) = columns rows ++ newNames rows row := by
  have hnew : row.names.removeAll (rows.flatMap Row.names) = newNames rows row := by
    refine List.filter_congr fun name _ => ?_
    rw [Bool.not_inj_iff, Bool.eq_iff_iff, List.elem_iff, List.contains_iff_mem, columns,
      List.mem_eraseDups]
  have hnodup : (newNames rows row).Nodup := row.names_nodup.filter _
  rw [columns, List.flatMap_append, List.flatMap_singleton, List.eraseDups_append, hnew,
    eraseDups_eq_self hnodup]
  rfl

/-! ## First rows -/

/-- The place of the first row that has a column. -/
def firstRow (rows : Dataset) (name : String) : Nat := rows.findIdx fun row => (row.get? name).isSome

theorem firstRow_lt_iff : firstRow rows name < rows.length ↔ name ∈ columns rows := by
  rw [firstRow, List.findIdx_lt_length, mem_columns]
  simp only [Row.mem_names_iff, Option.isSome_iff_exists]

/-- Rows that follow leave the first row of a column where it is. -/
theorem firstRow_concat_of_mem (h : name ∈ columns rows) :
    firstRow (rows ++ [row]) name = firstRow rows name := by
  rw [firstRow, List.findIdx_append]
  exact if_pos (firstRow_lt_iff.mpr h)

/-- The first row of a name that is new is the last row. -/
theorem firstRow_concat_of_new (h : name ∈ newNames rows row) :
    firstRow (rows ++ [row]) name = rows.length := by
  obtain ⟨hrow, hnew⟩ := mem_newNames.mp h
  have hhas : (row.get? name).isSome := Option.isSome_iff_exists.mpr (Row.mem_names_iff.mp hrow)
  have hlast : List.findIdx (fun row => (row.get? name).isSome) [row] = 0 := by
    rw [List.findIdx_singleton, if_pos hhas]
  rw [firstRow, List.findIdx_append, hlast, Nat.zero_add]
  exact if_neg (mt firstRow_lt_iff.mp hnew)

/-- By the first row that has the column, then by code point. -/
def EarlierColumn (rows : Dataset) (a b : String) : Prop :=
  firstRow rows a < firstRow rows b ∨ firstRow rows a = firstRow rows b ∧ a < b

theorem columns_ordered (rows : Dataset) : (columns rows).Pairwise (EarlierColumn rows) := by
  induction rows using List.reverseRecOn with
  | nil => exact .nil
  | append_singleton rows row ih =>
    rw [columns_concat]
    refine List.pairwise_append.mpr ⟨?_, ?_, fun a ha b hb => ?_⟩
    · refine ih.imp_of_mem fun {a b} ha hb h => ?_
      rwa [EarlierColumn, firstRow_concat_of_mem ha, firstRow_concat_of_mem hb]
    · refine (newNames_ascending rows row).imp_of_mem fun {a b} ha hb h => .inr ⟨?_, h⟩
      rw [firstRow_concat_of_new ha, firstRow_concat_of_new hb]
    · refine .inl ?_
      rw [firstRow_concat_of_mem ha, firstRow_concat_of_new hb]
      exact firstRow_lt_iff.mpr ha

/-- Rows that follow only add columns at the end. -/
theorem columns_prefix (rows extra : Dataset) : columns rows <+: columns (rows ++ extra) := by
  rw [columns, columns, List.flatMap_append, List.eraseDups_append]
  exact List.prefix_append _ _

end

/-- The columns of rows are the names that some row has, each once, by the first row that has
the name and then by code point. The columns of the rows with others behind them begin with
these. -/
theorem columns_stable_union (rows : Dataset) :
    (columns rows).Nodup ∧
    (∀ name, name ∈ columns rows ↔ ∃ row ∈ rows, ∃ cell, row.get? name = some cell) ∧
    (columns rows).Pairwise (EarlierColumn rows) ∧
    ∀ extra, columns rows <+: columns (rows ++ extra) := by
  refine ⟨columns_nodup rows, fun name => ?_, columns_ordered rows, columns_prefix rows⟩
  simp only [mem_columns, Row.mem_names_iff]

/-- A name of the first row stays first where a later row has it too. -/
example : columns [Row.ofList [("b", .null), ("a", .null)],
    Row.ofList [("c", .null), ("a", .null)]] = ["a", "b", "c"] := by decide +kernel

end Tabular
