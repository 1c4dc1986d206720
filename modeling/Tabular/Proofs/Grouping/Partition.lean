import Tabular.Grouping
import Tabular.Proofs.Occurrences

/-!
# Groups of rows

Rows are in one group exactly if under every group column both have no value or both
have values of one text (`groupKey_eq_iff`). Groups come in the order in which their keys
first occur (`firstOccurrences_groups`), and each is made of all rows with its key, in
order (`rows_of_mem_partition`). One pass over the rows makes them, with an index that has
the place of each key's group (`map_groups_run?`).
-/
namespace Tabular

/-! ## Keys -/

/-- The cells are both null, or neither is and they show the same text. -/
def Cell.SameKey (a b : Cell) : Prop :=
  (a = .null ∧ b = .null) ∨ (a ≠ .null ∧ b ≠ .null ∧ a.display = b.display)

/-- The rows belong to one group: their cells under every column are alike, a missing
one being null. -/
def Row.SameKey (columns : List String) (a b : Row) : Prop :=
  ∀ c ∈ columns, (a.cell c).SameKey (b.cell c)

/-- The row has all of the columns, with the cells of another row in them. Where that one
misses a column the cell is null. -/
def Row.Carries (row source : Row) (columns : List String) : Prop :=
  ∀ c ∈ columns, row.get? c = some (source.cell c)

theorem Cell.key?_eq_iff {a b : Cell} : a.key? = b.key? ↔ a.SameKey b := by
  cases a <;> cases b <;> simp [Cell.key?, Cell.SameKey]

theorem groupKey_eq_iff {columns : List String} {a b : Row} :
    a.groupKey columns = b.groupKey columns ↔ a.SameKey columns b := by
  rw [Row.groupKey, Row.groupKey, List.map_inj_left]
  exact forall₂_congr fun _ _ => Cell.key?_eq_iff

theorem Row.Carries.groupKey {row source : Row} {columns : List String}
    (h : row.Carries source columns) : row.groupKey columns = source.groupKey columns := by
  refine List.map_congr_left fun c hc => ?_
  rw [Row.key?, Row.cell, h c hc, Option.getD_some, Row.key?]

theorem Row.carries_copy (target source : Row) (columns : List String) :
    (target.copy source columns).Carries source columns := fun _ hc =>
  Row.get?_foldl_insert (fun column => column) source.cell hc (fun _ _ he => congrArg _ he) target

theorem Row.get?_copy_of_not_mem {columns : List String} {c : String} (h : c ∉ columns)
    (target source : Row) : (target.copy source columns).get? c = target.get? c := by
  refine Row.get?_foldl_insert_of_ne (fun column => column) source.cell ?_ target
  rintro _ hm rfl
  exact h hm

/-! ## Groups -/

theorem ofRows?_eq_some {rows : Dataset} {g : Group} :
    Group.ofRows? rows = some g ↔ rows = g.rows := by
  cases rows with
  | nil => simp [Group.ofRows?, Group.rows]
  | cons first others =>
    obtain ⟨first', others'⟩ := g
    simp [Group.ofRows?, Group.rows]

section
variable {κ : Type} [BEq κ]

theorem partitionBy_eq (key : Row → κ) (rows : Dataset) :
    partitionBy key rows = (rows.map key).eraseDups.filterMap fun k =>
      Group.ofRows? (rows.filter fun row => key row == k) := by
  simp [partitionBy, List.filter_map, Function.comp_def]

/-- Groups that have the keys, in order, and the rows of each key are the groups. -/
theorem eq_partitionBy {key : Row → κ} {rows : Dataset} {groups : List Group}
    (hkeys : groups.map (fun g => key g.first) = (rows.map key).eraseDups)
    (hrows : ∀ g ∈ groups, rows.filter (fun row => key row == key g.first) = g.rows) :
    groups = partitionBy key rows := by
  have hgroup : ∀ g ∈ groups, ((fun k => Group.ofRows? (rows.filter fun row => key row == k)) ∘
      fun g => key g.first) g = some g := fun g hg => ofRows?_eq_some.mpr (hrows g hg)
  rw [partitionBy_eq, ← hkeys, List.filterMap_map, List.filterMap_congr hgroup,
    List.filterMap_some]

variable [LawfulBEq κ]

/-- A group is made of all rows with its key, in order. -/
theorem rows_of_mem_partitionBy {key : Row → κ} {rows : Dataset} {g : Group}
    (h : g ∈ partitionBy key rows) : rows.filter (fun row => key row == key g.first) = g.rows := by
  rw [partitionBy_eq, List.mem_filterMap] at h
  obtain ⟨k, -, hg⟩ := h
  have hrows := ofRows?_eq_some.mp hg
  have hfirst : g.first ∈ rows.filter fun row => key row == k := hrows ▸ List.mem_cons_self
  have hk : key g.first = k := by simpa using (List.mem_filter.mp hfirst).2
  rw [hk, hrows]

/-- There is one group for each key, in order of first occurrence. -/
theorem map_key_partitionBy (key : Row → κ) (rows : Dataset) :
    (partitionBy key rows).map (fun g => key g.first) = (rows.map key).eraseDups := by
  have hkey : ∀ k ∈ (rows.map key).eraseDups,
      ((Group.ofRows? (rows.filter fun row => key row == k)).map fun g => key g.first) =
        some k := by
    intro k hk
    obtain ⟨row, hrow, rfl⟩ := List.mem_map.mp (List.mem_eraseDups.mp hk)
    have hm : row ∈ rows.filter fun other => key other == key row :=
      List.mem_filter.mpr ⟨hrow, beq_self_eq_true _⟩
    cases hf : rows.filter fun other => key other == key row with
    | nil => exact absurd (hf ▸ hm) List.not_mem_nil
    | cons first others =>
      have hfirst : first ∈ rows.filter fun other => key other == key row :=
        hf ▸ List.mem_cons_self
      have hkey : key first = key row := by simpa using (List.mem_filter.mp hfirst).2
      simp [Group.ofRows?, hkey]
  rw [partitionBy_eq, List.map_filterMap, List.filterMap_congr hkey, List.filterMap_some]

section
variable {key : Row → κ} {rows : Dataset} {row : Row} {g other : Group} {i j : Nat}

theorem getElem?_keys (h : (partitionBy key rows)[i]? = some g) :
    (rows.map key).eraseDups[i]? = some (key g.first) := by
  rw [← map_key_partitionBy, List.getElem?_map, h]
  rfl

/-- No two groups have the same key. -/
theorem place_eq (hg : (partitionBy key rows)[i]? = some g)
    (hother : (partitionBy key rows)[j]? = some other) (h : key g.first = key other.first) :
    i = j := by
  have hnodup := (firstOccurrences_eraseDups (rows.map key)).nodup
  obtain ⟨hi, -⟩ := List.getElem?_eq_some_iff.mp (getElem?_keys hg)
  refine (List.getElem?_inj hi hnodup).mp ?_
  rw [getElem?_keys hg, getElem?_keys hother, h]

theorem filter_concat_of_eq {k : κ} (h : key row = k) :
    (rows ++ [row]).filter (fun r => key r == k) = rows.filter (fun r => key r == k) ++ [row] := by
  have hrow : (key row == k) = true := beq_iff_eq.mpr h
  rw [List.filter_append, List.filter_cons, hrow]
  rfl

theorem filter_concat_of_ne {k : κ} (h : key row ≠ k) :
    (rows ++ [row]).filter (fun r => key r == k) = rows.filter fun r => key r == k := by
  have hrow : (key row == k) = false := beq_eq_false_iff_ne.mpr h
  rw [List.filter_append, List.filter_cons, hrow]
  exact List.append_nil _

/-- The group with one row more. -/
def Group.join (g : Group) (row : Row) : Group := { g with others := g.others ++ [row] }

theorem first_join (g : Group) (row : Row) : (g.join row).first = g.first := rfl

theorem rows_join (g : Group) (row : Row) : (g.join row).rows = g.rows ++ [row] := rfl

/-- A row with a key that there is joins the group with that key. -/
theorem partitionBy_concat_of_getElem? (hg : (partitionBy key rows)[i]? = some g)
    (hkey : key g.first = key row) :
    partitionBy key (rows ++ [row]) = (partitionBy key rows).set i (g.join row) := by
  have hplace := getElem?_keys hg
  refine (eq_partitionBy ?_ fun other hother => ?_).symm
  · have hold : key row ∈ rows.map key :=
      List.mem_eraseDups.mp (List.mem_of_getElem? (hkey ▸ hplace))
    obtain ⟨hlt, hsame⟩ := List.getElem?_eq_some_iff.mp hplace
    rw [List.map_append, List.map_singleton, eraseDups_concat, if_pos hold, List.map_set,
      map_key_partitionBy, first_join, ← hsame, List.set_getElem_self]
  · obtain ⟨j, hj⟩ := List.mem_iff_getElem?.mp hother
    rw [List.getElem?_set] at hj
    split at hj
    · split at hj
      · cases hj
        rw [first_join, rows_join, filter_concat_of_eq hkey.symm,
          rows_of_mem_partitionBy (List.mem_of_getElem? hg)]
      · cases hj
    · rename_i hne
      rw [filter_concat_of_ne fun he => hne (place_eq hg hj (hkey.trans he)),
        rows_of_mem_partitionBy (List.mem_of_getElem? hj)]

/-- A row with a new key is a group of its own. -/
theorem partitionBy_concat_of_not_mem (hnew : key row ∉ rows.map key) :
    partitionBy key (rows ++ [row]) = partitionBy key rows ++ [⟨row, []⟩] := by
  have hkeys := map_key_partitionBy key rows
  refine (eq_partitionBy ?_ fun g hg => ?_).symm
  · rw [List.map_append, hkeys, List.map_append, List.map_singleton, List.map_singleton,
      eraseDups_concat, if_neg hnew]
  · rcases List.mem_append.mp hg with hg | hg
    · have hne : key row ≠ key g.first := fun he => hnew (by
        rw [he, ← List.mem_eraseDups, ← hkeys]
        exact List.mem_map_of_mem hg)
      rw [filter_concat_of_ne hne, rows_of_mem_partitionBy hg]
    · obtain rfl := List.mem_singleton.mp hg
      have hnone : rows.filter (fun r => key r == key row) = [] := by
        rw [List.filter_eq_nil_iff]
        exact fun r hr he => hnew (beq_iff_eq.mp he ▸ List.mem_map_of_mem hr)
      rw [filter_concat_of_eq rfl, hnone]
      rfl

end
end

/-! ## One pass -/

/-- How far a pass over rows has come: the groups so far, and for each key the place of its
group. -/
structure Splitting (κ : Type) [BEq κ] [Hashable κ] where
  index : Std.HashMap κ Nat := ∅
  groups : List Group := []

namespace Splitting

variable {κ : Type} [BEq κ] [Hashable κ]

/-- One row more. It joins the group in the place that the index has for its key, if there is one
in that place, and without a place it starts a group. -/
def step? (key : Row → κ) (state : Splitting κ) (row : Row) : Option (Splitting κ) :=
  match state.index[key row]? with
  | some i => state.groups[i]?.map fun g =>
      { state with groups := state.groups.set i (g.join row) }
  | none => some
      ⟨state.index.insert (key row) state.groups.length, state.groups ++ [⟨row, []⟩]⟩

/-- The pass over all rows, from the top. -/
def run? (key : Row → κ) (rows : Dataset) : Option (Splitting κ) := rows.foldlM (step? key) {}

/-- The groups are those of some rows, and the index has the places of their keys. -/
structure Faithful (key : Row → κ) (rows : Dataset) (state : Splitting κ) : Prop where
  groups : state.groups = partitionBy key rows
  index : IsIndex state.index (rows.map key).eraseDups

variable [LawfulBEq κ] {key : Row → κ} {rows : Dataset} {state : Splitting κ}

/-- There is a group in the place that the index has, and the row is put where it belongs. -/
theorem Faithful.step? (h : state.Faithful key rows) (row : Row) : ∃ next,
    state.step? key row = some next ∧ next.Faithful key (rows ++ [row]) := by
  obtain ⟨index, groups⟩ := state
  obtain ⟨rfl, hindex⟩ := h
  have hkeys := map_key_partitionBy key rows
  have hmap : (rows ++ [row]).map key = rows.map key ++ [key row] := by simp
  cases hplace : index[key row]? with
  | some i =>
    have hi := (hindex _ i).mp hplace
    have hold := List.mem_eraseDups.mp (List.mem_of_getElem? hi)
    rw [← hkeys, List.getElem?_map] at hi
    obtain ⟨g, hg, hkey⟩ := Option.map_eq_some_iff.mp hi
    refine ⟨⟨index, (partitionBy key rows).set i (g.join row)⟩, ?_,
      (partitionBy_concat_of_getElem? hg hkey).symm, ?_⟩
    · simp only [Splitting.step?, hplace, hg, Option.map_some]
    · rw [hmap, eraseDups_concat, if_pos hold]
      exact hindex
  | none =>
    have hnew := mt List.mem_eraseDups.mpr (hindex.not_mem hplace)
    have hlength : (rows.map key).eraseDups.length = (partitionBy key rows).length := by
      rw [← hkeys, List.length_map]
    refine ⟨⟨index.insert (key row) (partitionBy key rows).length,
      partitionBy key rows ++ [⟨row, []⟩]⟩, ?_, (partitionBy_concat_of_not_mem hnew).symm, ?_⟩
    · simp only [Splitting.step?, hplace]
    · rw [hmap, eraseDups_concat, if_neg hnew, ← hlength]
      exact hindex.concat hplace

/-- The pass over all rows makes their groups. -/
theorem run?_eq (key : Row → κ) (rows : Dataset) :
    ∃ last, run? key rows = some last ∧ last.Faithful key rows := by
  induction rows using List.reverseRecOn with
  | nil => exact ⟨{}, rfl, rfl, isIndex_empty⟩
  | append_singleton rows row ih =>
    obtain ⟨state, hrun, hfaithful⟩ := ih
    obtain ⟨last, hlast, hall⟩ := hfaithful.step? row
    refine ⟨last, ?_, hall⟩
    rw [run?] at hrun ⊢
    rw [List.foldlM_append, hrun, Option.bind_eq_bind, Option.bind_some, List.foldlM_cons, hlast]
    rfl

end Splitting

section
variable {rows : Dataset} {columns : List String}

/-- One pass makes the groups of rows by columns, and never misses one in the place for a key. -/
theorem map_groups_run? : (Splitting.run? (·.groupKey columns) rows).map Splitting.groups =
    some (partition rows columns) := by
  obtain ⟨last, hrun, hfaithful⟩ := Splitting.run?_eq (·.groupKey columns) rows
  rw [hrun, Option.map_some, hfaithful.groups]
  rfl

theorem rows_of_mem_partition {g : Group} (h : g ∈ partition rows columns) :
    rows.filter (fun row => row.groupKey columns == g.first.groupKey columns) = g.rows :=
  rows_of_mem_partitionBy h

/-- Rows that stand for the groups, each with its group's key, come in the order in which
the keys first occur. -/
theorem firstOccurrences_groups {summary : Group → Row}
    (h : ∀ g ∈ partition rows columns, (summary g).Carries g.first columns) :
    FirstOccurrences (rows.map (·.groupKey columns))
      (((partition rows columns).map summary).map (·.groupKey columns)) := by
  have hkeys : ((partition rows columns).map summary).map (·.groupKey columns) =
      (partition rows columns).map fun g => g.first.groupKey columns := by
    rw [List.map_map]
    exact List.map_congr_left fun g hg => (h g hg).groupKey
  rw [hkeys, partition, map_key_partitionBy (fun row : Row => row.groupKey columns) rows]
  exact firstOccurrences_eraseDups _

end

end Tabular
