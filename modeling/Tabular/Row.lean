import Tabular.Cell

/-!
# Rows

A row maps column names to cells. Its entries are sorted by name, by code point,
with no name twice, so a row has one representation; rows of one dataset need not
share columns. A missing column reads as null but is not the same as one.
-/
namespace Tabular

def Ascending (entries : List (String × Cell)) : Prop :=
  entries.Pairwise fun a b => a.1 < b.1

/-- A mapping from column names to cells, sorted by name. -/
structure Row where
  entries : List (String × Cell)
  ascending : Ascending entries
  deriving DecidableEq

namespace Row

/-- Put a cell at its place in sorted entries, in place of one of the same name. -/
def insertEntry (name : String) (cell : Cell) : List (String × Cell) → List (String × Cell)
  | [] => [(name, cell)]
  | (n, c) :: rest =>
    if name < n then (name, cell) :: (n, c) :: rest
    else if name = n then (name, cell) :: rest
    else (n, c) :: insertEntry name cell rest

theorem mem_insertEntry {name : String} {cell : Cell} {e : String × Cell}
    {entries : List (String × Cell)} (h : e ∈ insertEntry name cell entries) :
    e = (name, cell) ∨ e ∈ entries := by
  induction entries with
  | nil => simpa [insertEntry] using h
  | cons head rest ih =>
    simp only [insertEntry] at h
    split at h
    · simpa using h
    · split at h
      · rcases List.mem_cons.mp h with h | h
        · exact .inl h
        · exact .inr (List.mem_cons_of_mem _ h)
      · rcases List.mem_cons.mp h with h | h
        · exact .inr (h ▸ List.mem_cons_self)
        · rcases ih h with h | h
          · exact .inl h
          · exact .inr (List.mem_cons_of_mem _ h)

theorem ascending_insertEntry (name : String) (cell : Cell) {entries : List (String × Cell)}
    (h : Ascending entries) : Ascending (insertEntry name cell entries) := by
  induction entries with
  | nil => simp [insertEntry, Ascending]
  | cons head rest ih =>
    obtain ⟨hhead, hrest⟩ := List.pairwise_cons.mp h
    simp only [insertEntry]
    split
    · rename_i hlt
      refine List.pairwise_cons.mpr ⟨fun e he => ?_, h⟩
      rcases List.mem_cons.mp he with he | he
      · exact he ▸ hlt
      · exact String.lt_trans hlt (hhead e he)
    · rename_i hlt
      split
      · rename_i heq
        exact List.pairwise_cons.mpr ⟨fun e he => heq ▸ hhead e he, hrest⟩
      · rename_i hne
        refine List.pairwise_cons.mpr ⟨fun e he => ?_, ih hrest⟩
        rcases mem_insertEntry he with he | he
        · subst he
          exact Std.not_le.mp fun hle => hne (String.le_antisymm hle (String.not_lt.mp hlt))
        · exact hhead e he

def empty : Row := ⟨[], List.Pairwise.nil⟩

instance : Inhabited Row := ⟨empty⟩

/-- The row with a cell written under a name, replacing the one there. -/
def insert (row : Row) (name : String) (cell : Cell) : Row :=
  ⟨insertEntry name cell row.entries, ascending_insertEntry name cell row.ascending⟩

/-- The cell under a name, if the row has that column. -/
def get? (row : Row) (name : String) : Option Cell := row.entries.lookup name

/-- The cell under a name; a missing column is null. -/
def cell (row : Row) (name : String) : Cell := (row.get? name).getD .null

/-- The row's column names, in order. -/
def names (row : Row) : List String := row.entries.map Prod.fst

/-- The row holding the given cells; a later one wins over an earlier one of the
same name. -/
def ofList (entries : List (String × Cell)) : Row :=
  entries.foldl (fun row e => row.insert e.1 e.2) empty

/-- The text a column is grouped by; null and missing have none. -/
def key? (row : Row) (name : String) : Option String := (row.cell name).key?

theorem get?_insert_self (row : Row) (name : String) (cell : Cell) :
    (row.insert name cell).get? name = some cell := by
  suffices h : ∀ entries : List (String × Cell),
      (insertEntry name cell entries).lookup name = some cell from h row.entries
  intro entries
  induction entries with
  | nil => simp [insertEntry]
  | cons head rest ih =>
    obtain ⟨key, value⟩ := head
    simp only [insertEntry]
    split
    · simp
    · split
      · simp
      · rename_i hne
        have hb : (name == key) = false := beq_eq_false_iff_ne.mpr hne
        simp only [List.lookup_cons, hb, ih]

theorem get?_insert_of_ne (row : Row) {name other : String} (cell : Cell) (h : other ≠ name) :
    (row.insert name cell).get? other = row.get? other := by
  suffices hl : ∀ entries : List (String × Cell),
      (insertEntry name cell entries).lookup other = entries.lookup other from hl row.entries
  have hb : (other == name) = false := beq_eq_false_iff_ne.mpr h
  intro entries
  induction entries with
  | nil => simp only [insertEntry, List.lookup_cons, hb]
  | cons head rest ih =>
    obtain ⟨key, value⟩ := head
    simp only [insertEntry]
    split
    · simp only [List.lookup_cons, hb]
    · split
      · rename_i heq
        have hkey : (other == key) = false := heq ▸ hb
        simp only [List.lookup_cons, hb, hkey]
      · simp only [List.lookup_cons, ih]

section
variable {α : Type} (name : α → String) (value : α → Cell)

/-- Cells written under other names leave a column as it is. -/
theorem get?_foldl_insert_of_ne {items : List α} {column : String}
    (h : ∀ item ∈ items, name item ≠ column) (row : Row) :
    (items.foldl (fun row item => row.insert (name item) (value item)) row).get? column =
      row.get? column := by
  induction items generalizing row with
  | nil => rfl
  | cons item rest ih =>
    rw [List.foldl_cons, ih fun other ho => h other (List.mem_cons_of_mem _ ho),
      get?_insert_of_ne _ _ (h item List.mem_cons_self).symm]

/-- A column holds what is written under its name, if nothing else is. -/
theorem get?_foldl_insert {items : List α} {item : α} (hi : item ∈ items)
    (h : ∀ other ∈ items, name other = name item → value other = value item) (row : Row) :
    (items.foldl (fun row item => row.insert (name item) (value item)) row).get? (name item) =
      some (value item) := by
  -- What is written first may be written again later, so the row counts too.
  suffices hall : ∀ (items : List α) (row : Row),
      (∀ other ∈ items, name other = name item → value other = value item) →
      item ∈ items ∨ row.get? (name item) = some (value item) →
      (items.foldl (fun row item => row.insert (name item) (value item)) row).get? (name item) =
        some (value item) from hall items row h (.inl hi)
  intro items
  induction items with
  | nil =>
    intro row _ hi
    exact hi.resolve_left List.not_mem_nil
  | cons other rest ih =>
    intro row h hi
    refine ih _ (fun o ho => h o (List.mem_cons_of_mem _ ho)) ?_
    by_cases hname : name other = name item
    · refine .inr ?_
      rw [← hname, get?_insert_self, h other List.mem_cons_self hname]
    · rw [get?_insert_of_ne _ _ (Ne.symm hname)]
      refine hi.imp_left fun hm => ?_
      exact (List.mem_cons.mp hm).resolve_left fun he => hname (he ▸ rfl)

end

end Row
end Tabular
