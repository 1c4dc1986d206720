import Tabular.Proofs.Document.Faithful

/-!
# Tables written and read again

Cells with finite numbers, rows of them and datasets of those are read again from the documents
that are written for them. A row of a document holds its columns in order, so the order of
fields and fields of one name do not matter (`Row.ofList_entries`).
-/
namespace Tabular

/-- A number in the cell is finite. -/
def Cell.IsWritable : Cell → Prop
  | .number x => x.isFinite
  | _ => True

section
variable [Codec] [Codec.IsLawful]
open Codec.IsLawful Faithful

theorem Cell.faithful : Faithful ofDocument toDocument IsWritable where
  yields {d c} hd h := by
    obtain ⟨-, hfound⟩ := (firstOf_eq_ok hd).mp h
    obtain ⟨decode, hmem, hdecode⟩ := List.exists_of_findSome?_eq_some hfound
    rw [toOption_eq_some] at hdecode
    simp only [List.mem_cons, List.not_mem_nil, or_false] at hmem
    rcases hmem with rfl | rfl | rfl | rfl
    · obtain ⟨-, -, rfl⟩ := map_eq_ok.mp hdecode
      trivial
    · obtain ⟨b, -, rfl⟩ := map_eq_ok.mp hdecode
      trivial
    · obtain ⟨x, hx, rfl⟩ := map_eq_ok.mp hdecode
      exact isFinite_of_float hd hx
    · obtain ⟨s, -, rfl⟩ := map_eq_ok.mp hdecode
      trivial
  writable {c} hc := by
    cases c with
    | null => exact .null
    | bool b => exact .bool b
    | number x => exact .float hc
    | text s => exact .text s
  -- The readings in front of the one that fits do not fit.
  reads {c} hc := by
    cases c with
    | null => exact firstOf_head .null (map_eq_ok.mpr ⟨(), (null_eq_ok .null).mpr rfl, rfl⟩)
    | bool b =>
      have hd : (Document.bool b).IsWritable := .bool b
      refine firstOf_tail hd.isJson (map_ne_ok fun u hu => ?_) <|
        firstOf_head hd (map_eq_ok.mpr ⟨b, (bool_eq_ok hd.isJson).mpr rfl, rfl⟩)
      cases (null_eq_ok hd.isJson).mp hu
    | number x =>
      have hd : (Document.float x).IsWritable := .float hc
      refine firstOf_tail hd.isJson (map_ne_ok fun u hu => ?_) <|
        firstOf_tail hd.isJson (map_ne_ok fun b hb => ?_) <|
        firstOf_head hd (map_eq_ok.mpr ⟨x, (float_eq_ok hd.isJson).mpr (.inl rfl), rfl⟩)
      · cases (null_eq_ok hd.isJson).mp hu
      · cases (bool_eq_ok hd.isJson).mp hb
    | text s =>
      have hd : (Document.text s).IsWritable := .text s
      refine firstOf_tail hd.isJson (map_ne_ok fun u hu => ?_) <|
        firstOf_tail hd.isJson (map_ne_ok fun b hb => ?_) <|
        firstOf_tail hd.isJson (map_ne_ok fun x hx => ?_) <|
        firstOf_head hd (map_eq_ok.mpr ⟨s, (text_eq_ok hd.isJson).mpr rfl, rfl⟩)
      · cases (null_eq_ok hd.isJson).mp hu
      · cases (bool_eq_ok hd.isJson).mp hb
      · rcases (float_eq_ok hd.isJson).mp hx with h | ⟨i, h, -⟩
        · cases h
        · cases h

end

namespace Row

/-- A column behind all others is put at the end. -/
theorem insertEntry_last {name : String} {cell : Cell} {entries : List (String × Cell)}
    (h : ∀ e ∈ entries, e.1 < name) :
    insertEntry name cell entries = entries ++ [(name, cell)] := by
  induction entries with
  | nil => rfl
  | cons e rest ih =>
    obtain ⟨he, hrest⟩ := List.forall_mem_cons.mp h
    have hlt : ¬ name < e.1 := fun hlt => String.lt_irrefl _ (String.lt_trans hlt he)
    have hne : name ≠ e.1 := fun heq => String.lt_irrefl _ (heq ▸ he)
    rw [insertEntry, if_neg hlt, if_neg hne, ih hrest, List.cons_append]

theorem entries_foldl_insert {row : Row} {entries : List (String × Cell)}
    (h : Ascending (row.entries ++ entries)) :
    (entries.foldl (fun row e => row.insert e.1 e.2) row).entries = row.entries ++ entries := by
  induction entries generalizing row with
  | nil => exact (List.append_nil _).symm
  | cons e rest ih =>
    have hlast : (row.insert e.1 e.2).entries = row.entries ++ [e] := by
      refine insertEntry_last fun other ho => ?_
      exact (List.pairwise_append.mp h).2.2 other ho e List.mem_cons_self
    rw [List.append_cons, ← hlast] at h ⊢
    exact ih h

/-- A row is the row of its cells. -/
theorem ofList_entries (row : Row) : ofList row.entries = row := by
  have hentries : (ofList row.entries).entries = row.entries :=
    @entries_foldl_insert empty row.entries row.ascending
  obtain ⟨entries, hascending⟩ := row
  generalize ofList entries = other at hentries
  cases other
  cases hentries
  rfl

theorem mem_entries_ofList {entries : List (String × Cell)} {e : String × Cell}
    (h : e ∈ (ofList entries).entries) : e ∈ entries := by
  -- A row that is filled up holds what it held and what is put into it.
  suffices hall : ∀ (entries : List (String × Cell)) (row : Row),
      e ∈ (entries.foldl (fun row e => row.insert e.1 e.2) row).entries →
      e ∈ row.entries ∨ e ∈ entries from (hall entries empty h).resolve_left List.not_mem_nil
  intro entries
  induction entries with
  | nil => exact fun row h => .inl h
  | cons first rest ih =>
    intro row h
    rcases ih _ h with h | h
    · rcases mem_insertEntry h with rfl | h
      · exact .inr List.mem_cons_self
      · exact .inl h
    · exact .inr (List.mem_cons_of_mem _ h)

theorem faithful [Codec] [Codec.IsLawful] : Faithful Row.ofDocument
    Row.toDocument fun row => ∀ e ∈ row.entries, e.2.IsWritable where
  yields {d row} hd h := by
    obtain ⟨entries, hentries, rfl⟩ := map_eq_ok.mp h
    obtain ⟨fields, rfl, hfields⟩ := (Codec.IsLawful.entries_eq_ok hd).mp hentries
    cases hd with
    | record hjson =>
      intro e he
      obtain ⟨field, hfield, hentry⟩ := exists_of_mem_mapM hfields (mem_entries_ofList he)
      obtain ⟨cell, hcell, rfl⟩ := map_eq_ok.mp hentry
      exact Cell.faithful.yields (hjson field hfield) hcell
  writable {row} hrow := by
    refine .record fun field hfield => ?_
    obtain ⟨e, he, rfl⟩ := List.mem_map.mp hfield
    exact Cell.faithful.writable (hrow e he)
  reads {row} hrow := by
    have hd : row.toDocument.IsJson := .record fun field hfield => by
      obtain ⟨e, he, rfl⟩ := List.mem_map.mp hfield
      exact (Cell.faithful.writable (hrow e he)).isJson
    refine map_eq_ok.mpr ⟨row.entries, ?_, ofList_entries row⟩
    refine (Codec.IsLawful.entries_eq_ok hd).mpr ⟨_, rfl, mapM_map_eq_ok fun e he => ?_⟩
    exact map_eq_ok.mpr ⟨e.2, Cell.faithful.reads (hrow e he), rfl⟩

end Row

theorem Dataset.faithful [Codec] [Codec.IsLawful] : Faithful Dataset.ofDocument Dataset.toDocument
    fun rows => ∀ row ∈ rows, ∀ e ∈ row.entries, e.2.IsWritable :=
  Row.faithful.list

end Tabular
