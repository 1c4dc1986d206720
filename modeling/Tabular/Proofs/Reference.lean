import Tabular.Chart
import Tabular.Proofs.Text.Trimming

/-!
# Columns that are named exactly

A reference is trimmed before it is looked up, and the columns are not. So a column's own name
means that column if white space neither leads nor trails it, and never otherwise: all spellings
that are tried are shorter in lower case (`resolve_exact`).
-/
namespace Tabular

/-! ## Lengths in lower case -/

namespace Text

/-- How many characters the lower case of a character has. -/
def lowerLength (c : Char) : Nat := if c = 'Σ' then 1 else (lowerChar c).length

theorem length_lowerFrom (before cs : List Char) :
    (lowerFrom before cs).length = (cs.map lowerLength).sum := by
  induction cs generalizing before with
  | nil => rfl
  | cons c rest ih =>
    rw [lowerFrom, List.length_append, ih, List.map_cons, List.sum_cons, lowerLength]
    split
    · split <;> rfl
    · rfl

theorem mapCase_ne_nil {special : List (Nat × List Nat)} (h : ∀ p ∈ special, p.2 ≠ [])
    (runs : List CaseRun) (c : Char) : mapCase special runs c ≠ [] := by
  unfold mapCase
  split
  · rename_i ns hns
    obtain ⟨l₁, l₂, rfl, -⟩ := List.lookup_eq_some_iff.mp hns
    simpa using h (c.toNat, ns) (by simp)
  · split <;> exact List.cons_ne_nil _ _

theorem lowerLength_pos (c : Char) : 0 < lowerLength c := by
  unfold lowerLength lowerChar
  split
  · exact Nat.one_pos
  split
  · exact Nat.one_pos
  · exact List.length_pos_iff.mpr (mapCase_ne_nil (by decide) _ _)

/-- A text that lacks characters of another one is shorter in lower case by as many at least. -/
theorem lowerLength_of_sublist {cs ds : List Char} (h : cs.Sublist ds) :
    (cs.map lowerLength).sum + ds.length ≤ (ds.map lowerLength).sum + cs.length := by
  induction h with
  | slnil => exact Nat.le_refl _
  | cons c _ ih =>
    have := lowerLength_pos c
    simp only [List.map_cons, List.sum_cons, List.length_cons]
    omega
  | cons_cons c _ ih =>
    simp only [List.map_cons, List.sum_cons, List.length_cons]
    omega

theorem trimChars_sublist (cs : List Char) : (trimChars cs).Sublist cs := by
  have htrailing := (List.dropWhile_sublist isBlank (l := (cs.dropWhile isBlank).reverse)).reverse
  rw [List.reverse_reverse] at htrailing
  exact htrailing.trans (List.dropWhile_sublist isBlank)

/-- A text whose lower case is not longer than that of its trimmed form is trimmed. -/
theorem trim_eq_self {s : String} (h : (lower s).toList.length = (lower (trim s)).toList.length) :
    trim s = s := by
  rw [lower, lower, String.toList_ofList, String.toList_ofList, length_lowerFrom, length_lowerFrom,
    trim, String.toList_ofList] at h
  have hshorter := lowerLength_of_sublist (trimChars_sublist s.toList)
  have heq := (trimChars_sublist s.toList).eq_of_length_le (by omega)
  rw [trim, heq, String.ofList_toList]

theorem length_lower (s : String) :
    (lower s).toList.length = (s.toList.map lowerLength).sum := by
  rw [lower, String.toList_ofList, length_lowerFrom]

/-- Spaces and underscores are one character in lower case too. -/
theorem length_lower_replaceChar {old new : Char} (h : lowerLength old = lowerLength new)
    (s : String) : (lower (replaceChar old new s)).toList.length = (lower s).toList.length := by
  rw [length_lower, length_lower, replaceChar, String.toList_ofList, List.map_map]
  congr 2
  funext c
  by_cases hc : c = old
  · rw [Function.comp_apply, if_pos hc, hc, h]
  · rw [Function.comp_apply, if_neg hc]

theorem lower_eq_empty {s : String} (h : (lower s).toList.length = 0) : s = "" := by
  rw [length_lower] at h
  cases hs : s.toList with
  | nil => exact String.toList_eq_nil_iff.mp hs
  | cons c rest =>
    have := lowerLength_pos c
    rw [hs, List.map_cons, List.sum_cons] at h
    omega

end Text

/-! ## References -/

section
variable {reference column name : String} {available : List String}

theorem findSpelling_self (h : column ∈ available) :
    findSpelling column available = some column := by
  have hsome : (available.find? (· == column)).isSome :=
    List.find?_isSome.mpr ⟨column, h, beq_self_eq_true _⟩
  obtain ⟨found, hfound⟩ := Option.isSome_iff_exists.mp hsome
  have heq := List.find?_some hfound
  rw [findSpelling, hfound, beq_iff_eq.mp heq, Option.some_or]

theorem findSpelling_eq_some (h : findSpelling name available = some column) :
    column ∈ available ∧ Text.lower column = Text.lower name := by
  rw [findSpelling, Option.or_eq_some_iff] at h
  rcases h with h | ⟨-, h⟩
  · have heq := List.find?_some h
    exact ⟨List.mem_of_find?_eq_some h, congrArg _ (beq_iff_eq.mp heq)⟩
  · have heq := List.find?_some h
    exact ⟨List.mem_of_find?_eq_some h, beq_iff_eq.mp heq⟩

/-- What a reference is looked up as, one after the other. -/
def spellings (reference : String) : List String :=
  [Text.trim reference, Text.replaceChar ' ' '_' (Text.trim reference),
    Text.replaceChar '_' ' ' (Text.trim reference)]

/-- A reference means a column that there is, and that one of its spellings is but for letter
case. -/
theorem resolve_eq_some (h : resolve reference available = some column) :
    Text.trim reference ≠ "" ∧ column ∈ available ∧
      ∃ name ∈ spellings reference, Text.lower column = Text.lower name := by
  unfold resolve at h
  dsimp only at h
  split at h
  · cases h
  · rename_i hblank
    refine ⟨by simpa using hblank, ?_⟩
    rw [Option.or_eq_some_iff, Option.or_eq_some_iff] at h
    rcases h with h | ⟨-, h | ⟨-, h⟩⟩
    · obtain ⟨hmem, hlower⟩ := findSpelling_eq_some h
      exact ⟨hmem, _, by simp [spellings], hlower⟩
    · obtain ⟨hmem, hlower⟩ := findSpelling_eq_some h
      exact ⟨hmem, _, by simp [spellings], hlower⟩
    · obtain ⟨hmem, hlower⟩ := findSpelling_eq_some h
      exact ⟨hmem, _, by simp [spellings], hlower⟩

/-- A reference means a column that there is. -/
theorem mem_of_resolve (h : resolve reference available = some column) : column ∈ available :=
  (resolve_eq_some h).2.1

/-- All spellings are as long as the trimmed reference in lower case. -/
theorem length_lower_of_mem_spellings (h : name ∈ spellings reference) :
    (Text.lower name).toList.length = (Text.lower (Text.trim reference)).toList.length := by
  simp only [spellings, List.mem_cons, List.not_mem_nil, or_false] at h
  rcases h with rfl | rfl | rfl
  · rfl
  · exact Text.length_lower_replaceChar (by decide) _
  · exact Text.length_lower_replaceChar (by decide) _

theorem ne_empty_of_resolve (h : resolve reference available = some column) : column ≠ "" := by
  rintro rfl
  obtain ⟨hblank, -, name, hname, hlower⟩ := resolve_eq_some h
  refine hblank (Text.lower_eq_empty ?_)
  rw [← length_lower_of_mem_spellings hname, ← hlower]
  rfl

/-- A column's name means that column exactly if it is trimmed. -/
theorem resolve_self_iff (hmem : column ∈ available) (hne : column ≠ "") :
    resolve column available = some column ↔ Text.trim column = column := by
  constructor
  · intro h
    obtain ⟨-, -, name, hname, hlower⟩ := resolve_eq_some h
    have hlength := length_lower_of_mem_spellings hname
    rw [← hlower] at hlength
    exact Text.trim_eq_self hlength
  · intro htrim
    have hname : column.isEmpty = false := by simpa using hne
    simp only [resolve, htrim, hname, findSpelling_self hmem, Option.some_or]
    rfl

end

/-- A column's own name means that column, among whatever others, exactly if it is trimmed. So
it does in mappings, and so does a name that a reference has been resolved to. -/
theorem resolve_exact (rows : Dataset) (available : List String) (column reference : String) :
    (column ∈ available → Text.isBlankText column = false →
      (resolve column available = some column ↔ Text.trim column = column)) ∧
    (column ∈ columns rows → Text.isBlankText column = false →
      (Chart.resolveIn (columns rows) column = .ok column ↔ Text.trim column = column)) ∧
    (resolve reference available = some column →
      (resolve column available = some column ↔ Text.trim column = column)) := by
  have hne : Text.isBlankText column = false → column ≠ "" := by
    rintro hblank rfl
    cases hblank
  refine ⟨?_, ?_, ?_⟩
  · intro hmem hblank
    exact resolve_self_iff hmem (hne hblank)
  · intro hmem hblank
    exact require_eq_ok.trans (resolve_self_iff hmem (hne hblank))
  · intro h
    exact resolve_self_iff (mem_of_resolve h) (ne_empty_of_resolve h)

/-- A name among columns that differ from it in letter case or an underscore. -/
theorem resolve_exact_beside_lookalikes :
    let rows := [Row.ofList [("unit price", .null)],
      Row.ofList [("Unit_Price", .null), ("Unit Price", .number 2.0)]]
    ("Unit Price" ∈ columns rows ∧ Text.isBlankText "Unit Price" = false ∧
      resolve "Unit Price" (columns rows) = some "Unit Price" ∧
      Chart.resolveIn (columns rows) "Unit Price" = .ok "Unit Price") ∧
    resolve " UNIT_PRICE" (columns rows) = some "Unit_Price" ∧
      resolve "Unit_Price" (columns rows) = some "Unit_Price" := by
  intro rows
  obtain ⟨hexact, hmapping, -⟩ := resolve_exact rows (columns rows) "Unit Price" ""
  obtain ⟨-, -, hagain⟩ := resolve_exact rows (columns rows) "Unit_Price" " UNIT_PRICE"
  have hmem : "Unit Price" ∈ columns rows := by decide +kernel
  have hblank : Text.isBlankText "Unit Price" = false := by decide
  have htrim : Text.trim "Unit Price" = "Unit Price" := by decide +kernel
  have hresolved : resolve " UNIT_PRICE" (columns rows) = some "Unit_Price" := by decide +kernel
  exact ⟨⟨hmem, hblank, (hexact hmem hblank).mpr htrim, (hmapping hmem hblank).mpr htrim⟩,
    hresolved, (hagain hresolved).mpr (by decide +kernel)⟩

/-- A name with white space in front is no name of its own column: it is trimmed, and then it is
another column's name but for letter case. -/
theorem not_resolve_self_of_padded :
    ¬ ∀ (available : List String) (column : String), column ∈ available →
      Text.isBlankText column = false → resolve column available = some column := by
  intro hall
  have hpadded := hall [" Total", "total"] " Total" (by decide) (by decide)
  have hother : resolve " Total" [" Total", "total"] = some "total" := by decide +kernel
  exact absurd (hpadded.symm.trans hother) (by decide)

end Tabular
