import Tabular.Proofs.Text.Classes

/-!
# Trimmed texts

Trimming a text twice is trimming it once, and a text that does not begin or end with white
space is trimmed. Letters and digits are no white space.
-/
namespace Tabular.Text

theorem wordRuns_blankCodes :
    ∀ n ∈ blankCodes, 128 ≤ n → inRuns wordRuns (n - 128) = false := by decide +kernel

/-- White space is neither a letter nor a digit. -/
theorem isAlphanumeric_of_isBlank {c : Char} (h : isBlank c = true) :
    isAlphanumeric c = false := by
  have hc := mem_blankCodes h
  unfold isAlphanumeric
  split
  · rw [Bool.eq_false_iff]
    intro hword
    simp only [Bool.or_eq_true, isAsciiLetter_iff, Bool.and_eq_true, decide_eq_true_eq,
      Char.le_def, UInt32.le_iff_toNat_le] at hword
    change _ ∨ (48 ≤ c.toNat ∧ c.toNat ≤ 57) at hword
    simp only [blankCodes, List.mem_cons, List.not_mem_nil, or_false] at hc
    omega
  · rename_i hge
    exact wordRuns_blankCodes _ hc (by omega)

/-! ## Trimmed texts -/

theorem dropWhile_eq_self {p : Char → Bool} {cs : List Char} (h : ∀ c ∈ cs.head?, p c = false) :
    cs.dropWhile p = cs := by
  cases cs with
  | nil => rfl
  | cons c rest => simp [h c rfl]

/-- A text without white space at its ends is trimmed. -/
theorem trimChars_eq_self {cs : List Char} (hfirst : ∀ c ∈ cs.head?, isBlank c = false)
    (hlast : ∀ c ∈ cs.getLast?, isBlank c = false) : trimChars cs = cs := by
  rw [trimChars, dropWhile_eq_self hfirst, dropWhile_eq_self (by simpa using hlast),
    List.reverse_reverse]

theorem head_dropWhile {p : Char → Bool} (cs : List Char) :
    ∀ c ∈ (cs.dropWhile p).head?, p c = false := by
  intro c hc
  have h := List.head?_dropWhile_not p cs
  rw [Option.mem_def.mp hc] at h
  exact h

/-- What is left of a text has no white space at its ends. -/
theorem trimChars_ends (cs : List Char) : (∀ c ∈ (trimChars cs).head?, isBlank c = false) ∧
    ∀ c ∈ (trimChars cs).getLast?, isBlank c = false := by
  constructor
  · -- What is left begins as the text does behind its leading white space.
    intro c hc
    have hprefix : trimChars cs <+: cs.dropWhile isBlank := by
      rw [trimChars, ← List.reverse_suffix, List.reverse_reverse]
      exact List.dropWhile_suffix _
    obtain ⟨rest, hrest⟩ := hprefix
    cases ht : trimChars cs with
    | nil => simp [ht] at hc
    | cons d run =>
      obtain rfl : d = c := by simpa [ht] using hc
      exact head_dropWhile cs d (by simp [← hrest, ht])
  · intro c hc
    rw [trimChars, List.getLast?_reverse] at hc
    exact head_dropWhile _ c hc

theorem trimChars_trimChars (cs : List Char) : trimChars (trimChars cs) = trimChars cs :=
  trimChars_eq_self (trimChars_ends cs).1 (trimChars_ends cs).2

/-! ## White space around a text -/

/-- Trimming takes white space only. -/
theorem exists_blanks (cs : List Char) : ∃ before after, (∀ c ∈ before, isBlank c) ∧
    (∀ c ∈ after, isBlank c) ∧ cs = before ++ (trimChars cs ++ after) := by
  refine ⟨cs.takeWhile isBlank, ((cs.dropWhile isBlank).reverse.takeWhile isBlank).reverse,
    fun c hc => List.mem_takeWhile_imp hc,
    fun c hc => List.mem_takeWhile_imp (List.mem_reverse.mp hc), ?_⟩
  rw [trimChars, ← List.reverse_append, List.takeWhile_append_dropWhile, List.reverse_reverse,
    List.takeWhile_append_dropWhile]

/-- White space around a text is trimmed away, and no matter where the text begins. -/
theorem trimChars_append_blanks {before cs after : List Char} (hbefore : ∀ c ∈ before, isBlank c)
    (hafter : ∀ c ∈ after, isBlank c) : trimChars (before ++ (cs ++ after)) = trimChars cs := by
  by_cases hblank : ∀ c ∈ cs, isBlank c
  · have hall : ∀ c ∈ before ++ (cs ++ after), isBlank c := by
      simp only [List.mem_append]
      rintro c (hc | hc | hc)
      · exact hbefore c hc
      · exact hblank c hc
      · exact hafter c hc
    rw [trimChars_eq_nil.mpr hall, trimChars_eq_nil.mpr hblank]
  · have hleft : (cs.dropWhile isBlank).isEmpty = false := by
      rw [List.isEmpty_eq_false_iff]
      exact mt List.dropWhile_eq_nil_iff.mp hblank
    have hafter' : ∀ c ∈ after.reverse, isBlank c := fun c hc => hafter c (List.mem_reverse.mp hc)
    rw [trimChars, List.dropWhile_append_of_pos hbefore, List.dropWhile_append, hleft,
      if_neg Bool.false_ne_true, List.reverse_append, List.dropWhile_append_of_pos hafter',
      trimChars]

end Tabular.Text
