import Mathlib
import Tabular.Text.Case

/-!
# Character classes apart

No letter is white space, in ASCII or in the tables, and white space is all that
trimming takes away.
-/
namespace Tabular.Text

/-- The codes of white space. -/
def blankCodes : List Nat :=
  [9, 10, 11, 12, 13, 32, 0x85, 0xa0, 0x1680, 0x2000, 0x2001, 0x2002, 0x2003, 0x2004, 0x2005,
    0x2006, 0x2007, 0x2008, 0x2009, 0x200a, 0x2028, 0x2029, 0x202f, 0x205f, 0x3000]

theorem mem_blankCodes {c : Char} (h : isBlank c = true) : c.toNat ∈ blankCodes := by
  simp only [isBlank, Bool.or_eq_true, Bool.and_eq_true, decide_eq_true_eq, beq_iff_eq] at h
  simp only [blankCodes, List.mem_cons, List.not_mem_nil, or_false]
  omega

theorem letterRuns_blankCodes :
    ∀ n ∈ blankCodes, 128 ≤ n → inRuns letterRuns (n - 128) = false := by decide +kernel

/-- The code of a letter of ASCII. -/
theorem isAsciiLetter_iff {c : Char} : isAsciiLetter c = true ↔
    (97 ≤ c.toNat ∧ c.toNat ≤ 122) ∨ (65 ≤ c.toNat ∧ c.toNat ≤ 90) := by
  simp only [isAsciiLetter, Bool.or_eq_true, Bool.and_eq_true, decide_eq_true_eq, Char.le_def,
    UInt32.le_iff_toNat_le]
  rfl

/-- Only a letter of ASCII has one for its lower case. -/
theorem isAsciiLetter_of_toLower {c : Char} (h : isAsciiLetter c.toLower = true) :
    isAsciiLetter c = true := by
  by_cases hupper : 65 ≤ c.toNat ∧ c.toNat ≤ 90
  · exact isAsciiLetter_iff.mpr (.inr hupper)
  · have hsame : c.toLower = c := by
      rw [Char.toLower, dif_neg]
      simp only [ge_iff_le, UInt32.le_iff_toNat_le]
      exact hupper
    rwa [hsame] at h

theorem toLower_ne {c d : Char} (hc : isAsciiLetter c = false) (hd : isAsciiLetter d = true) :
    c.toLower ≠ d := by
  rintro rfl
  rw [isAsciiLetter_of_toLower hd] at hc
  cases hc

theorem isLetter_of_isBlank {c : Char} (h : isBlank c = true) : isLetter c = false := by
  have hc := mem_blankCodes h
  unfold isLetter
  split
  · rename_i hlt
    rw [Bool.eq_false_iff, Ne, isAsciiLetter_iff]
    simp only [blankCodes, List.mem_cons, List.not_mem_nil, or_false] at hc
    omega
  · rename_i hge
    exact letterRuns_blankCodes _ hc (by omega)

/-- A text trims to nothing only if it is white space. -/
theorem trimChars_eq_nil {cs : List Char} :
    trimChars cs = [] ↔ ∀ c ∈ cs, isBlank c = true := by
  simp only [trimChars, List.reverse_eq_nil_iff, List.dropWhile_eq_nil_iff, List.mem_reverse]
  constructor
  · intro h c hc
    rw [← @List.takeWhile_append_dropWhile _ isBlank cs] at hc
    rcases List.mem_append.mp hc with hc | hc
    · exact List.mem_takeWhile_imp hc
    · exact h c hc
  · exact fun h c hc => h c (List.dropWhile_subset _ hc)

theorem mem_of_mem_trimChars {cs : List Char} {c : Char} (h : c ∈ trimChars cs) : c ∈ cs := by
  simp only [trimChars, List.mem_reverse] at h
  exact List.dropWhile_subset _ (List.mem_reverse.mp (List.dropWhile_subset _ h))

/-! ## Runs -/

/-- A run that nothing continues is what is taken off the front. -/
theorem takeWhile_run {p : Char → Bool} {run after : List Char} (h : ∀ d ∈ run, p d)
    (he : ∀ d ∈ after.head?, p d = false) : (run ++ after).takeWhile p = run := by
  rw [List.takeWhile_append_of_pos h]
  cases after with
  | nil => simp
  | cons d rest => simp [he d rfl]

/-- Texts before their first separators are the same if the whole is, and so is what follows. -/
theorem append_separator_inj {separator : Char} {a b after after' : List Char}
    (ha : separator ∉ a) (hb : separator ∉ b)
    (h : a ++ separator :: after = b ++ separator :: after') : a = b ∧ after = after' := by
  have hrun : ∀ {run : List Char} (rest : List Char), separator ∉ run →
      (run ++ separator :: rest).takeWhile (· != separator) = run := fun rest hrun =>
    takeWhile_run (fun c hc => by simpa using fun he : c = separator => hrun (he ▸ hc)) (by simp)
  have hab : a = b := by rw [← hrun after ha, h, hrun after' hb]
  subst hab
  exact ⟨rfl, (List.cons.inj (List.append_cancel_left h)).2⟩

/-- What is behind a run does not continue it. -/
theorem head_drop_takeWhile {p : Char → Bool} (cs : List Char) :
    ∀ d ∈ (cs.drop (cs.takeWhile p).length).head?, p d = false := by
  induction cs with
  | nil => simp
  | cons c rest ih =>
    by_cases hp : p c
    · simpa [hp] using ih
    · simp [hp]

theorem take_takeWhile (p : Char → Bool) (cs : List Char) :
    cs.take (cs.takeWhile p).length = cs.takeWhile p :=
  (List.prefix_iff_eq_take.mp (List.takeWhile_prefix p)).symm

/-! ## Braces -/

theorem toNat_of_ofNat_eq {n : Nat} {c : Char} (h : Char.ofNat n = c) (hc : c ≠ '\x00') :
    n = c.toNat := by
  subst h
  by_cases hn : n.isValidChar
  · rw [Char.ofNat, dif_pos hn]
    rfl
  · rw [Char.ofNat, dif_neg hn] at hc
    exact absurd rfl hc

/-- An opening or a closing brace. -/
def IsBrace (c : Char) : Prop := c = '\x7b' ∨ c = '\x7d'

/-- A text in which there is no brace. -/
def Braceless (s : String) : Prop := ∀ c ∈ s.toList, ¬ IsBrace c

/-- Where the runs of the lower-case table end: none reaches a brace. -/
theorem lowerRuns_brace : ∀ r ∈ lowerRuns, 0 < r.step ∧
    (125 < r.target ∨ r.target + r.count * r.step ≤ 123) := by decide +kernel

theorem map?_ne_brace {r : CaseRun} (hr : r ∈ lowerRuns) {n m : Nat} (h : r.map? n = some m) :
    m ≠ 123 ∧ m ≠ 125 := by
  obtain ⟨hstep, htarget⟩ := lowerRuns_brace r hr
  unfold CaseRun.map? at h
  split at h
  · rename_i hmap
    obtain ⟨-, -, hcount⟩ := hmap
    have hlt : n - r.first < r.count * r.step := (Nat.div_lt_iff_lt_mul hstep).mp hcount
    cases h
    omega
  · cases h

section
variable {b : Char} (hb : IsBrace b)
include hb

theorem brace_mem_lowerChar {c : Char} : b ∈ lowerChar c ↔ c = b := by
  constructor
  · intro h
    unfold lowerChar at h
    split at h
    · rename_i hlt
      have hascii : ∀ n < 128, IsBrace (Char.ofNat n).toLower →
          (Char.ofNat n).toLower = Char.ofNat n := by
        unfold IsBrace
        decide
      have hc := hascii c.toNat hlt
      rw [Char.ofNat_toNat, ← List.mem_singleton.mp h] at hc
      exact (hc hb).symm
    · unfold mapCase at h
      split at h
      · rename_i ns hns
        simp only [lowerSpecial, List.lookup_cons, List.lookup_nil] at hns
        split at hns
        · cases hns
          rcases hb with rfl | rfl <;> exact absurd h (by decide)
        · cases hns
      · split at h
        · rename_i n hn
          obtain ⟨r, hr, hmap⟩ := List.exists_of_findSome?_eq_some hn
          obtain ⟨hopening, hclosing⟩ := map?_ne_brace hr hmap
          rcases hb with rfl | rfl
          · exact absurd (toNat_of_ofNat_eq (List.mem_singleton.mp h).symm (by decide)) hopening
          · exact absurd (toNat_of_ofNat_eq (List.mem_singleton.mp h).symm (by decide)) hclosing
        · exact (List.mem_singleton.mp h).symm
  · rintro rfl
    rcases hb with rfl | rfl <;> decide

theorem brace_mem_lowerFrom {before cs : List Char} : b ∈ lowerFrom before cs ↔ b ∈ cs := by
  induction cs generalizing before with
  | nil => rfl
  | cons c rest ih =>
    simp only [lowerFrom, List.mem_append, ih, List.mem_cons]
    refine or_congr_left ?_
    split
    · rename_i hc
      subst hc
      rcases hb with rfl | rfl <;> split <;> decide
    · rw [brace_mem_lowerChar hb, eq_comm]

/-- Letter case keeps braces and makes none. -/
theorem brace_mem_lower {s : String} : b ∈ (lower s).toList ↔ b ∈ s.toList := by
  rw [lower, String.toList_ofList, brace_mem_lowerFrom hb]

end

/-- Texts that are equal but for letter case have braces together. -/
theorem Braceless.of_lower_eq {s t : String} (h : Braceless s) (he : lower t = lower s) :
    Braceless t := by
  intro c hc hb
  refine h c ?_ hb
  rw [← brace_mem_lower hb, ← he, brace_mem_lower hb]
  exact hc

theorem Braceless.trim {s : String} (h : Braceless s) : Braceless (trim s) := by
  intro c hc
  rw [Text.trim, String.toList_ofList] at hc
  exact h c (mem_of_mem_trimChars hc)

theorem Braceless.replaceChar {s : String} (h : Braceless s) {old new : Char}
    (hnew : ¬ IsBrace new) : Braceless (replaceChar old new s) := by
  intro c hc
  rw [Text.replaceChar, String.toList_ofList] at hc
  obtain ⟨d, hd, rfl⟩ := List.mem_map.mp hc
  split
  · exact hnew
  · exact h d hd

end Tabular.Text
