import Tabular.Proofs.Formula.Language

/-!
# Texts that are no lexemes

`Misread` says why no lexeme stands at the front of a text, and `StopsAt` where a text stops
being cut into lexemes. The scanner fails at just that place for just that cause
(`scanFrom_eq_error`).
-/
namespace Tabular.Formula

/-! ## Texts without a lexeme -/

/-- `Misread text cause`: no lexeme can be read off the front of `text`, and why. Numbers and
names are misread as a whole, as far to the right as they reach. -/
inductive Misread : List Char → ScanError.Cause → Prop
  | unexpected {c tail} : Text.isBlank c = false → isSingle c = false → isNumberChar c = false →
      isNameStart c = false → Misread (c :: tail) (.unexpectedCharacter c)
  | number {c run after} : (∀ d ∈ c :: run, isNumberChar d) →
      (∀ d ∈ after.head?, isNumberChar d = false) →
      (∀ x, Number.read? (String.ofList (c :: run)) = some x → x.isFinite = false) →
      Misread (c :: (run ++ after)) (.invalidNumber (String.ofList (c :: run)))
  | name {c run after} : isNameStart c → (∀ d ∈ run, isNameChar d) → after.head? = some '(' →
      Text.upper (String.ofList (c :: run)) ∉ functionNames →
      Misread (c :: (run ++ after)) (.unknownFunction (String.ofList (c :: run)))
  | unclosed {tail} : ']' ∉ tail → Misread ('[' :: tail) .unclosedBracket
  | blank {inner after} : ']' ∉ inner → (∀ c ∈ inner, Text.isBlank c) →
      Misread ('[' :: (inner ++ ']' :: after)) .emptyColumnReference

/-- A run and the rest behind it, which nothing of the run's class begins. -/
theorem exists_run (p : Char → Bool) (cs : List Char) :
    ∃ after, cs = cs.takeWhile p ++ after ∧ (∀ d ∈ after.head?, p d = false) ∧
      cs.drop (cs.takeWhile p).length = after := by
  refine ⟨_, ?_, Text.head_drop_takeWhile cs, rfl⟩
  conv_lhs => rw [← List.take_append_drop (cs.takeWhile p).length cs, Text.take_takeWhile]

theorem misread_of_scanNumber {c : Char} {tail : List Char} {cause : ScanError.Cause}
    (hc : isNumberChar c = true) (h : scanNumber c tail = .error cause) :
    Misread (c :: tail) cause := by
  obtain ⟨after, htail, hend, -⟩ := exists_run isNumberChar tail
  have hrun : ∀ d ∈ c :: tail.takeWhile isNumberChar, isNumberChar d := by
    intro d hd
    rcases List.mem_cons.mp hd with rfl | hd
    · exact hc
    · exact List.mem_takeWhile_imp hd
  have hread := read?_numberChars hrun
  simp only [scanNumber] at h
  generalize tail.takeWhile isNumberChar = run at *
  subst htail
  split at h
  · rename_i d hd
    split at h
    · cases h
    · rename_i hinfinite
      cases h
      refine .number hrun hend ?_
      intro x hx
      rw [hread, hd, Option.map_some, Option.some.injEq] at hx
      subst hx
      simpa using hinfinite
  · rename_i hnone
    cases h
    refine .number hrun hend ?_
    intro x hx
    rw [hread, hnone] at hx
    cases hx

theorem misread_of_scanBracket {tail : List Char} {cause : ScanError.Cause}
    (h : scanBracket tail = .error cause) : Misread ('[' :: tail) cause := by
  obtain ⟨after, htail, hend, -⟩ := exists_run (· != ']') tail
  have hin : ']' ∉ tail.takeWhile (· != ']') := fun hm => by
    simpa using List.mem_takeWhile_imp hm
  simp only [scanBracket] at h
  generalize tail.takeWhile (· != ']') = inner at *
  subst htail
  split at h
  · rename_i hlen
    cases h
    have hnil : after = [] := by simpa using hlen
    subst hnil
    simpa using Misread.unclosed hin
  · rename_i hlen
    split at h
    · rename_i hempty
      cases h
      cases after with
      | nil => simp at hlen
      | cons d rest =>
        obtain rfl : d = ']' := by simpa using hend
        exact .blank hin (Text.trimChars_eq_nil.mp (List.isEmpty_iff.mp hempty))
    · cases h

theorem misread_of_scanName {c : Char} {tail : List Char} {cause : ScanError.Cause}
    (hc : isNameStart c = true) (h : scanName c tail = .error cause) :
    Misread (c :: tail) cause := by
  obtain ⟨after, htail, -, hdrop⟩ := exists_run isNameChar tail
  have hrun : ∀ d ∈ tail.takeWhile isNameChar, isNameChar d :=
    fun d hd => List.mem_takeWhile_imp hd
  simp only [scanName, hdrop] at h
  generalize tail.takeWhile isNameChar = run at *
  subst htail
  split at h
  · rename_i hparen
    split at h
    · cases h
    · rename_i hunknown
      cases h
      exact .name hc hrun hparen (fun hm => hunknown (List.contains_iff_mem.mpr hm))
  · cases h

/-- What is not read off the front of a text is misread. -/
theorem misread_of_scanLexeme {c : Char} {tail : List Char} {cause : ScanError.Cause}
    (hb : Text.isBlank c = false) (h : scanLexeme c tail = .error cause) :
    Misread (c :: tail) cause := by
  by_cases hs : isSingle c = true
  · unfold scanLexeme at h
    split at h
    · cases h
    split at h
    · cases h
    rename_i hparen hoperator
    have hm := List.contains_iff_mem.mp hs
    have hbracket : c = '[' := by
      simp only [isOperatorChar_iff] at hoperator
      simp only [List.mem_cons, List.not_mem_nil, or_false] at hm hoperator
      grind
    rw [if_pos hbracket] at h
    exact hbracket ▸ misread_of_scanBracket h
  · have hs' : isSingle c = false := by simpa using hs
    rw [scanLexeme_of_not_single hs'] at h
    split at h
    · rename_i hnumber
      exact misread_of_scanNumber hnumber h
    · rename_i hnumber
      split at h
      · rename_i hname
        exact misread_of_scanName hname h
      · rename_i hname
        cases h
        exact .unexpected hb hs' (by simpa using hnumber) (by simpa using hname)

/-- A misread text begins with a character that is not white space, and the scanner reads
nothing off its front. -/
theorem Misread.scanLexeme {text : List Char} {cause : ScanError.Cause} (h : Misread text cause) :
    ∃ c tail, text = c :: tail ∧ Text.isBlank c = false ∧
      Formula.scanLexeme c tail = .error cause := by
  cases h with
  | @unexpected c tail hb hs hnumber hname =>
    refine ⟨c, tail, rfl, hb, ?_⟩
    simp [scanLexeme_of_not_single hs, hnumber, hname]
  | @number c run after hrun hend hinfinite =>
    have hc := hrun c List.mem_cons_self
    have htake := Text.takeWhile_run (fun d hd => hrun d (List.mem_cons_of_mem _ hd)) hend
    refine ⟨c, run ++ after, rfl, isBlank_of_isNumberChar hc, ?_⟩
    rw [scanLexeme_of_not_single (isSingle_of_isNumberChar hc), if_pos hc]
    rw [read?_numberChars hrun] at hinfinite
    simp only [scanNumber, htake]
    split
    · rename_i d hd
      simp [hinfinite d.toFloat (by simp [hd])]
    · rfl
  | @name c run after hc hrun hparen hunknown =>
    have hn : isNumberChar c = false := Bool.eq_false_iff.mpr fun hn => by
      simp [isNameStart_of_isNumberChar hn] at hc
    have hend : ∀ d ∈ after.head?, isNameChar d = false := by
      intro d hd
      obtain rfl : '(' = d := by simpa [hparen] using hd
      decide
    refine ⟨c, run ++ after, rfl, isBlank_of_isNameStart hc, ?_⟩
    simp [scanLexeme_of_not_single (isSingle_of_isNameStart hc), hn, hc, scanName,
      Text.takeWhile_run hrun hend, hparen, hunknown, -String.ofList_cons]
  | @unclosed tail hin =>
    have htake : tail.takeWhile (· != ']') = tail :=
      List.takeWhile_eq_self_iff.mpr fun d hd => by simpa using fun he : d = ']' => hin (he ▸ hd)
    exact ⟨'[', tail, rfl, by decide, by simp [Formula.scanLexeme, isOperatorChar, scanBracket, htake]⟩
  | @blank inner after hin hblank =>
    have htake : (inner ++ ']' :: after).takeWhile (· != ']') = inner :=
      Text.takeWhile_run (fun d hd => by simpa using fun he : d = ']' => hin (he ▸ hd)) (by simp)
    refine ⟨'[', inner ++ ']' :: after, rfl, by decide, ?_⟩
    simp [Formula.scanLexeme, isOperatorChar, scanBracket, htake, Text.trimChars_eq_nil.mpr hblank]

/-! ## The leftmost lexeme that cannot be read -/

/-- `StopsAt position source e`: the source, whose first character is at `position`, is cut
into lexemes up to a text that is misread, where the error is. -/
inductive StopsAt : Nat → List Char → ScanError → Prop
  | here {position gap text cause} : (∀ c ∈ gap, Text.isBlank c) → Misread text cause →
      StopsAt position (gap ++ text) ⟨cause, position + gap.length⟩
  | later {position gap text after kind value e} : (∀ c ∈ gap, Text.isBlank c) →
      Lexes text after kind value → StopsAt (position + gap.length + text.length) after e →
      StopsAt position (gap ++ (text ++ after)) e

theorem StopsAt.cons_blank {c : Char} (hc : Text.isBlank c = true) {position : Nat}
    {source : List Char} {e : ScanError} (h : StopsAt (position + 1) source e) :
    StopsAt position (c :: source) e := by
  have hcons : ∀ {gap : List Char}, (∀ d ∈ gap, Text.isBlank d) →
      ∀ d ∈ c :: gap, Text.isBlank d := fun hgap d hd => by
    rcases List.mem_cons.mp hd with rfl | hd
    · exact hc
    · exact hgap d hd
  have hlen : ∀ gap : List Char, position + 1 + gap.length = position + (c :: gap).length := by
    intro gap
    simp only [List.length_cons]
    omega
  cases h with
  | here hgap hm =>
    rw [hlen]
    exact .here (hcons hgap) hm
  | later hgap hl hrest =>
    rw [hlen] at hrest
    exact .later (hcons hgap) hl hrest

theorem stopsAt_of_scanFrom {position : Nat} {source : List Char} {e : ScanError}
    (h : scanFrom position source = .error e) : StopsAt position source e := by
  fun_induction scanFrom position source generalizing e with
  | case1 => cases h
  | case2 position c tail hb ih => exact (ih h).cons_blank hb
  | case3 position c tail hb cause hscan =>
    cases h
    exact @StopsAt.here position [] _ _ (by simp) (misread_of_scanLexeme (by simpa using hb) hscan)
  | case4 position c tail hb l hl e' hrest ih =>
    cases h
    obtain ⟨hlex, hle⟩ := lexes_of_scanLexeme hl
    have hpos : position + 1 + l.more =
        position + ([] : List Char).length + (c :: tail.take l.more).length := by
      simp only [List.length_nil, List.length_cons, List.length_take_of_le hle]
      omega
    have hstop := ih hrest
    rw [hpos] at hstop
    simpa using @StopsAt.later position [] _ _ _ _ _ (by simp) hlex hstop
  | case5 => cases h

theorem StopsAt.scanFrom {position : Nat} {source : List Char} {e : ScanError}
    (h : StopsAt position source e) : Formula.scanFrom position source = .error e := by
  induction h with
  | @here position gap text cause hgap hm =>
    obtain ⟨c, tail, rfl, hb, hscan⟩ := hm.scanLexeme
    rw [scanFrom_gap hgap, Formula.scanFrom]
    simp [hb, hscan]
  | @later position gap text after kind value e hgap hl _ ih =>
    obtain ⟨c, run, rfl, hb, hscan⟩ := hl.scanLexeme
    have hpos : position + gap.length + (c :: run).length =
        position + gap.length + 1 + run.length := by simp only [List.length_cons]; omega
    rw [hpos] at ih
    rw [scanFrom_gap hgap, List.cons_append, Formula.scanFrom]
    simp [hb, hscan, ih]

/-- The scanner fails at the leftmost lexeme that cannot be read. -/
theorem scanFrom_eq_error {position : Nat} {source : List Char} {e : ScanError} :
    scanFrom position source = .error e ↔ StopsAt position source e :=
  ⟨stopsAt_of_scanFrom, StopsAt.scanFrom⟩

end Tabular.Formula
