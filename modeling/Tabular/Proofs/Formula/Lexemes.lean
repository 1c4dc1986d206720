import Tabular.Formula.Scan
import Tabular.Proofs.Text.Classes

/-!
# Lexemes

`Lexes` says what a lexeme is: its characters, what may stand behind it, its kind and
its value. The scanner takes exactly the lexemes off the front of a text
(`lexes_of_scanLexeme`, `Lexes.scanLexeme`).
-/
namespace Tabular.Formula

/-- `Lexes text after kind value`: with `after` behind it, `text` is a lexeme of a kind
and a value. Numbers and names reach as far to the right as they can, and a name
directly before an opening parenthesis has to be a function. -/
inductive Lexes : List Char → List Char → TokenKind → String → Prop
  | paren {c after} : c = '(' ∨ c = ')' → Lexes [c] after .paren c.toString
  | operator {c after} : c ∈ ['+', '-', '*', '/', '%'] → Lexes [c] after .operator c.toString
  | number {c run after x} : (∀ d ∈ c :: run, isNumberChar d) →
      (∀ d ∈ after.head?, isNumberChar d = false) →
      Number.read? (String.ofList (c :: run)) = some x → x.isFinite →
      Lexes (c :: run) after .number (String.ofList (c :: run))
  | bracket {inner after} : ']' ∉ inner → (∃ c ∈ inner, Text.isBlank c = false) →
      Lexes ('[' :: (inner ++ [']'])) after .column (String.ofList (Text.trimChars inner))
  | column {c run after} : isNameStart c → (∀ d ∈ run, isNameChar d) →
      (∀ d ∈ after.head?, isNameChar d = false) → after.head? ≠ some '(' →
      Lexes (c :: run) after .column (String.ofList (c :: run))
  | function {c run after} : isNameStart c → (∀ d ∈ run, isNameChar d) →
      after.head? = some '(' → Text.upper (String.ofList (c :: run)) ∈ functionNames →
      Lexes (c :: run) after .function (Text.upper (String.ofList (c :: run)))

/-! ## Character classes -/

theorem isNumberChar_iff {c : Char} : isNumberChar c = true ↔
    c = '.' ∨ (48 ≤ c.toNat ∧ c.toNat ≤ 57) := by
  simp only [isNumberChar, Bool.or_eq_true, beq_iff_eq, Number.isDigit_iff]
  exact or_comm

theorem isAsciiLetter_of_isNumberChar {c : Char} (h : isNumberChar c = true) :
    Text.isAsciiLetter c = false := by
  rw [Bool.eq_false_iff, Ne, Text.isAsciiLetter_iff]
  rcases isNumberChar_iff.mp h with rfl | h
  · decide
  · omega

theorem isOperatorChar_iff {c : Char} :
    isOperatorChar c = true ↔ c ∈ ['+', '-', '*', '/', '%'] := List.contains_iff_mem

theorem isBlank_of_isNameStart {c : Char} (h : isNameStart c = true) :
    Text.isBlank c = false := by
  rw [Bool.eq_false_iff]
  intro hb
  simp only [isNameStart, Text.isLetter_of_isBlank hb, Bool.false_or, beq_iff_eq] at h
  subst h
  exact absurd hb (by decide)

theorem isBlank_of_isNumberChar {c : Char} (h : isNumberChar c = true) :
    Text.isBlank c = false := by
  rcases isNumberChar_iff.mp h with rfl | h
  · decide
  · rw [Bool.eq_false_iff]
    intro hb
    have hc := Text.mem_blankCodes hb
    simp only [Text.blankCodes, List.mem_cons, List.not_mem_nil, or_false] at hc
    omega

theorem isNameStart_of_isNumberChar {c : Char} (h : isNumberChar c = true) :
    isNameStart c = false := by
  rcases isNumberChar_iff.mp h with rfl | h
  · decide
  · have hu : c ≠ '_' := by
      rintro rfl
      exact absurd h (by decide)
    have hlt : c.toNat < 128 := by omega
    have hl : Text.isAsciiLetter c = false := by
      rw [Bool.eq_false_iff, Ne, Text.isAsciiLetter_iff]
      omega
    simp [isNameStart, Text.isLetter, hlt, hl, hu]

/-- A character that is no more than itself: a parenthesis, an operator or a bracket. -/
def isSingle (c : Char) : Bool := ['(', ')', '+', '-', '*', '/', '%', '['].contains c

theorem isSingle_eq_false {p : Char → Bool} {c : Char} (h : p c = true)
    (hp : ['(', ')', '+', '-', '*', '/', '%', '['].all (fun d => !p d) = true) :
    isSingle c = false := by
  rw [Bool.eq_false_iff]
  intro hs
  have hc := List.all_eq_true.mp hp c (List.contains_iff_mem.mp hs)
  simp [h] at hc

theorem isSingle_of_isNumberChar {c : Char} (h : isNumberChar c = true) :
    isSingle c = false := isSingle_eq_false h (by decide)

theorem isSingle_of_isNameStart {c : Char} (h : isNameStart c = true) :
    isSingle c = false := isSingle_eq_false h (by decide)

/-! ## Number literals -/

/-- Digits and points are never the name of an infinity or NaN, so they denote what they
denote as a decimal number. -/
theorem read?_numberChars {cs : List Char} (h : ∀ c ∈ cs, isNumberChar c) :
    Number.read? (String.ofList cs) = (Number.Decimal.read? cs).map Number.Decimal.toFloat := by
  have hsign : Number.readSign cs = (false, cs) := by
    cases cs with
    | nil => rfl
    | cons c rest =>
      have hs := isSingle_of_isNumberChar (h c List.mem_cons_self)
      unfold Number.readSign
      split
      · rename_i he
        cases he
        exact absurd hs (by decide)
      · rename_i he
        cases he
        exact absurd hs (by decide)
      · rfl
  refine Number.read?_eq_of_head fun c hc => ?_
  rw [hsign] at hc
  have hletter : Text.isAsciiLetter c = false :=
    isAsciiLetter_of_isNumberChar (h c (List.mem_of_mem_head? hc))
  exact ⟨Text.toLower_ne hletter rfl, Text.toLower_ne hletter rfl⟩

/-! ## Lexemes are what is scanned -/

theorem lexes_of_scanBracket {tail : List Char} {l : Lexeme} (h : scanBracket tail = .ok l) :
    Lexes ('[' :: tail.take l.more) (tail.drop l.more) l.kind l.value ∧
      l.more ≤ tail.length := by
  simp only [scanBracket] at h
  split at h
  · cases h
  rename_i hlen
  split at h
  · cases h
  rename_i hblank
  cases h
  have hsplit := List.take_append_drop (tail.takeWhile (· != ']')).length tail
  rw [Text.take_takeWhile] at hsplit
  have hin : ']' ∉ tail.takeWhile (· != ']') := fun hm => by simpa using List.mem_takeWhile_imp hm
  have hend := Text.head_drop_takeWhile (p := (· != ']')) tail
  generalize tail.takeWhile (· != ']') = inner at *
  cases hr : tail.drop inner.length with
  | nil => simp [hr] at hsplit; simp [hsplit] at hlen
  | cons d rest =>
    obtain rfl : d = ']' := by simpa [hr] using hend
    obtain rfl : tail = inner ++ ']' :: rest := by rw [← hsplit, hr]
    have htext : (inner ++ ']' :: rest).take (inner.length + 1) = inner ++ [']'] := by
      rw [List.append_cons, List.take_left' (by simp)]
    refine ⟨?_, by simp⟩
    simp only [htext]
    refine .bracket hin ?_
    by_contra hall
    refine hblank (List.isEmpty_iff.mpr (Text.trimChars_eq_nil.mpr ?_))
    intro c hc
    by_contra hb
    exact hall ⟨c, hc, by simpa using hb⟩

theorem lexes_of_scanNumber {c : Char} {tail : List Char} {l : Lexeme}
    (hc : isNumberChar c = true) (h : scanNumber c tail = .ok l) :
    Lexes (c :: tail.take l.more) (tail.drop l.more) l.kind l.value ∧
      l.more ≤ tail.length := by
  have hrun : ∀ d ∈ c :: tail.takeWhile isNumberChar, isNumberChar d := by
    intro d hd
    rcases List.mem_cons.mp hd with rfl | hd
    · exact hc
    · exact List.mem_takeWhile_imp hd
  simp only [scanNumber] at h
  split at h
  · rename_i d hd
    split at h
    · rename_i hfin
      cases h
      simp only [Text.take_takeWhile]
      refine ⟨.number hrun (Text.head_drop_takeWhile tail) ?_ hfin,
        (List.takeWhile_prefix _).length_le⟩
      rw [read?_numberChars hrun, hd, Option.map_some]
    · cases h
  · cases h

theorem lexes_of_scanName {c : Char} {tail : List Char} {l : Lexeme}
    (hc : isNameStart c = true) (h : scanName c tail = .ok l) :
    Lexes (c :: tail.take l.more) (tail.drop l.more) l.kind l.value ∧
      l.more ≤ tail.length := by
  have hrun : ∀ d ∈ tail.takeWhile isNameChar, isNameChar d :=
    fun d hd => List.mem_takeWhile_imp hd
  have hle := (List.takeWhile_prefix (l := tail) isNameChar).length_le
  simp only [scanName] at h
  split at h
  · rename_i hparen
    split at h
    · rename_i hf
      cases h
      simp only [Text.take_takeWhile]
      exact ⟨.function hc hrun hparen (List.contains_iff_mem.mp hf), hle⟩
    · cases h
  · rename_i hparen
    cases h
    simp only [Text.take_takeWhile]
    exact ⟨.column hc hrun (Text.head_drop_takeWhile tail) hparen, hle⟩

/-- What is scanned off the front of a text is a lexeme, with the rest behind it. -/
theorem lexes_of_scanLexeme {c : Char} {tail : List Char} {l : Lexeme}
    (h : scanLexeme c tail = .ok l) :
    Lexes (c :: tail.take l.more) (tail.drop l.more) l.kind l.value ∧
      l.more ≤ tail.length := by
  unfold scanLexeme at h
  split at h
  · rename_i hc
    cases h
    exact ⟨.paren hc, Nat.zero_le _⟩
  split at h
  · rename_i hc
    cases h
    exact ⟨.operator (isOperatorChar_iff.mp hc), Nat.zero_le _⟩
  split at h
  · rename_i hc
    exact hc ▸ lexes_of_scanBracket h
  split at h
  · rename_i hc
    exact lexes_of_scanNumber hc h
  split at h
  · rename_i hc
    exact lexes_of_scanName hc h
  · cases h

theorem scanLexeme_of_not_single {c : Char} (h : isSingle c = false) (tail : List Char) :
    scanLexeme c tail = if isNumberChar c then scanNumber c tail
      else if isNameStart c then scanName c tail else .error (.unexpectedCharacter c) := by
  have hm : c ∉ ['(', ')', '+', '-', '*', '/', '%', '['] := fun hm => by
    rw [isSingle, List.contains_iff_mem.mpr hm] at h
    cases h
  simp only [List.mem_cons, List.not_mem_nil, or_false, not_or] at hm
  obtain ⟨h1, h2, h3, h4, h5, h6, h7, h8⟩ := hm
  simp [scanLexeme, isOperatorChar, h1, h2, h3, h4, h5, h6, h7, h8]

/-- A lexeme begins with a character that is not white space, and the scanner takes it
off the front of a text. -/
theorem Lexes.scanLexeme {text after : List Char} {kind : TokenKind} {value : String}
    (h : Lexes text after kind value) : ∃ c run, text = c :: run ∧ Text.isBlank c = false ∧
      Formula.scanLexeme c (run ++ after) = .ok ⟨kind, value, run.length⟩ := by
  cases h with
  | @paren c _ hc =>
    refine ⟨c, [], rfl, ?_, ?_⟩
    · rcases hc with rfl | rfl <;> decide
    · simp [Formula.scanLexeme, hc]
  | @operator c _ hc =>
    refine ⟨c, [], rfl, ?_, ?_⟩
    · simp only [List.mem_cons, List.not_mem_nil, or_false] at hc
      rcases hc with rfl | rfl | rfl | rfl | rfl <;> decide
    · have hparen : ¬ (c = '(' ∨ c = ')') := by
        rintro (rfl | rfl) <;> exact absurd hc (by decide)
      simp [Formula.scanLexeme, hparen, isOperatorChar_iff.mpr hc]
  | @number c run _ x hrun hend hx hfin =>
    have hc := hrun c List.mem_cons_self
    have htake := Text.takeWhile_run (fun d hd => hrun d (List.mem_cons_of_mem _ hd)) hend
    refine ⟨c, run, rfl, isBlank_of_isNumberChar hc, ?_⟩
    rw [read?_numberChars hrun] at hx
    obtain ⟨d, hd, rfl⟩ := Option.map_eq_some_iff.mp hx
    simp [scanLexeme_of_not_single (isSingle_of_isNumberChar hc), hc, scanNumber, htake, hd, hfin]
  | @bracket inner _ hin hblank =>
    have htake : (inner ++ ']' :: after).takeWhile (· != ']') = inner :=
      Text.takeWhile_run (fun d hd => by simpa using fun he : d = ']' => hin (he ▸ hd)) (by simp)
    have hname : Text.trimChars inner ≠ [] := by
      intro hnil
      obtain ⟨c, hc, hb⟩ := hblank
      exact absurd (Text.trimChars_eq_nil.mp hnil c hc) (by simp [hb])
    refine ⟨'[', inner ++ [']'], rfl, by decide, ?_⟩
    simp [Formula.scanLexeme, isOperatorChar, scanBracket, htake, hname]
  | @column c run _ hc hrun hend hparen =>
    refine ⟨c, run, rfl, isBlank_of_isNameStart hc, ?_⟩
    have hn : isNumberChar c = false := Bool.eq_false_iff.mpr fun hn => by
      simp [isNameStart_of_isNumberChar hn] at hc
    simp [scanLexeme_of_not_single (isSingle_of_isNameStart hc), hn, hc, scanName,
      Text.takeWhile_run hrun hend, hparen]
  | @function c run _ hc hrun hparen hf =>
    refine ⟨c, run, rfl, isBlank_of_isNameStart hc, ?_⟩
    have hn : isNumberChar c = false := Bool.eq_false_iff.mpr fun hn => by
      simp [isNameStart_of_isNumberChar hn] at hc
    have hend : ∀ d ∈ after.head?, isNameChar d = false := by
      rw [hparen]
      simp only [Option.mem_def, Option.some.injEq]
      rintro d rfl
      decide
    simp [scanLexeme_of_not_single (isSingle_of_isNameStart hc), hn, hc, scanName,
      Text.takeWhile_run hrun hend, hparen, hf, -String.ofList_cons]

end Tabular.Formula
