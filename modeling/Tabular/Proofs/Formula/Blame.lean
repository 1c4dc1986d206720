import Tabular.Proofs.Formula.Misreading
import Tabular.Proofs.Formula.Parentheses

/-!
# Where a rejected formula is blamed

`Blamed` says which check a formula fails first, and the character that it is blamed on. The
checks are in order: the length, blocked characters anywhere, lexemes from the left, at least
one token, parentheses from the left, those never closed, and operators and functions. The
scanner fails just so (`tokenize_eq_error_iff_blamed`), and what it complains of stands at the
position that it tells.
-/
namespace Tabular.Formula

/-! ## Blocked characters and complexity -/

theorem firstBlocked?_eq_some {position : Nat} {cs : List Char} {e : ScanError} :
    firstBlocked? position cs = some e ↔ ∃ before c after, cs = before ++ c :: after ∧
      (∀ d ∈ before, isBlocked d = false) ∧ isBlocked c ∧
      e = ⟨.disallowedCharacter c, position + before.length⟩ := by
  induction cs generalizing position with
  | nil => simp [firstBlocked?]
  | cons c rest ih =>
    rw [firstBlocked?]
    by_cases hc : isBlocked c = true
    · rw [if_pos hc]
      constructor
      · intro h
        cases h
        exact ⟨[], c, rest, rfl, by simp, hc, rfl⟩
      · rintro ⟨before, d, after, heq, hbefore, hd, rfl⟩
        cases before with
        | nil =>
          cases heq
          rfl
        | cons b before =>
          obtain rfl : c = b := (List.cons.inj heq).1
          rw [hbefore c List.mem_cons_self] at hc
          cases hc
    · rw [if_neg hc, ih]
      constructor
      · rintro ⟨before, d, after, rfl, hbefore, hd, rfl⟩
        refine ⟨c :: before, d, after, rfl, ?_, hd, ?_⟩
        · intro b hb
          rcases List.mem_cons.mp hb with rfl | hb
          · simpa using hc
          · exact hbefore b hb
        · simp only [List.length_cons]
          congr 1
          omega
      · rintro ⟨before, d, after, heq, hbefore, hd, rfl⟩
        cases before with
        | nil =>
          obtain rfl : c = d := (List.cons.inj heq).1
          exact absurd hd hc
        | cons b before =>
          obtain ⟨rfl, rfl⟩ := List.cons.inj heq
          refine ⟨before, d, after, rfl, fun b hb => hbefore b (List.mem_cons_of_mem _ hb), hd, ?_⟩
          simp only [List.length_cons]
          congr 1
          omega

/-- The entry at a place of a filtered list has as many kept ones before it. -/
theorem getElem?_filter_eq_some {α : Type} {p : α → Bool} {items : List α} {n : Nat} {a : α} :
    (items.filter p)[n]? = some a ↔ ∃ before after, items = before ++ a :: after ∧ p a ∧
      before.countP p = n := by
  constructor
  · intro h
    obtain ⟨hlt, ha⟩ := List.getElem?_eq_some_iff.mp h
    have hsplit := (List.take_append_drop n (items.filter p)).symm
    rw [List.drop_eq_getElem_cons hlt, ha] at hsplit
    obtain ⟨front, back, rfl, hfront, hback⟩ := List.filter_eq_append_iff.mp hsplit
    obtain ⟨skipped, after, rfl, hskipped, hp, -⟩ := List.filter_eq_cons_iff.mp hback
    refine ⟨front ++ skipped, after, by simp, hp, ?_⟩
    rw [List.countP_append, List.countP_eq_zero.mpr hskipped, List.countP_eq_length_filter, hfront,
      List.length_take_of_le (Nat.le_of_lt hlt), Nat.add_zero]
  · rintro ⟨before, after, rfl, hp, rfl⟩
    rw [List.filter_append, List.filter_cons_of_pos hp, List.countP_eq_length_filter]
    simp

/-- Formulas are too complex from one operator or function on. -/
theorem refuseComplex_eq_error {tokens : List Token} {e : ScanError} :
    refuseComplex tokens = .error e ↔ ∃ before t after, tokens = before ++ t :: after ∧
      t.isCounted ∧ before.countP Token.isCounted = Limits.formulaComplexity ∧
      e = ⟨.tooComplex, t.offset⟩ := by
  unfold refuseComplex
  constructor
  · intro h
    split at h
    · rename_i t ht
      cases h
      obtain ⟨before, after, htokens, hcounted, hcount⟩ := getElem?_filter_eq_some.mp ht
      exact ⟨before, t, after, htokens, hcounted, hcount, rfl⟩
    · cases h
  · rintro ⟨before, t, after, htokens, hcounted, hcount, rfl⟩
    rw [getElem?_filter_eq_some.mpr ⟨before, after, htokens, hcounted, hcount⟩]

/-! ## Whole formulas -/

/-- The formula has at most 500 characters, and none of them is blocked. -/
def Admissible (formula : String) : Prop :=
  formula.length ≤ 500 ∧ ∀ c ∈ formula.toList, c ∉ [';', '\x60', '\\', '$', '\x7b', '\x7d']

/-- The tokens are those of the lexemes that the formula is cut into, and there is one. -/
def CutInto (formula : String) (tokens : List Token) : Prop :=
  ∃ pieces last, pieces ≠ [] ∧
    Cuts (stripEquals formula.toList).1 (stripEquals formula.toList).2 pieces last tokens

/-- `Blamed formula e`: the first check that the formula fails, and where. -/
inductive Blamed (formula : String) : ScanError → Prop
  | tooLong : 500 < formula.length → Blamed formula ⟨.tooLong formula.length, 500⟩
  | disallowed {before c after} : formula.length ≤ 500 → formula.toList = before ++ c :: after →
      (∀ d ∈ before, d ∉ [';', '\x60', '\\', '$', '\x7b', '\x7d']) →
      c ∈ [';', '\x60', '\\', '$', '\x7b', '\x7d'] →
      Blamed formula ⟨.disallowedCharacter c, before.length⟩
  | lexeme {e} : Admissible formula →
      StopsAt (stripEquals formula.toList).1 (stripEquals formula.toList).2 e → Blamed formula e
  | empty : Admissible formula → (∀ c ∈ (stripEquals formula.toList).2, Text.isBlank c) →
      Blamed formula ⟨.empty, (stripEquals formula.toList).1⟩
  | unbalanced {tokens e} : Admissible formula → CutInto formula tokens →
      Unbalanced 10 formula.length tokens e → Blamed formula e
  | tooComplex {tokens before t after} : Admissible formula → CutInto formula tokens →
      ParensMatch 10 tokens → tokens = before ++ t :: after →
      t.isCounted → before.countP Token.isCounted = 50 → Blamed formula ⟨.tooComplex, t.offset⟩

section
variable {formula : String}

theorem isBlocked_eq_false {c : Char} :
    isBlocked c = false ↔ c ∉ [';', '\x60', '\\', '$', '\x7b', '\x7d'] := by
  simp only [isBlocked, List.contains_eq_mem, decide_eq_false_iff_not]

/-- The leading `=` is no blocked character, so they are looked for in all of the formula. -/
theorem firstBlocked?_stripEquals (cs : List Char) :
    firstBlocked? (stripEquals cs).1 (stripEquals cs).2 = firstBlocked? 0 cs := by
  unfold stripEquals
  split
  · rfl
  · rfl

theorem admissible_iff : Admissible formula ↔
    ¬ 500 < formula.length ∧ firstBlocked? 0 formula.toList = none := by
  rw [firstBlocked?_eq_none, Nat.not_lt]
  simp only [isBlocked_eq_false]
  rfl

theorem cutInto_iff {tokens : List Token} : CutInto formula tokens ↔
    scanFrom (stripEquals formula.toList).1 (stripEquals formula.toList).2 = .ok tokens ∧
      tokens ≠ [] := by
  constructor
  · rintro ⟨pieces, last, hne, hcut⟩
    exact ⟨hcut.scanFrom, mt hcut.pieces_eq_nil.mpr hne⟩
  · rintro ⟨hscan, hne⟩
    obtain ⟨pieces, last, hcut⟩ := exists_cuts_of_scanFrom hscan
    exact ⟨pieces, last, mt hcut.pieces_eq_nil.mp hne, hcut⟩

theorem scanFrom_eq_nil {position : Nat} {source : List Char} :
    scanFrom position source = .ok [] ↔ ∀ c ∈ source, Text.isBlank c := by
  constructor
  · intro h
    obtain ⟨pieces, last, hcut⟩ := exists_cuts_of_scanFrom h
    cases hcut with
    | last hgap => exact hgap
  · exact fun h => (Cuts.last h).scanFrom

/-- The checks of a formula, one behind the other. -/
theorem tokenize_checks (formula : String) : tokenize formula =
    if 500 < formula.length then .error ⟨.tooLong formula.length, 500⟩
    else match firstBlocked? 0 formula.toList with
    | some e => .error e
    | none =>
      match scanFrom (stripEquals formula.toList).1 (stripEquals formula.toList).2 with
      | .error e => .error e
      | .ok tokens =>
        if tokens.isEmpty then .error ⟨.empty, (stripEquals formula.toList).1⟩
        else match refuseUnbalanced formula.length [] tokens with
          | .error e => .error e
          | .ok () => match refuseComplex tokens with
            | .error e => .error e
            | .ok () => .ok tokens := by
  have hlen := stripEquals_length formula.toList
  rw [String.length_toList] at hlen
  rw [← firstBlocked?_stripEquals]
  unfold tokenize
  generalize stripEquals formula.toList = stripped at *
  obtain ⟨base, source⟩ := stripped
  simp only [bind, Except.bind, pure, Except.pure, throw, throwThe, MonadExceptOf.throw, hlen,
    Limits.formulaLength]
  by_cases hlong : 500 < formula.length
  · simp [hlong]
  rw [if_neg hlong, if_neg hlong]
  cases firstBlocked? base source with
  | some e => rfl
  | none =>
    cases scanFrom base source with
    | error e => rfl
    | ok tokens =>
      dsimp only
      split
      · rfl
      · cases refuseUnbalanced formula.length [] tokens with
        | error e => rfl
        | ok _ => cases refuseComplex tokens <;> rfl

theorem blamed_of_tokenize {e : ScanError} (h : tokenize formula = .error e) :
    Blamed formula e := by
  rw [tokenize_checks] at h
  split at h
  · rename_i hlong
    cases h
    exact .tooLong hlong
  rename_i hshort
  split at h
  · rename_i e' hblocked
    cases h
    obtain ⟨before, c, after, heq, hbefore, hc, rfl⟩ := firstBlocked?_eq_some.mp hblocked
    rw [Nat.zero_add]
    exact .disallowed (Nat.not_lt.mp hshort) heq
      (fun d hd => isBlocked_eq_false.mp (hbefore d hd)) (List.contains_iff_mem.mp hc)
  rename_i hblocked
  have hadm : Admissible formula := admissible_iff.mpr ⟨hshort, hblocked⟩
  split at h
  · rename_i e' hscan
    cases h
    exact .lexeme hadm (scanFrom_eq_error.mp hscan)
  rename_i tokens hscan
  split at h
  · rename_i hnil
    cases h
    rw [List.isEmpty_iff.mp hnil] at hscan
    exact .empty hadm (scanFrom_eq_nil.mp hscan)
  rename_i hne
  have hcut : CutInto formula tokens := cutInto_iff.mpr ⟨hscan, by simpa using hne⟩
  split at h
  · rename_i e' hparens
    cases h
    exact .unbalanced hadm hcut (refuseUnbalanced_eq_error.mp hparens)
  rename_i hparens
  split at h
  · rename_i e' hcomplex
    cases h
    obtain ⟨before, t, after, htokens, hcounted, hcount, rfl⟩ :=
      refuseComplex_eq_error.mp hcomplex
    have hmatch := (refuseUnbalanced_eq_ok (Nat.zero_le _)).mp hparens
    exact .tooComplex hadm hcut (nests_zero.mp hmatch) htokens hcounted hcount
  · cases h

theorem Blamed.tokenize {e : ScanError} (h : Blamed formula e) :
    Formula.tokenize formula = .error e := by
  rw [tokenize_checks]
  cases h with
  | tooLong hlong => rw [if_pos hlong]
  | @disallowed before c after hle heq hbefore hc =>
    have hblocked : firstBlocked? 0 formula.toList =
        some ⟨.disallowedCharacter c, 0 + before.length⟩ :=
      firstBlocked?_eq_some.mpr ⟨before, c, after, heq,
        fun d hd => isBlocked_eq_false.mpr (hbefore d hd), List.contains_iff_mem.mpr hc, rfl⟩
    rw [if_neg (Nat.not_lt.mpr hle), hblocked, Nat.zero_add]
  | lexeme hadm hstop =>
    obtain ⟨hshort, hallowed⟩ := admissible_iff.mp hadm
    rw [if_neg hshort, hallowed, scanFrom_eq_error.mpr hstop]
  | empty hadm hblank =>
    obtain ⟨hshort, hallowed⟩ := admissible_iff.mp hadm
    rw [if_neg hshort, hallowed, scanFrom_eq_nil.mpr hblank]
    rfl
  | unbalanced hadm hcut hparens =>
    obtain ⟨hshort, hallowed⟩ := admissible_iff.mp hadm
    obtain ⟨hscan, hne⟩ := cutInto_iff.mp hcut
    rw [if_neg hshort, hallowed, hscan]
    simp [hne, Unbalanced.refuseUnbalanced hparens]
  | tooComplex hadm hcut hmatch htokens hcounted hcount =>
    obtain ⟨hshort, hallowed⟩ := admissible_iff.mp hadm
    obtain ⟨hscan, hne⟩ := cutInto_iff.mp hcut
    have hbalanced := (@refuseUnbalanced_eq_ok formula.length [] _ (Nat.zero_le _)).mpr
      (nests_zero.mpr hmatch)
    rw [if_neg hshort, hallowed, hscan]
    simp [hne, hbalanced, refuseComplex_eq_error.mpr ⟨_, _, _, htokens, hcounted, hcount, rfl⟩]

/-! ## What stands at the position -/

/-- The text that an error complains of, as the formula has it. Where it complains of the
length, of nothing being there or of a number of tokens, there is none. -/
def ScanError.Cause.culprit : ScanError.Cause → List Char
  | .disallowedCharacter c => [c]
  | .unexpectedCharacter c => [c]
  | .invalidNumber literal => literal.toList
  | .unknownFunction name => name.toList
  | .unclosedBracket => ['[']
  | .emptyColumnReference => ['[']
  | .unmatchedClose => [')']
  | .unclosedParen .. => ['(']
  | .tooDeep => ['(']
  | _ => []

theorem Misread.culprit {text : List Char} {cause : ScanError.Cause} (h : Misread text cause) :
    cause.culprit <+: text := by
  cases h with
  | unexpected => exact List.prefix_append [_] _
  | number =>
    show (String.ofList _).toList <+: _
    rw [String.toList_ofList]
    exact List.prefix_append _ _
  | name =>
    show (String.ofList _).toList <+: _
    rw [String.toList_ofList]
    exact List.prefix_append _ _
  | unclosed => exact List.prefix_append ['['] _
  | blank => exact List.prefix_append ['['] _

theorem StopsAt.misread_at {position : Nat} {source : List Char} {e : ScanError}
    (h : StopsAt position source e) : ∃ before text, source = before ++ text ∧
      e.position = position + before.length ∧ Misread text e.cause := by
  induction h with
  | @here position gap text cause _ hm => exact ⟨gap, text, rfl, rfl, hm⟩
  | @later position gap text after kind value e _ _ _ ih =>
    obtain ⟨before, rest, rfl, hposition, hm⟩ := ih
    refine ⟨gap ++ (text ++ before), rest, by simp, ?_, hm⟩
    rw [hposition, List.length_append, List.length_append]
    omega

theorem drop_stripEquals {cs before rest : List Char} (h : (stripEquals cs).2 = before ++ rest) :
    cs.drop ((stripEquals cs).1 + before.length) = rest := by
  have hbase : cs.drop (stripEquals cs).1 = (stripEquals cs).2 := by
    unfold stripEquals
    split
    · rfl
    · rfl
  rw [← List.drop_drop, hbase, h, List.drop_left]

/-- A text that is not empty stands at a position before the end. -/
theorem lt_length_of_drop {cs : List Char} {n : Nat} (h : cs.drop n ≠ []) : n < cs.length := by
  by_contra hge
  exact h (List.drop_of_length_le (Nat.le_of_not_lt hge))

theorem CutInto.at_offset {tokens : List Token} (h : CutInto formula tokens) {t : Token}
    (ht : t ∈ tokens) : ∃ text after, formula.toList.drop t.offset = text ++ after ∧
      Lexes text after t.kind t.value := by
  obtain ⟨pieces, last, -, hcut⟩ := h
  obtain ⟨before, text, after, hsource, hoffset, hl⟩ := hcut.lexes_at ht
  exact ⟨text, after, hoffset ▸ drop_stripEquals hsource, hl⟩

theorem Lexes.of_paren {text after : List Char} {value : String}
    (h : Lexes text after .paren value) : ∃ c, text = [c] ∧ value = c.toString := by
  cases h with
  | @paren c _ _ => exact ⟨c, rfl, rfl⟩

/-- A parenthesis is at the offset of its token. -/
theorem CutInto.paren_at {tokens : List Token} (h : CutInto formula tokens) {t : Token}
    (ht : t ∈ tokens) {c : Char} (hc : t.isParen c) : [c] <+: formula.toList.drop t.offset := by
  obtain ⟨text, after, hdrop, hl⟩ := h.at_offset ht
  simp only [Token.isParen, Bool.and_eq_true, decide_eq_true_eq, beq_iff_eq] at hc
  obtain ⟨hk, hhead⟩ := hc
  rw [hk] at hl
  obtain ⟨d, rfl, hvalue⟩ := hl.of_paren
  rw [hvalue] at hhead
  obtain rfl : d = c := by simpa using hhead
  exact hdrop ▸ List.prefix_append _ _

/-- What an error complains of stands at its position, which is before the end unless there is
no lexeme at all. -/
theorem Blamed.culprit_at {e : ScanError} (h : Blamed formula e) :
    e.cause.culprit <+: formula.toList.drop e.position ∧
      (formula.toList.drop e.position ≠ [] ∨ e.cause = .empty ∧ e.position ≤ formula.length) := by
  have hlen := stripEquals_length formula.toList
  rw [String.length_toList] at hlen
  have htoken : ∀ {tokens : List Token} {t : Token}, CutInto formula tokens → t ∈ tokens →
      formula.toList.drop t.offset ≠ [] := by
    intro tokens t hcut ht
    obtain ⟨text, after, hdrop, hl⟩ := hcut.at_offset ht
    obtain ⟨c, run, rfl, -⟩ := hl.scanLexeme
    simp [hdrop]
  cases h with
  | tooLong hlong =>
    refine ⟨List.nil_prefix, .inl ?_⟩
    show formula.toList.drop 500 ≠ []
    rw [Ne, List.drop_eq_nil_iff, String.length_toList]
    exact Nat.not_le.mpr hlong
  | @disallowed before c after _ heq =>
    rw [heq, List.drop_left]
    exact ⟨List.prefix_append [c] after, .inl (by simp)⟩
  | lexeme hadm hstop =>
    obtain ⟨before, text, hsource, hposition, hm⟩ := hstop.misread_at
    obtain ⟨c, tail, rfl, -⟩ := hm.scanLexeme
    rw [hposition, drop_stripEquals hsource]
    exact ⟨hm.culprit, .inl (by simp)⟩
  | empty => exact ⟨List.nil_prefix, .inr ⟨rfl, hlen ▸ Nat.le_add_right _ _⟩⟩
  | unbalanced hadm hcut hparens =>
    cases hparens with
    | tooDeep htokens _ ht =>
      have hmem := htokens ▸ List.mem_append_cons_self
      exact ⟨hcut.paren_at hmem ht, .inl (htoken hcut hmem)⟩
    | unmatched htokens _ ht =>
      have hmem := htokens ▸ List.mem_append_cons_self
      exact ⟨hcut.paren_at hmem ht, .inl (htoken hcut hmem)⟩
    | unclosed htokens _ ht =>
      have hmem := htokens ▸ List.mem_append_cons_self
      exact ⟨hcut.paren_at hmem ht, .inl (htoken hcut hmem)⟩
  | tooComplex hadm hcut _ htokens =>
    have hmem := htokens ▸ List.mem_append_cons_self
    exact ⟨List.nil_prefix, .inl (htoken hcut hmem)⟩

end

/-- A formula is rejected for the first check it fails and at the place where it fails it. The
position counts the characters of the whole formula: it is never past the end, at the end only
for a formula without a lexeme, and what the error complains of stands there. -/
theorem tokenize_eq_error_iff_blamed (formula : String) (e : ScanError) :
    (tokenize formula = .error e ↔ Blamed formula e) ∧
    (Blamed formula e → e.position ≤ formula.length ∧
      (e.cause ≠ .empty → e.position < formula.length) ∧
      e.cause.culprit <+: formula.toList.drop e.position) := by
  refine ⟨⟨blamed_of_tokenize, Blamed.tokenize⟩, fun h => ?_⟩
  obtain ⟨hculprit, hplace⟩ := h.culprit_at
  have hlt : formula.toList.drop e.position ≠ [] → e.position < formula.length := by
    intro hdrop
    rw [← String.length_toList]
    exact lt_length_of_drop hdrop
  rcases hplace with hdrop | ⟨hempty, hle⟩
  · exact ⟨Nat.le_of_lt (hlt hdrop), fun _ => hlt hdrop, hculprit⟩
  · exact ⟨hle, fun hne => absurd hempty hne, hculprit⟩

-- The bracket is blamed, though the parenthesis before it closes nothing.
example : tokenize "=é)[ " = .error ⟨.unclosedBracket, 3⟩ := by decide +kernel

end Tabular.Formula
