import Tabular.Proofs.Formula.Lexemes

/-!
# The language of formula texts

`Cuts` says how a text is cut into white space and lexemes, and which tokens the
lexemes are. A text has at most one cut, and the scanner finds it. What is checked
besides is said by counting: parentheses in every prefix, operators and functions in
the whole.
-/
namespace Tabular.Formula

/-- White space and the lexeme behind it. -/
structure Piece where
  gap : List Char
  text : List Char
  deriving DecidableEq

/-- `Cuts position source pieces last tokens`: the source, whose first character is at
`position`, is the pieces and the white space `last`, and the lexemes of the pieces are
the tokens. -/
inductive Cuts : Nat → List Char → List Piece → List Char → List Token → Prop
  | last {position gap} : (∀ c ∈ gap, Text.isBlank c) → Cuts position gap [] gap []
  | piece {position gap text after kind value pieces last tokens} :
      (∀ c ∈ gap, Text.isBlank c) → Lexes text after kind value →
      Cuts (position + gap.length + text.length) after pieces last tokens →
      Cuts position (gap ++ (text ++ after)) (⟨gap, text⟩ :: pieces) last
        (⟨kind, value, position + gap.length⟩ :: tokens)

/-- Nothing of the source is lost: it is the pieces, one after the other, and the white
space behind the last. -/
theorem Cuts.spells {position : Nat} {source last : List Char} {pieces : List Piece}
    {tokens : List Token} (h : Cuts position source pieces last tokens) :
    source = pieces.flatMap (fun p => p.gap ++ p.text) ++ last := by
  induction h with
  | last => rfl
  | piece _ _ _ ih => simp [← ih]

theorem Cuts.pieces_eq_nil {position : Nat} {source last : List Char} {pieces : List Piece}
    {tokens : List Token} (h : Cuts position source pieces last tokens) :
    pieces = [] ↔ tokens = [] := by cases h <;> simp

/-- A column reference is spelled with characters of the source. -/
theorem Lexes.mem_text {text after : List Char} {value : String}
    (h : Lexes text after .column value) {c : Char} (hc : c ∈ value.toList) : c ∈ text := by
  cases h with
  | bracket =>
    rw [String.toList_ofList] at hc
    simp [Text.mem_of_mem_trimChars hc]
  | column => rwa [String.toList_ofList] at hc

theorem Cuts.mem_source {position : Nat} {source last : List Char} {pieces : List Piece}
    {tokens : List Token} (h : Cuts position source pieces last tokens) {t : Token}
    (ht : t ∈ tokens) (hk : t.kind = .column) {c : Char} (hc : c ∈ t.value.toList) :
    c ∈ source := by
  induction h with
  | last => cases ht
  | @piece _ gap text after _ _ _ _ _ _ hl _ ih =>
    rcases List.mem_cons.mp ht with rfl | ht
    · simp only at hk
      subst hk
      have hm := hl.mem_text hc
      simp [hm]
    · simp [ih ht]

/-- A token begins with its lexeme, at its offset. -/
theorem Cuts.lexes_at {position : Nat} {source last : List Char} {pieces : List Piece}
    {tokens : List Token} (h : Cuts position source pieces last tokens) {t : Token}
    (ht : t ∈ tokens) : ∃ before text after, source = before ++ (text ++ after) ∧
      t.offset = position + before.length ∧ Lexes text after t.kind t.value := by
  induction h with
  | last => cases ht
  | @piece position gap text after kind value _ _ _ _ hl _ ih =>
    rcases List.mem_cons.mp ht with rfl | ht
    · exact ⟨gap, text, after, rfl, rfl, hl⟩
    · obtain ⟨before, text', after', rfl, hoffset, hl'⟩ := ih ht
      refine ⟨gap ++ (text ++ before), text', after', by simp, ?_, hl'⟩
      rw [hoffset, List.length_append, List.length_append]
      omega

/-- The tokens come in the order of their offsets. -/
def OffsetsAscend (tokens : List Token) : Prop := tokens.Pairwise fun t u => t.offset < u.offset

theorem Cuts.offsets {position : Nat} {source last : List Char} {pieces : List Piece}
    {tokens : List Token} (h : Cuts position source pieces last tokens) :
    OffsetsAscend tokens := by
  induction h with
  | last => exact .nil
  | @piece position gap text _ _ _ _ _ _ _ hl hcut ih =>
    refine List.pairwise_cons.mpr ⟨fun u hu => ?_, ih⟩
    obtain ⟨before, -, -, -, hoffset, -⟩ := hcut.lexes_at hu
    obtain ⟨c, run, rfl, -⟩ := hl.scanLexeme
    rw [List.length_cons] at hoffset
    show position + gap.length < u.offset
    omega

/-! ## The scanner finds the cut -/

theorem scanFrom_gap {gap : List Char} (h : ∀ c ∈ gap, Text.isBlank c) (position : Nat)
    (rest : List Char) : scanFrom position (gap ++ rest) =
      scanFrom (position + gap.length) rest := by
  induction gap generalizing position with
  | nil => rfl
  | cons c gap ih =>
    rw [List.cons_append, scanFrom, if_pos (h c List.mem_cons_self),
      ih (fun d hd => h d (List.mem_cons_of_mem _ hd)), List.length_cons, Nat.add_assoc,
      Nat.add_comm 1]

theorem Cuts.scanFrom {position : Nat} {source last : List Char} {pieces : List Piece}
    {tokens : List Token} (h : Cuts position source pieces last tokens) :
    Formula.scanFrom position source = .ok tokens := by
  induction h with
  | @last position gap hgap =>
    have hs := scanFrom_gap hgap position []
    rwa [List.append_nil, Formula.scanFrom] at hs
  | @piece position gap text after kind value _ _ _ hgap hl _ ih =>
    obtain ⟨c, run, rfl, hb, hscan⟩ := hl.scanLexeme
    rw [scanFrom_gap hgap, List.cons_append, Formula.scanFrom, hb, hscan]
    have hpos : position + gap.length + (c :: run).length =
        position + gap.length + 1 + run.length := by simp only [List.length_cons]; omega
    rw [hpos] at ih
    simp [ih]

/-- White space put in front of a cut source belongs to its first piece. -/
theorem Cuts.cons_blank {c : Char} (hc : Text.isBlank c = true) {position : Nat}
    {source last : List Char} {pieces : List Piece} {tokens : List Token}
    (h : Cuts (position + 1) source pieces last tokens) :
    ∃ pieces last, Cuts position (c :: source) pieces last tokens := by
  cases h with
  | last hgap =>
    exact ⟨[], c :: source, .last fun d hd => by
      rcases List.mem_cons.mp hd with rfl | hd
      · exact hc
      · exact hgap d hd⟩
  | @piece _ gap text after kind value pieces _ tokens hgap hl hcut =>
    refine ⟨⟨c :: gap, text⟩ :: pieces, last, ?_⟩
    have hpos : position + 1 + gap.length = position + (c :: gap).length := by
      simp only [List.length_cons]; omega
    rw [hpos] at hcut ⊢
    refine .piece ?_ hl hcut
    intro d hd
    rcases List.mem_cons.mp hd with rfl | hd
    · exact hc
    · exact hgap d hd

theorem exists_cuts_of_scanFrom {position : Nat} {source : List Char} {tokens : List Token}
    (h : scanFrom position source = .ok tokens) :
    ∃ pieces last, Cuts position source pieces last tokens := by
  fun_induction scanFrom position source generalizing tokens with
  | case1 =>
    cases h
    exact ⟨[], [], .last (by simp)⟩
  | case2 position c tail hb ih =>
    obtain ⟨pieces, last, hcut⟩ := ih h
    exact hcut.cons_blank hb
  | case3 => cases h
  | case4 => cases h
  | case5 position c tail hb l hl rest hrest ih =>
    cases h
    obtain ⟨hlex, hle⟩ := lexes_of_scanLexeme hl
    obtain ⟨pieces, last, hcut⟩ := ih hrest
    have hlen : (tail.take l.more).length = l.more := List.length_take_of_le hle
    have hpos : position + 1 + l.more =
        position + ([] : List Char).length + (c :: tail.take l.more).length := by
      simp only [List.length_nil, List.length_cons, hlen]; omega
    rw [hpos] at hcut
    refine ⟨⟨[], c :: tail.take l.more⟩ :: pieces, last, ?_⟩
    have hall := Cuts.piece (by simp) hlex hcut
    simpa using hall

/-! ## A text has one cut -/

theorem Lexes.head_not_blank {text after : List Char} {kind : TokenKind} {value : String}
    (h : Lexes text after kind value) :
    ∀ c ∈ (text ++ after).head?, Text.isBlank c = false := by
  obtain ⟨c, run, rfl, hb, -⟩ := h.scanLexeme
  simpa using hb

/-- The text determines the lexeme at its front. -/
theorem Lexes.unique {text text' after after' : List Char} {kind kind' : TokenKind}
    {value value' : String} (h : Lexes text after kind value)
    (h' : Lexes text' after' kind' value') (he : text ++ after = text' ++ after') :
    text = text' ∧ after = after' ∧ kind = kind' ∧ value = value' := by
  obtain ⟨c, run, rfl, -, hs⟩ := h.scanLexeme
  obtain ⟨c', run', rfl, -, hs'⟩ := h'.scanLexeme
  obtain ⟨rfl, htail⟩ := List.cons.inj he
  change run ++ after = run' ++ after' at htail
  rw [htail, hs'] at hs
  injection hs with hs
  injection hs with hk hv hlen
  obtain ⟨rfl, rfl⟩ := List.append_inj htail hlen.symm
  exact ⟨rfl, rfl, hk.symm, hv.symm⟩

/-- A text is cut in one way, and into the same tokens. -/
theorem Cuts.unique {position : Nat} {source source' last last' : List Char}
    {pieces pieces' : List Piece} {tokens tokens' : List Token}
    (h : Cuts position source pieces last tokens)
    (h' : Cuts position source' pieces' last' tokens') (he : source = source') :
    pieces = pieces' ∧ last = last' ∧ tokens = tokens' := by
  induction h generalizing source' last' pieces' tokens' with
  | last hgap =>
    cases h' with
    | last => exact ⟨rfl, he, rfl⟩
    | piece hgap' hl _ =>
      obtain ⟨c, run, rfl, hb, -⟩ := hl.scanLexeme
      exact absurd (hgap c (by simp [he])) (by simp [hb])
  | piece hgap hl _ ih =>
    cases h' with
    | last hgap' =>
      obtain ⟨c, run, rfl, hb, -⟩ := hl.scanLexeme
      exact absurd (hgap' c (by simp [← he])) (by simp [hb])
    | piece hgap' hl' hcut' =>
      -- Both gaps are all the white space at the front.
      have hg := (Text.takeWhile_run hgap hl.head_not_blank).symm.trans
        ((congrArg _ he).trans (Text.takeWhile_run hgap' hl'.head_not_blank))
      subst hg
      obtain ⟨rfl, rfl, rfl, rfl⟩ := hl.unique hl' (List.append_cancel_left he)
      obtain ⟨rfl, rfl, rfl⟩ := ih hcut' rfl
      exact ⟨rfl, rfl, rfl⟩

/-! ## What is checked on the tokens -/

/-- How many parentheses the tokens open. -/
def openings (ts : List Token) : Nat := ts.countP (·.isParen '(')

/-- How many parentheses the tokens close. -/
def closings (ts : List Token) : Nat := ts.countP (·.isParen ')')

/-- With `depth` parentheses open before them, the tokens close no more than are open
and never have more than `limit` open, and at the end none is. -/
def Nests (limit depth : Nat) (ts : List Token) : Prop :=
  (∀ n, closings (ts.take n) ≤ depth + openings (ts.take n) ∧
    depth + openings (ts.take n) ≤ limit + closings (ts.take n)) ∧
  depth + openings ts = closings ts

theorem not_isParen_both {t : Token} (h : t.isParen '(' = true) : t.isParen ')' = false := by
  simp only [Token.isParen, Bool.and_eq_true, beq_iff_eq] at h
  simp [Token.isParen, h.2]

theorem openings_cons (t : Token) (ts : List Token) :
    openings (t :: ts) = openings [t] + openings ts := by
  simp [openings, List.countP_cons, Nat.add_comm]

theorem closings_cons (t : Token) (ts : List Token) :
    closings (t :: ts) = closings [t] + closings ts := by
  simp [closings, List.countP_cons, Nat.add_comm]

theorem Nests.depth_le {limit depth : Nat} {ts : List Token} (h : Nests limit depth ts) :
    depth ≤ limit := by simpa [openings, closings] using (h.1 0).2

/-- One token changes the depth, and the others go on from there. -/
theorem nests_cons {limit depth depth' : Nat} {t : Token} {ts : List Token}
    (ht : depth + openings [t] = depth' + closings [t]) :
    Nests limit depth (t :: ts) ↔ depth ≤ limit ∧ Nests limit depth' ts := by
  constructor
  · intro h
    refine ⟨h.depth_le, ?_, ?_⟩
    · intro n
      have hn := h.1 (n + 1)
      rw [List.take_succ_cons, openings_cons, closings_cons] at hn
      omega
    · have he := h.2
      rw [openings_cons, closings_cons] at he
      omega
  · rintro ⟨hd, hn, he⟩
    refine ⟨?_, ?_⟩
    · intro n
      cases n with
      | zero => simpa [openings, closings] using hd
      | succ n =>
        rw [List.take_succ_cons, openings_cons, closings_cons]
        have := hn n
        omega
    · rw [openings_cons, closings_cons]
      omega

theorem not_nests_of_closes {limit : Nat} {t : Token} {ts : List Token}
    (h : t.isParen ')' = true) (ho : t.isParen '(' = false) : ¬ Nests limit 0 (t :: ts) := by
  intro hn
  have h1 := (hn.1 1).1
  simp [openings, closings, h, ho] at h1

theorem refuseUnbalanced_eq_ok {finish : Nat} {opened : List Nat} {ts : List Token}
    (h : opened.length ≤ Limits.nestingDepth) :
    refuseUnbalanced finish opened ts = .ok () ↔
      Nests Limits.nestingDepth opened.length ts := by
  induction ts generalizing opened with
  | nil =>
    cases opened with
    | nil => simp [refuseUnbalanced, Nests, openings, closings]
    | cons => simp [refuseUnbalanced, Nests, openings, closings]
  | cons t rest ih =>
    unfold refuseUnbalanced
    by_cases ho : t.isParen '(' = true
    · have hc := not_isParen_both ho
      have hstep : opened.length + openings [t] = (t.offset :: opened).length + closings [t] := by
        simp [openings, closings, ho, hc]
      rw [if_pos ho, nests_cons hstep]
      split
      · rename_i hlt
        have hle : (t.offset :: opened).length ≤ Limits.nestingDepth := hlt
        rw [ih hle]
        simp [h]
      · rename_i hge
        simp only [reduceCtorEq, false_iff, not_and]
        exact fun _ hn => hge hn.depth_le
    · rw [if_neg ho]
      have ho' : t.isParen '(' = false := by simpa using ho
      split
      · rename_i hc
        cases opened with
        | nil => simpa using not_nests_of_closes hc ho'
        | cons position outer =>
          have hstep : (position :: outer).length + openings [t] = outer.length + closings [t] := by
            simp [openings, closings, ho', hc]
          have hle : outer.length ≤ Limits.nestingDepth := Nat.le_of_succ_le h
          rw [nests_cons hstep, ih hle]
          exact ⟨fun hn => ⟨h, hn⟩, And.right⟩
      · rename_i hc
        have hstep : opened.length + openings [t] = opened.length + closings [t] := by
          simp [openings, closings, ho, hc]
        rw [nests_cons hstep, ih h]
        simp [h]

theorem refuseComplex_eq_ok {ts : List Token} :
    refuseComplex ts = .ok () ↔ ts.countP Token.isCounted ≤ Limits.formulaComplexity := by
  unfold refuseComplex
  rw [List.countP_eq_length_filter]
  split
  · rename_i t ht
    have hlt := (List.getElem?_eq_some_iff.mp ht).1
    simp only [reduceCtorEq, false_iff]
    omega
  · rename_i ht
    simpa using ht

theorem firstBlocked?_eq_none {position : Nat} {cs : List Char} :
    firstBlocked? position cs = none ↔ ∀ c ∈ cs, isBlocked c = false := by
  induction cs generalizing position with
  | nil => simp [firstBlocked?]
  | cons c rest ih =>
    rw [firstBlocked?]
    split
    · rename_i hb
      simp [hb]
    · rename_i hb
      simp [ih, hb]

theorem stripEquals_length (cs : List Char) :
    (stripEquals cs).1 + (stripEquals cs).2.length = cs.length := by
  unfold stripEquals
  split <;> simp [Nat.add_comm]

/-! ## Whole formulas -/

/-- A formula is tokenized when no check refuses it. -/
theorem tokenize_eq_ok {formula : String} {tokens : List Token} :
    tokenize formula = .ok tokens ↔
      formula.length ≤ Limits.formulaLength ∧
      (∀ c ∈ (stripEquals formula.toList).2, isBlocked c = false) ∧
      scanFrom (stripEquals formula.toList).1 (stripEquals formula.toList).2 = .ok tokens ∧
      tokens ≠ [] ∧ Nests Limits.nestingDepth 0 tokens ∧
      tokens.countP Token.isCounted ≤ Limits.formulaComplexity := by
  have hlen := stripEquals_length formula.toList
  rw [String.length_toList] at hlen
  unfold tokenize
  generalize stripEquals formula.toList = stripped at *
  obtain ⟨base, source⟩ := stripped
  have hparens := @refuseUnbalanced_eq_ok formula.length [] tokens (Nat.zero_le _)
  rw [← @firstBlocked?_eq_none base source, ← refuseComplex_eq_ok]
  simp only [List.length_nil] at hparens
  simp only [bind, Except.bind, pure, Except.pure, throw, throwThe, MonadExceptOf.throw, hlen,
    ← hparens]
  constructor
  · intro h
    split at h
    · cases h
    rename_i hle
    split at h
    · cases h
    rename_i hblocked
    split at h
    · cases h
    rename_i scanned hscan
    split at h
    · cases h
    rename_i hne
    split at h
    · cases h
    rename_i hbalanced
    split at h
    · cases h
    rename_i hcomplex
    cases h
    refine ⟨Nat.le_of_not_lt hle, ?_, hscan, by simpa using hne, hbalanced, hcomplex⟩
    cases hf : firstBlocked? base source with
    | none => rfl
    | some e => exact absurd hf (hblocked e)
  · rintro ⟨hle, hblocked, hscan, hne, hbalanced, hcomplex⟩
    simp [Nat.not_lt.mpr hle, hblocked, hscan, hne, hbalanced, hcomplex]

theorem offsets_of_tokenize {formula : String} {tokens : List Token}
    (h : tokenize formula = .ok tokens) : OffsetsAscend tokens := by
  obtain ⟨-, -, hscan, -⟩ := tokenize_eq_ok.mp h
  obtain ⟨pieces, last, hcut⟩ := exists_cuts_of_scanFrom hscan
  exact hcut.offsets

/-- No column reference of a formula has a blocked character. -/
theorem not_isBlocked_of_tokenize {formula : String} {tokens : List Token}
    (h : tokenize formula = .ok tokens) {t : Token} (ht : t ∈ tokens) (hk : t.kind = .column)
    {c : Char} (hc : c ∈ t.value.toList) : isBlocked c = false := by
  obtain ⟨-, hblocked, hscan, -⟩ := tokenize_eq_ok.mp h
  obtain ⟨pieces, last, hcut⟩ := exists_cuts_of_scanFrom hscan
  exact hblocked c (hcut.mem_source ht hk hc)

/-- The parentheses of the tokens match, and never more than `limit` are open. -/
def ParensMatch (limit : Nat) (tokens : List Token) : Prop :=
  (∀ n, closings (tokens.take n) ≤ openings (tokens.take n) ∧
    openings (tokens.take n) ≤ closings (tokens.take n) + limit) ∧
  openings tokens = closings tokens

theorem nests_zero {limit : Nat} {tokens : List Token} :
    Nests limit 0 tokens ↔ ParensMatch limit tokens := by
  simp [Nests, ParensMatch, Nat.add_comm limit]

/-- A formula is tokenized exactly when it is no longer than 500 characters, has no
blocked character, can be cut into lexemes of which there is at least one, and its
parentheses match and nest no deeper than ten with at most fifty operators and
functions between them. The tokens are those of the one cut there is, and the pieces of
the cut make up the whole source. -/
theorem tokenize_eq_ok_iff_cuts (formula : String) :
    (∀ tokens, tokenize formula = .ok tokens ↔
      formula.length ≤ 500 ∧
      (∀ c ∈ (stripEquals formula.toList).2, c ∉ [';', '\x60', '\\', '$', '\x7b', '\x7d']) ∧
      (∃ pieces last, pieces ≠ [] ∧ Cuts (stripEquals formula.toList).1
        (stripEquals formula.toList).2 pieces last tokens) ∧
      ParensMatch 10 tokens ∧ tokens.countP Token.isCounted ≤ 50) ∧
    ∀ pieces last tokens,
      Cuts (stripEquals formula.toList).1 (stripEquals formula.toList).2 pieces last tokens →
      (stripEquals formula.toList).2 = pieces.flatMap (fun p => p.gap ++ p.text) ++ last ∧
      ∀ pieces' last' tokens',
        Cuts (stripEquals formula.toList).1 (stripEquals formula.toList).2 pieces' last' tokens' →
        pieces = pieces' ∧ last = last' ∧ tokens = tokens' := by
  constructor
  · intro tokens
    rw [tokenize_eq_ok, nests_zero]
    have hblocked : (∀ c ∈ (stripEquals formula.toList).2, isBlocked c = false) ↔
        ∀ c ∈ (stripEquals formula.toList).2, c ∉ [';', '\x60', '\\', '$', '\x7b', '\x7d'] := by
      simp only [isBlocked, List.contains_eq_mem, decide_eq_false_iff_not]
    rw [hblocked]
    constructor
    · rintro ⟨hle, hb, hscan, hne, hmatch, hcount⟩
      obtain ⟨pieces, last, hcut⟩ := exists_cuts_of_scanFrom hscan
      exact ⟨hle, hb, ⟨pieces, last, mt hcut.pieces_eq_nil.mp hne, hcut⟩, hmatch, hcount⟩
    · rintro ⟨hle, hb, ⟨pieces, last, hne, hcut⟩, hmatch, hcount⟩
      exact ⟨hle, hb, hcut.scanFrom, mt hcut.pieces_eq_nil.mpr hne, hmatch, hcount⟩
  · intro pieces last tokens hcut
    refine ⟨hcut.spells, ?_⟩
    intro pieces' last' tokens' hcut'
    exact hcut.unique hcut' rfl

end Tabular.Formula
