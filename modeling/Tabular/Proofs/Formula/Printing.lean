import Tabular.Proofs.Formula.Checks
import Tabular.Proofs.Text.Trimming

/-!
# Tokens printed and read again

A token is printed as its value, a column in brackets, with one space between tokens but none
between a function and its parenthesis. What is printed is cut into lexemes for the same
tokens, however those were written, so it is read as them again (`tokenize_printed`).
-/
namespace Tabular.Formula

/-- A token as it is printed: its value, in brackets if it is a column. -/
def Token.printed (t : Token) : List Char :=
  match t.kind with
  | .column => '[' :: (t.value.toList ++ [']'])
  | _ => t.value.toList

/-- What is printed between a token and those behind it: a space, but nothing between a
function and its parenthesis. -/
def spaceBehind (t : Token) : List Token → List Char
  | [] => []
  | next :: _ => if t.kind = .function ∧ next.isParen '(' then [] else [' ']

theorem eq_space_of_mem_spaceBehind {t : Token} {rest : List Token} {c : Char}
    (h : c ∈ spaceBehind t rest) : c = ' ' := by
  unfold spaceBehind at h
  split at h
  · cases h
  · split at h
    · cases h
    · exact List.mem_singleton.mp h

/-- Tokens as they are printed one behind the other. -/
def printed : List Token → List Char
  | [] => []
  | t :: rest => t.printed ++ (spaceBehind t rest ++ printed rest)

/-- A token without its place. -/
def Token.content (t : Token) : TokenKind × String := (t.kind, t.value)

/-! ## Printed tokens are lexemes -/

theorem isBlank_of_isNameChar {c : Char} (h : isNameChar c = true) : Text.isBlank c = false := by
  rw [Bool.eq_false_iff]
  intro hb
  simp only [isNameChar, Text.isAlphanumeric_of_isBlank hb, Bool.false_or, beq_iff_eq] at h
  subst h
  exact absurd hb (by decide)

/-- A blocked character is neither a letter nor a digit nor an underscore. -/
theorem not_isName_of_isBlocked {c : Char} (h : isBlocked c = true) :
    isNameStart c = false ∧ isNameChar c = false := by
  simp only [isBlocked, List.contains_eq_mem, decide_eq_true_eq, List.mem_cons,
    List.not_mem_nil, or_false] at h
  rcases h with rfl | rfl | rfl | rfl | rfl | rfl <;> decide

/-- The names of functions are names, in upper case. -/
theorem function_name {name : String} (h : name ∈ functionNames) :
    ∃ c run, name.toList = c :: run ∧ isNameStart c ∧ (∀ d ∈ run, isNameChar d) ∧
      Text.upper name = name := by
  have hnames : ∀ name ∈ functionNames, name.toList ≠ [] ∧ name.toList.head?.all isNameStart ∧
      name.toList.tail.all isNameChar ∧ Text.upper name = name := by decide +kernel
  obtain ⟨hne, hstart, hrun, hupper⟩ := hnames name h
  obtain ⟨c, run, hl⟩ := List.exists_cons_of_ne_nil hne
  rw [hl] at hstart hrun
  exact ⟨c, run, hl, hstart, List.all_eq_true.mp hrun, hupper⟩

/-- A text in brackets is a column of that name if it is trimmed and not empty. -/
theorem Lexes.bracketed {name : List Char} (hin : ']' ∉ name) (hne : name ≠ [])
    (htrim : Text.trimChars name = name) (after : List Char) :
    Lexes ('[' :: (name ++ [']'])) after .column (String.ofList name) := by
  have hl := @Lexes.bracket name after hin
  rw [htrim] at hl
  refine hl ?_
  by_contra hblank
  refine hne (htrim ▸ Text.trimChars_eq_nil.mpr fun c hc => ?_)
  by_contra hb
  exact hblank ⟨c, hc, by simpa using hb⟩

theorem trimChars_name {c : Char} {run : List Char} (hc : isNameStart c = true)
    (hrun : ∀ d ∈ run, isNameChar d) : Text.trimChars (c :: run) = c :: run := by
  refine Text.trimChars_eq_self (by simpa using isBlank_of_isNameStart hc) ?_
  intro d hd
  rcases List.mem_cons.mp (List.mem_of_getLast? hd) with rfl | hd
  · exact isBlank_of_isNameStart hc
  · exact isBlank_of_isNameChar (hrun d hd)

/-- What may stand behind the printed token: nothing, a space, and behind a function only a
parenthesis. -/
def Token.MayPrecede (t : Token) (after : List Char) : Prop :=
  if t.kind = .function then after.head? = some '(' else ∀ c ∈ after.head?, c = ' '

theorem Lexes.of_function {text after : List Char} {name : String}
    (h : Lexes text after .function name) :
    name ∈ functionNames ∧ after.head? = some '(' := by
  cases h with
  | function _ _ hparen hf => exact ⟨hf, hparen⟩

/-- A function's name is printed as a lexeme for it. -/
theorem Lexes.function_printed {name : String} (h : name ∈ functionNames) {after : List Char}
    (hparen : after.head? = some '(') : Lexes name.toList after .function name := by
  obtain ⟨c, run, hname, hc, hrun, hupper⟩ := function_name h
  have hspelled : String.ofList (c :: run) = name := by rw [← hname, String.ofList_toList]
  have hl := Lexes.function hc hrun hparen
  rw [hspelled, hupper] at hl
  rw [hname]
  exact hl h

/-- However a token was written, it is printed as a lexeme for it. -/
theorem Lexes.printed {text after after' : List Char} {t : Token}
    (h : Lexes text after t.kind t.value) (hafter : t.MayPrecede after') :
    Lexes t.printed after' t.kind t.value := by
  obtain ⟨kind, value, offset⟩ := t
  dsimp only at h
  cases h with
  | @paren c _ hc =>
    have hprinted : (Token.mk .paren c.toString offset).printed = [c] := by simp [Token.printed]
    rw [hprinted]
    exact .paren hc
  | @operator c _ hc =>
    have hprinted : (Token.mk .operator c.toString offset).printed = [c] := by
      simp [Token.printed]
    rw [hprinted]
    exact .operator hc
  | @number c run _ x hrun hend hx hfinite =>
    have hspace : ∀ d ∈ after'.head?, isNumberChar d = false := by
      intro d hd
      obtain rfl : d = ' ' := hafter d hd
      decide
    simp only [Token.printed, String.toList_ofList]
    exact .number hrun hspace hx hfinite
  | @bracket inner _ hin hblank =>
    obtain ⟨c, hc, hb⟩ := hblank
    simp only [Token.printed, String.toList_ofList]
    refine .bracketed (fun hm => hin (Text.mem_of_mem_trimChars hm)) ?_
      (Text.trimChars_trimChars inner) after'
    intro hnil
    rw [Text.trimChars_eq_nil.mp hnil c hc] at hb
    cases hb
  | @column c run _ hc hrun hend hparen =>
    simp only [Token.printed, String.toList_ofList]
    refine .bracketed ?_ (by simp) (trimChars_name hc hrun) after'
    intro hm
    rcases List.mem_cons.mp hm with rfl | hm
    · exact absurd hc (by decide)
    · exact absurd (hrun _ hm) (by decide)
  | function _ _ _ hf => exact .function_printed hf hafter

/-! ## What is printed is cut into the tokens -/

theorem isParen_printed {t : Token} {c : Char} (h : t.isParen c) :
    t.printed.head? = some c := by
  simp only [Token.isParen, Bool.and_eq_true, decide_eq_true_eq, beq_iff_eq] at h
  simp only [Token.printed, h.1, h.2]

theorem Cuts.mayPrecede {position : Nat} {source last : List Char} {pieces : List Piece}
    {tokens : List Token} (h : Cuts position source pieces last tokens) {text : List Char}
    {t : Token} (hl : Lexes text source t.kind t.value) :
    t.MayPrecede (spaceBehind t tokens ++ Formula.printed tokens) := by
  unfold Token.MayPrecede
  split
  · rename_i hk
    rw [hk] at hl
    obtain ⟨opening, rest, rfl, hopening⟩ := h.isParen_of_head hl.of_function.2
    simp only [spaceBehind, hk, hopening, Formula.printed, and_self, if_true, List.nil_append]
    rw [List.head?_append, isParen_printed hopening]
    rfl
  · rename_i hk
    cases tokens with
    | nil => simp [spaceBehind, Formula.printed]
    | cons next rest =>
      intro c hc
      simp only [spaceBehind, hk, false_and, if_false] at hc
      exact (Option.some.inj hc).symm

theorem Cuts.printed {position : Nat} {source last : List Char} {pieces : List Piece}
    {tokens : List Token} (h : Cuts position source pieces last tokens) {gap : List Char}
    (hgap : ∀ c ∈ gap, Text.isBlank c) (start : Nat) :
    ∃ pieces' last' again, Cuts start (gap ++ Formula.printed tokens) pieces' last' again ∧
      again.map Token.content = tokens.map Token.content := by
  induction h generalizing gap start with
  | last =>
    refine ⟨[], gap, [], ?_, rfl⟩
    rw [Formula.printed, List.append_nil]
    exact .last hgap
  | @piece position _ text after kind value _ _ tokens _ hl hcut ih =>
    have hspace : ∀ t : Token, ∀ c ∈ spaceBehind t tokens, Text.isBlank c := by
      intro t c hc
      rw [eq_space_of_mem_spaceBehind hc]
      decide
    generalize ht : (⟨kind, value, _⟩ : Token) = t
    have hl' : Lexes text after t.kind t.value := by rw [← ht]; exact hl
    obtain ⟨pieces', last', again, hagain, hcontent⟩ :=
      ih (hspace t) (start + gap.length + t.printed.length)
    exact ⟨_, _, _, .piece hgap (hl'.printed (hcut.mayPrecede hl')) hagain,
      congrArg (t.content :: ·) hcontent⟩

/-! ## Printed tokens pass the checks -/

theorem Lexes.printed_allowed {text after : List Char} {t : Token}
    (h : Lexes text after t.kind t.value) (htext : ∀ c ∈ text, isBlocked c = false) :
    ∀ c ∈ t.printed, isBlocked c = false := by
  obtain ⟨kind, value, offset⟩ := t
  dsimp only at h
  have hbracketed : ∀ name : List Char, (∀ c ∈ name, isBlocked c = false) →
      ∀ c ∈ '[' :: (name ++ [']']), isBlocked c = false := by
    intro name hname c hc
    rcases List.mem_cons.mp hc with rfl | hc
    · decide
    · rcases List.mem_append.mp hc with hc | hc
      · exact hname c hc
      · obtain rfl := List.mem_singleton.mp hc
        decide
  cases h with
  | paren => simpa [Token.printed] using htext
  | operator => simpa [Token.printed] using htext
  | number =>
    simp only [Token.printed, String.toList_ofList]
    exact htext
  | bracket =>
    simp only [Token.printed, String.toList_ofList]
    exact hbracketed _ fun c hc => htext c (by simp [Text.mem_of_mem_trimChars hc])
  | column =>
    simp only [Token.printed, String.toList_ofList]
    exact hbracketed _ htext
  | function _ _ _ hf =>
    obtain ⟨c, run, hname, hstart, hrun, -⟩ := function_name hf
    intro d hd
    simp only [Token.printed, hname, List.mem_cons] at hd
    rw [Bool.eq_false_iff]
    intro hb
    obtain ⟨hnostart, hnochar⟩ := not_isName_of_isBlocked hb
    rcases hd with rfl | hd
    · rw [hnostart] at hstart
      cases hstart
    · rw [hrun d hd] at hnochar
      cases hnochar

theorem Cuts.printed_allowed {position : Nat} {source last : List Char} {pieces : List Piece}
    {tokens : List Token} (h : Cuts position source pieces last tokens)
    (hsource : ∀ c ∈ source, isBlocked c = false) :
    ∀ c ∈ Formula.printed tokens, isBlocked c = false := by
  induction h with
  | last => simp [Formula.printed]
  | @piece _ gap text after _ _ _ _ tokens _ hl _ ih =>
    intro c hc
    rw [Formula.printed, List.mem_append, List.mem_append] at hc
    rcases hc with hc | hc | hc
    · exact Lexes.printed_allowed (t := ⟨_, _, _⟩) hl (fun d hd => hsource d (by simp [hd])) c hc
    · rw [eq_space_of_mem_spaceBehind hc]
      decide
    · exact ih (fun d hd => hsource d (by simp [hd])) c hc

section
variable {tokens again : List Token} (h : again.map Token.content = tokens.map Token.content)
include h

/-- What is counted by the contents of tokens is counted alike in tokens elsewhere. -/
theorem countP_content {p : Token → Bool} {q : TokenKind × String → Bool}
    (hp : ∀ t, p t = q t.content) : again.countP p = tokens.countP p := by
  have hcount : ∀ ts : List Token, ts.countP p = (ts.map Token.content).countP q := by
    intro ts
    rw [List.countP_map]
    exact List.countP_congr fun t _ => by simp [hp]
  rw [hcount, hcount, h]

theorem isParen_countP (c : Char) : again.countP (·.isParen c) = tokens.countP (·.isParen c) :=
  countP_content h (q := fun k => (Token.mk k.1 k.2 0).isParen c) fun _ => rfl

end

theorem nests_content {limit : Nat} {tokens again : List Token}
    (h : again.map Token.content = tokens.map Token.content) (hn : Nests limit 0 tokens) :
    Nests limit 0 again := by
  have htake : ∀ n, (again.take n).map Token.content = (tokens.take n).map Token.content := by
    intro n
    rw [List.map_take, List.map_take, h]
  simp only [Nests, openings, closings, isParen_countP h, isParen_countP (htake _)]
  exact hn

/-- No lexeme begins with `=`. -/
theorem Cuts.not_equals {position : Nat} {rest last : List Char} {pieces : List Piece}
    {tokens : List Token} : ¬ Cuts position ('=' :: rest) pieces last tokens := by
  intro h
  have hs := h.scanFrom
  rw [Formula.scanFrom, scanLexeme_of_not_single (by decide)] at hs
  have hb : Text.isBlank '=' = false := by decide
  have hn : isNumberChar '=' = false := by decide
  have hl : isNameStart '=' = false := by decide +kernel
  simp [hb, hn, hl] at hs

theorem Cuts.stripEquals {position : Nat} {source last : List Char} {pieces : List Piece}
    {tokens : List Token} (h : Cuts position source pieces last tokens) :
    Formula.stripEquals source = (0, source) := by
  unfold Formula.stripEquals
  split
  · exact absurd h Cuts.not_equals
  · rfl

/-- The tokens of a formula, printed, are a formula with the same tokens, if it is not too
long. -/
theorem tokenize_printed {formula : String} {tokens : List Token}
    (h : tokenize formula = .ok tokens) (hlen : (printed tokens).length ≤ 500) :
    ∃ again, tokenize (String.ofList (printed tokens)) = .ok again ∧
      again.map (fun t => (t.kind, t.value)) = tokens.map (fun t => (t.kind, t.value)) := by
  obtain ⟨-, hblocked, hscan, hne, hnests, hcount⟩ := tokenize_eq_ok.mp h
  obtain ⟨pieces, last, hcut⟩ := exists_cuts_of_scanFrom hscan
  obtain ⟨pieces', last', again, hagain, hcontent⟩ := hcut.printed (List.forall_mem_nil _) 0
  rw [List.nil_append] at hagain
  refine ⟨again, tokenize_eq_ok.mpr ?_, hcontent⟩
  rw [String.toList_ofList, hagain.stripEquals]
  refine ⟨?_, hcut.printed_allowed hblocked, hagain.scanFrom, ?_, nests_content hcontent hnests, ?_⟩
  · rwa [String.length_ofList]
  · rintro rfl
    exact hne (List.map_eq_nil_iff.mp hcontent.symm)
  · have hsame : again.countP Token.isCounted = tokens.countP Token.isCounted :=
      countP_content hcontent (q := fun k => (Token.mk k.1 k.2 0).isCounted) fun _ => rfl
    rwa [hsame]

/-- A ratio whose columns are written in three ways is printed in one. -/
theorem tokenize_printed_ratio :
    let tokens : List Token := [⟨.function, "SUM", 1⟩, ⟨.paren, "(", 4⟩, ⟨.column, "Revenue", 6⟩,
      ⟨.paren, ")", 14⟩, ⟨.operator, "/", 15⟩, ⟨.column, "Größe 1", 17⟩]
    tokenize "=sum( Revenue )/ [ Größe 1]" = .ok tokens ∧ (printed tokens).length ≤ 500 ∧
      String.ofList (printed tokens) = "SUM( [Revenue] ) / [Größe 1]" ∧
      ∃ again, tokenize "SUM( [Revenue] ) / [Größe 1]" = .ok again ∧
        again.map (fun t => (t.kind, t.value)) = tokens.map (fun t => (t.kind, t.value)) := by
  intro tokens
  have htokens : tokenize "=sum( Revenue )/ [ Größe 1]" = .ok tokens := by decide +kernel
  have hlen : (printed tokens).length ≤ 500 := by decide
  have hprinted : String.ofList (printed tokens) = "SUM( [Revenue] ) / [Größe 1]" := by decide
  exact ⟨htokens, hlen, hprinted, hprinted ▸ tokenize_printed htokens hlen⟩

end Tabular.Formula
