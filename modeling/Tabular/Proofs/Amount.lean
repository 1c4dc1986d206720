import Tabular.Proofs.Number.Literal

/-!
# The texts that denote amounts

`Bears` says what a text holds between its white space, and whether that stands in parentheses.
Without its decoration it has to be a decimal literal, and the double nearest to that has to be
small enough: these are the texts that have an amount (`read?_language`). So decoration may stand
anywhere in such a text but in front of its parentheses or behind them. A pattern that allows other
digits too and a reader of doubles that knows infinities and NaN by name, one after the other, take
the same texts (`read?_eq_some_iff_pattern`).
-/
namespace Tabular.Amount

/-- `Bears text negative inner`: the text is `inner` in parentheses, or it is `inner` and has no
parentheses around it, with white space before and after. -/
inductive Bears : List Char → Bool → List Char → Prop
  | wrapped {before inner after} : (∀ c ∈ before, Text.isBlank c) → (∀ c ∈ after, Text.isBlank c) →
      Bears (before ++ ('(' :: (inner ++ [')']) ++ after)) true inner
  | bare {before inner after} : (∀ c ∈ before, Text.isBlank c) → (∀ c ∈ after, Text.isBlank c) →
      (∀ c ∈ inner.head?, Text.isBlank c = false) →
      (∀ c ∈ inner.getLast?, Text.isBlank c = false) → (∀ body, inner ≠ '(' :: (body ++ [')'])) →
      Bears (before ++ (inner ++ after)) false inner

/-- A text without its decoration. -/
def undecorated (cs : List Char) : List Char := cs.filter fun c => !isDecoration c

section
variable {raw : String} {cs inner : List Char} {negative : Bool}

/-! ## Parentheses -/

theorem unwrap_wrapped (inner : List Char) : unwrap ('(' :: (inner ++ [')'])) = (true, inner) := by
  have hlast : (inner ++ [')']).getLast? = some ')' := List.getLast?_concat
  rw [unwrap, if_pos hlast, List.dropLast_concat]

theorem unwrap_bare (h : ∀ body, cs ≠ '(' :: (body ++ [')'])) : unwrap cs = (false, cs) := by
  unfold unwrap
  split
  · rename_i rest
    refine if_neg fun hlast => ?_
    obtain ⟨body, hbody⟩ := List.getLast?_eq_some_iff.mp hlast
    exact h body (by rw [hbody])
  · rfl

/-- A text bears what is left of it when it is trimmed and taken out of its parentheses. -/
theorem bears_iff : Bears cs negative inner ↔ unwrap (Text.trimChars cs) = (negative, inner) := by
  constructor
  · intro h
    cases h with
    | wrapped hbefore hafter =>
      rw [Text.trimChars_append_blanks hbefore hafter, Text.trimChars_eq_self, unwrap_wrapped]
      · intro c hc
        obtain rfl := Option.some.inj hc
        rfl
      · intro c hc
        rw [← List.cons_append, List.getLast?_concat] at hc
        obtain rfl := Option.some.inj hc
        rfl
    | bare hbefore hafter hfirst hlast hbare =>
      rw [Text.trimChars_append_blanks hbefore hafter, Text.trimChars_eq_self hfirst hlast,
        unwrap_bare hbare]
  · intro h
    obtain ⟨before, after, hbefore, hafter, hcs⟩ := Text.exists_blanks cs
    obtain ⟨hfirst, hlast⟩ := Text.trimChars_ends cs
    rw [hcs]
    generalize Text.trimChars cs = trimmed at *
    by_cases hwrapped : ∃ body, trimmed = '(' :: (body ++ [')'])
    · obtain ⟨body, rfl⟩ := hwrapped
      obtain ⟨rfl, rfl⟩ := Prod.mk.inj ((unwrap_wrapped body).symm.trans h)
      exact .wrapped hbefore hafter
    · have hbare := not_exists.mp hwrapped
      obtain ⟨rfl, rfl⟩ := Prod.mk.inj ((unwrap_bare hbare).symm.trans h)
      exact .bare hbefore hafter hfirst hlast hbare

/-! ## The magnitude -/

theorem exact_amount : Number.exact Limits.amount = 10 ^ 15 := by decide +kernel

theorem abs_le_amount_iff {x : Float} :
    x.abs ≤ Limits.amount ↔ x.isFinite ∧ |Number.exact x| ≤ 10 ^ 15 := by
  have hbound : x.isFinite → (x.abs ≤ Limits.amount ↔ |Number.exact x| ≤ 10 ^ 15) := by
    intro hx
    obtain ⟨hfinite, hexact⟩ := Number.exact_abs hx
    rw [Number.le_iff_exact_le hfinite rfl, hexact, exact_amount]
  constructor
  · intro h
    have hx := Number.isFinite_of_abs_le h
    exact ⟨hx, (hbound hx).mp h⟩
  · exact fun h => (hbound h.1).mpr h.2

/-! ## What the reader takes -/

theorem read?_of_bears (h : Bears raw.toList negative inner) :
    read? raw = (Number.Decimal.read? (undecorated inner)).bind fun d =>
      if d.toFloat.abs ≤ Limits.amount then some (if negative then -d.toFloat else d.toFloat)
      else none := by
  unfold read?
  rw [bears_iff.mp h]
  rfl

/-! ## Decoration -/

theorem undecorated_insert {u v : List Char} {c : Char} (hc : isDecoration c) :
    undecorated (u ++ c :: v) = undecorated (u ++ v) := by
  rw [undecorated, undecorated, List.filter_append, List.filter_append, List.filter_cons_of_neg]
  rw [hc]
  exact Bool.false_ne_true

theorem mem_undecorated {c : Char} (hc : c ∈ cs) (h : isDecoration c = false) :
    c ∈ undecorated cs :=
  List.mem_filter.mpr ⟨hc, by rw [h]; rfl⟩

theorem undecorated_eq_nil (h : ∀ c ∈ cs, isDecoration c) : undecorated cs = [] := by
  refine List.filter_eq_nil_iff.mpr fun c hc => ?_
  rw [h c hc]
  exact Bool.false_ne_true

/-- Trimming takes decoration only, if all white space in a text is decoration. -/
theorem undecorated_trimChars (h : ∀ c ∈ cs, Text.isBlank c → isDecoration c) :
    undecorated (Text.trimChars cs) = undecorated cs := by
  obtain ⟨before, after, hbefore, hafter, hcs⟩ := Text.exists_blanks cs
  generalize Text.trimChars cs = trimmed at *
  subst hcs
  have hfirst : undecorated before = [] := undecorated_eq_nil fun c hc =>
    h c (List.mem_append_left _ hc) (hbefore c hc)
  have hlast : undecorated after = [] := undecorated_eq_nil fun c hc =>
    h c (List.mem_append_right _ (List.mem_append_right _ hc)) (hafter c hc)
  simp only [undecorated, List.filter_append] at hfirst hlast ⊢
  rw [hfirst, hlast, List.nil_append, List.append_nil]

/-- No white space occurs in a literal. -/
theorem isBlank_of_mem {d : Number.Decimal} (h : Number.Spells cs d) {c : Char} (hc : c ∈ cs) :
    Text.isBlank c = false := by
  have hmarks : ['+', '-', '.', 'e', 'E'].all (fun c => !Text.isBlank c) := rfl
  obtain hdigit | hmark := h.mem hc
  · rw [Bool.eq_false_iff]
    intro hblank
    have hcode := Text.mem_blankCodes hblank
    have hrange := Number.isDigit_iff.mp hdigit
    simp only [Text.blankCodes, List.mem_cons, List.not_mem_nil, or_false] at hcode
    omega
  · simpa using List.all_eq_true.mp hmarks c hmark

/-- A text that has a literal left without its decoration bears it, and in no parentheses. -/
theorem exists_bears {d : Number.Decimal} {before after : List Char}
    (hbefore : ∀ c ∈ before, Text.isBlank c) (hafter : ∀ c ∈ after, Text.isBlank c)
    (h : Number.Spells (undecorated cs) d) :
    ∃ inner, Bears (String.ofList (before ++ (cs ++ after))).toList false inner ∧
      undecorated inner = undecorated cs := by
  have hblank : ∀ c ∈ cs, Text.isBlank c → isDecoration c := by
    intro c hc hblank
    by_contra hplain
    rw [isBlank_of_mem h (mem_undecorated hc (Bool.eq_false_iff.mpr hplain))] at hblank
    cases hblank
  have hbare : ∀ body, Text.trimChars cs ≠ '(' :: (body ++ [')']) := by
    intro body hbody
    have hmem : '(' ∈ Text.trimChars cs := hbody ▸ List.mem_cons_self
    have hliteral := h.mem (mem_undecorated (Text.mem_of_mem_trimChars hmem) rfl)
    exact absurd hliteral (by decide)
  refine ⟨Text.trimChars cs, bears_iff.mpr ?_, undecorated_trimChars hblank⟩
  rw [String.toList_ofList, Text.trimChars_append_blanks hbefore hafter, unwrap_bare hbare]

/-! ## The language -/

/-- A text is a literal with decoration, in parentheses or in none. -/
def Writes (raw : String) (negative : Bool) (d : Number.Decimal) : Prop :=
  ∃ inner, Bears raw.toList negative inner ∧ Number.Spells (undecorated inner) d

theorem read?_eq_some_iff {x : Float} : read? raw = some x ↔ ∃ negative d,
    Writes raw negative d ∧ d.toFloat.isFinite ∧ |Number.exact d.toFloat| ≤ 10 ^ 15 ∧
    x = if negative then -d.toFloat else d.toFloat := by
  constructor
  · intro h
    have hbears : Bears raw.toList _ _ := bears_iff.mpr rfl
    rw [read?_of_bears hbears] at h
    obtain ⟨d, hread, hd⟩ := Option.bind_eq_some_iff.mp h
    obtain ⟨hbound, hx⟩ := Option.ite_none_right_eq_some.mp hd
    obtain ⟨hfinite, hexact⟩ := abs_le_amount_iff.mp hbound
    have hspells := Number.Decimal.read?_eq_some_iff.mp hread
    exact ⟨_, d, ⟨_, hbears, hspells⟩, hfinite, hexact, (Option.some.inj hx).symm⟩
  · rintro ⟨negative, d, ⟨inner, hbears, hspells⟩, hfinite, hexact, rfl⟩
    rw [read?_of_bears hbears, Number.Decimal.read?_eq_some_iff.mpr hspells]
    exact if_pos (abs_le_amount_iff.mpr ⟨hfinite, hexact⟩)

/-- A text with anything else in it than a literal and decoration has no amount. -/
theorem read?_eq_none {c : Char} (h : Bears raw.toList negative inner) (hc : c ∈ inner)
    (hplain : isDecoration c = false) (hdigit : Number.isDigit c = false)
    (hmark : c ∉ ['+', '-', '.', 'e', 'E']) : read? raw = none := by
  have hread : Number.Decimal.read? (undecorated inner) = none := by
    refine Option.eq_none_iff_forall_ne_some.mpr fun d hd => ?_
    have hspells := Number.Decimal.read?_eq_some_iff.mp hd
    obtain h | h := hspells.mem (mem_undecorated hc hplain)
    · rw [hdigit] at h
      cases h
    · exact hmark h
  rw [read?_of_bears h, hread]
  rfl

/-- Two texts with the same literal, both in parentheses or both not, have the same amount. -/
theorem read?_congr {raw' : String} {inner' : List Char} (h : Bears raw.toList negative inner)
    (h' : Bears raw'.toList negative inner') (hsame : undecorated inner = undecorated inner') :
    read? raw = read? raw' := by
  rw [read?_of_bears h, read?_of_bears h', hsame]

end

section
variable {before u v after : List Char} {c : Char}

theorem read?_insert_bare {d : Number.Decimal} (hbefore : ∀ c ∈ before, Text.isBlank c)
    (hafter : ∀ c ∈ after, Text.isBlank c) (hc : isDecoration c)
    (h : Number.Spells (undecorated (u ++ v)) d) :
    read? (String.ofList (before ++ (u ++ c :: v ++ after))) =
      read? (String.ofList (before ++ (u ++ v ++ after))) := by
  have hinsert : Number.Spells (undecorated (u ++ c :: v)) d := by rwa [undecorated_insert hc]
  obtain ⟨inner, hbears, hinner⟩ := exists_bears hbefore hafter h
  obtain ⟨inner', hbears', hinner'⟩ := exists_bears hbefore hafter hinsert
  refine read?_congr hbears' hbears ?_
  rw [hinner, hinner', undecorated_insert hc]

theorem read?_insert_wrapped (hbefore : ∀ c ∈ before, Text.isBlank c)
    (hafter : ∀ c ∈ after, Text.isBlank c) (hc : isDecoration c) :
    read? (String.ofList (before ++ ('(' :: (u ++ c :: v ++ [')']) ++ after))) =
      read? (String.ofList (before ++ ('(' :: (u ++ v ++ [')']) ++ after))) := by
  have hbears : ∀ inner, Bears
      (String.ofList (before ++ ('(' :: (inner ++ [')']) ++ after))).toList true inner := by
    intro inner
    rw [String.toList_ofList]
    exact .wrapped hbefore hafter
  exact read?_congr (hbears _) (hbears _) (undecorated_insert hc)

end

/-! ## A pattern and a double -/

/-- Digits of a class, at least one, with at most one point. -/
inductive PatternDigits (digit : Char → Prop) : List Char → Prop
  | whole {ds} : ds ≠ [] → (∀ c ∈ ds, digit c) → PatternDigits digit ds
  | point {ds fs} : ds ≠ [] → (∀ c ∈ ds ++ fs, digit c) → PatternDigits digit (ds ++ '.' :: fs)
  | fraction {fs} : fs ≠ [] → (∀ c ∈ fs, digit c) → PatternDigits digit ('.' :: fs)

/-- An optional power of ten with digits of a class. -/
inductive PatternPower (digit : Char → Prop) : List Char → Prop
  | none : PatternPower digit []
  | some {e s negative ds} : e = 'e' ∨ e = 'E' → Number.Signs s negative → ds ≠ [] →
      (∀ c ∈ ds, digit c) → PatternPower digit (e :: (s ++ ds))

/-- The pattern of literals, which allows digits of a class that may have more of them than there
are in a literal. -/
inductive Pattern (digit : Char → Prop) : List Char → Prop
  | literal {s m p negative} : Number.Signs s negative → PatternDigits digit m →
      PatternPower digit p → Pattern digit (s ++ (m ++ p))

section
variable {digit : Char → Prop} {cs : List Char} {x : Float}

theorem pattern_of_spells (hdigit : ∀ c, Number.isDigit c → digit c) {d : Number.Decimal}
    (h : Number.Spells cs d) : Pattern digit cs := by
  cases h with
  | literal hsign hdigits hpower =>
    refine .literal hsign ?_ ?_
    · cases hdigits with
      | whole hne hall => exact .whole hne fun c hc => hdigit c (hall c hc)
      | @point ds fs hne hall =>
        have hall : ∀ c ∈ ds ++ fs, digit c := fun c hc => hdigit c (hall c hc)
        cases ds with
        | nil => exact .fraction hne hall
        | cons d ds => exact .point (List.cons_ne_nil d ds) hall
    · cases hpower with
      | none => exact .none
      | some he hs hne hall => exact .some he hs hne fun c hc => hdigit c (hall c hc)

/-- A digit or a point stands behind the sign. -/
theorem PatternDigits.head {m : List Char} (h : PatternDigits digit m) (p : List Char) :
    ∃ c tail, m ++ p = c :: tail ∧ (digit c ∨ c = '.') := by
  cases h with
  | whole hne hall =>
    obtain ⟨c, tail, rfl⟩ := List.exists_cons_of_ne_nil hne
    exact ⟨c, tail ++ p, rfl, .inl (hall c List.mem_cons_self)⟩
  | @point ds fs hne hall =>
    obtain ⟨c, tail, rfl⟩ := List.exists_cons_of_ne_nil hne
    exact ⟨c, _, rfl, .inl (hall c List.mem_cons_self)⟩
  | @fraction fs => exact ⟨'.', fs ++ p, rfl, .inr rfl⟩

/-- A text that matches the pattern and is read as a double is a literal, whatever digits the
pattern allows besides those of ASCII, such as all of Unicode. -/
theorem pattern_and_read?_iff
    (hdigit : ∀ c : Char, c.toNat < 128 → (digit c ↔ Number.isDigit c = true)) :
    Pattern digit cs ∧ Number.read? (String.ofList cs) = some x ↔
      ∃ d, Number.Spells cs d ∧ d.toFloat = x := by
  constructor
  · rintro ⟨@⟨s, m, p, negative, hsign, hdigits, hpower⟩, hread⟩
    obtain ⟨first, tail, hrest, hfirst⟩ := hdigits.head p
    -- No sign is a digit of the class, and no letter, so the text is no name.
    have hplain : ∀ c : Char, c.toNat < 128 → Number.isDigit c = false → c ≠ '.' → first ≠ c := by
      rintro c hascii hc hpoint rfl
      rcases hfirst with hfirst | hfirst
      · rw [(hdigit _ hascii).mp hfirst] at hc
        cases hc
      · exact hpoint hfirst
    have hhead : ∀ c ∈ (m ++ p).head?, c ≠ '-' ∧ c ≠ '+' := by
      intro c hc
      rw [hrest] at hc
      obtain rfl := Option.some.inj hc
      exact ⟨hplain '-' (by decide) rfl (by decide), hplain '+' (by decide) rfl (by decide)⟩
    have hletter : Text.isAsciiLetter first = false := by
      rw [Bool.eq_false_iff]
      intro hletter
      have hcode := Text.isAsciiLetter_iff.mp hletter
      refine hplain first (by omega) ?_ ?_ rfl
      · rw [Bool.eq_false_iff, Ne, Number.isDigit_iff]
        omega
      · rintro rfl
        cases hletter
    rw [Number.read?_eq_of_head] at hread
    · obtain ⟨d, hd, hx⟩ := Option.map_eq_some_iff.mp hread
      exact ⟨d, Number.Decimal.read?_eq_some_iff.mp hd, hx⟩
    · intro c hc
      rw [hsign.readSign hhead, hrest] at hc
      obtain rfl := Option.some.inj hc
      exact ⟨Text.toLower_ne hletter rfl, Text.toLower_ne hletter rfl⟩
  · rintro ⟨d, hspells, rfl⟩
    have hascii : ∀ c, Number.isDigit c → digit c := fun c hc =>
      (hdigit c (by have := Number.isDigit_iff.mp hc; omega)).mpr hc
    refine ⟨pattern_of_spells hascii hspells, ?_⟩
    rw [Number.read?, String.toList_ofList, Number.Decimal.read?_eq_some_iff.mpr hspells]

/-- An amount is read in two steps: what is left without decoration matches the pattern, and it is
read as a double, which has to be small enough. -/
theorem read?_eq_some_iff_pattern {raw : String}
    (hdigit : ∀ c : Char, c.toNat < 128 → (digit c ↔ Number.isDigit c = true)) :
    read? raw = some x ↔ ∃ negative inner y, Bears raw.toList negative inner ∧
      Pattern digit (undecorated inner) ∧
      Number.read? (String.ofList (undecorated inner)) = some y ∧
      y.isFinite ∧ y.abs ≤ Limits.amount ∧ x = if negative then -y else y := by
  rw [read?_eq_some_iff]
  constructor
  · rintro ⟨negative, d, ⟨inner, hbears, hspells⟩, hfinite, hbound, rfl⟩
    obtain ⟨hpattern, hread⟩ := (pattern_and_read?_iff hdigit).mpr ⟨d, hspells, rfl⟩
    exact ⟨negative, inner, _, hbears, hpattern, hread, hfinite,
      abs_le_amount_iff.mpr ⟨hfinite, hbound⟩, rfl⟩
  · rintro ⟨negative, inner, y, hbears, hpattern, hread, -, hbound, rfl⟩
    obtain ⟨d, hspells, rfl⟩ := (pattern_and_read?_iff hdigit).mp ⟨hpattern, hread⟩
    obtain ⟨hfinite, hbound⟩ := abs_le_amount_iff.mp hbound
    exact ⟨negative, d, ⟨inner, hbears, hspells⟩, hfinite, hbound, rfl⟩

end

/-- The texts that have an amount are the literals with decoration, in parentheses or in none,
whose nearest double is at most `10 ^ 15`. Anything else in such a text takes its amount away, and
decoration does not change it, wherever in a literal or in its parentheses it is put. -/
theorem read?_language :
    (∀ raw x, read? raw = some x ↔ ∃ negative d, Writes raw negative d ∧
      Number.IsNearest d.toFloat d.value ∧ |Number.exact d.toFloat| ≤ 10 ^ 15 ∧
      x = if negative then -d.toFloat else d.toFloat) ∧
    (∀ d : Number.Decimal, |d.value| < 2 ^ 1023 → Number.IsNearest d.toFloat d.value) ∧
    (∀ raw negative inner, Bears raw.toList negative inner →
      (∃ c ∈ inner, isDecoration c = false ∧ ¬ ('0' ≤ c ∧ c ≤ '9') ∧
        c ∉ ['+', '-', '.', 'e', 'E']) → read? raw = none) ∧
    ∀ before after u c v, (∀ b ∈ before ++ after, Text.isBlank b) → isDecoration c →
      ((∃ d, Number.Spells (undecorated (u ++ v)) d) →
        read? (String.ofList (before ++ (u ++ c :: v ++ after))) =
          read? (String.ofList (before ++ (u ++ v ++ after)))) ∧
      read? (String.ofList (before ++ ('(' :: (u ++ c :: v ++ [')']) ++ after))) =
        read? (String.ofList (before ++ ('(' :: (u ++ v ++ [')']) ++ after))) := by
  refine ⟨fun raw x => ?_, fun d hd => ?_, fun raw negative inner hbears hother => ?_,
    fun before after u c v hblanks hc => ?_⟩
  · rw [read?_eq_some_iff]
    refine exists_congr fun negative => exists_congr fun d => and_congr_right fun _ => ?_
    refine and_congr_left fun _ => ⟨d.isResult_toFloat.isNearest, fun h => h.isFinite⟩
  · exact Number.Decimal.isNearest_toFloat (by exact_mod_cast hd)
  · obtain ⟨c, hc, hplain, hdigit, hmark⟩ := hother
    refine read?_eq_none hbears hc hplain ?_ hmark
    rw [Number.isDigit, ← Bool.decide_and, decide_eq_false hdigit]
  · have hbefore : ∀ b ∈ before, Text.isBlank b := fun b hb =>
      hblanks b (List.mem_append_left after hb)
    have hafter : ∀ b ∈ after, Text.isBlank b := fun b hb =>
      hblanks b (List.mem_append_right before hb)
    refine ⟨?_, read?_insert_wrapped hbefore hafter hc⟩
    rintro ⟨d, hspells⟩
    exact read?_insert_bare hbefore hafter hc hspells

theorem read?_language_ledger : read? "\t(€1,234.50)" = some (-1234.5) ∧
    read? "٣" = none ∧ read? "((5))" = none ∧ read? "7%" = read? "7" ∧
    read? "(5,0)" = read? "(50)" := by
  obtain ⟨haccept, hnearest, hreject, hinsert⟩ := read?_language
  refine ⟨?_, ?_, ?_, ?_, ?_⟩
  · have hspells : Number.Spells (undecorated "€1,234.50".toList) ⟨false, 123450, -2⟩ :=
      Number.Decimal.read?_eq_some_iff.mp (by decide +kernel)
    have hbears : Bears "\t(€1,234.50)".toList true "€1,234.50".toList :=
      bears_iff.mpr (by decide +kernel)
    refine (haccept _ _).mpr ⟨true, _, ⟨_, hbears, hspells⟩, hnearest _ ?_, ?_, ?_⟩
    · have hvalue : |Number.Decimal.value ⟨false, 123450, -2⟩| < 2 ^ 11 := by
        norm_num [Number.Decimal.value, Number.withSign]
      exact hvalue.trans (pow_lt_pow_right₀ one_lt_two (by decide))
    · decide +kernel
    · decide +kernel
  · refine hreject _ false ['٣'] (bears_iff.mpr (by decide +kernel)) ⟨'٣', ?_⟩
    decide +kernel
  · refine hreject _ true "(5)".toList (bears_iff.mpr (by decide +kernel)) ⟨'(', ?_⟩
    decide +kernel
  · refine (hinsert [] [] ['7'] '%' [] (by simp) rfl).1 ⟨⟨false, 7, 0⟩, ?_⟩
    exact Number.Decimal.read?_eq_some_iff.mp (by decide +kernel)
  · exact (hinsert [] [] ['5'] ',' ['0'] (by simp) rfl).2

end Tabular.Amount
