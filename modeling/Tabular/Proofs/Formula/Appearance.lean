import Tabular.Proofs.Formula.Binding
import Tabular.Proofs.Occurrences

/-!
# The order of a formula's columns

Checking a formula lists the columns that it reads, each once. They come in the order in
which they are collected: references in aggregate calls before those outside of them. That is
the order of appearance only where no call stands behind a column that it overtakes
(`validate_columns`).
-/
namespace Tabular.Formula

/-! ## References in a formula -/

/-- The token is a reference that means the column. -/
def Token.RefersTo (t : Token) (available : List String) (column : String) : Prop :=
  t.kind = .column ∧ resolve t.value available = some column

/-- The token is the column of an aggregate call among the tokens. -/
def Token.CalledIn (t : Token) (ts : List Token) : Prop :=
  ∃ before f opening closing after call,
    ts = before ++ f :: opening :: t :: closing :: after ∧
      AggregateCall.ofTokens? f opening t closing = some call

/-- References in aggregate calls are collected before those outside, and each of the two
from the left. -/
def Token.CollectedBefore (t u : Token) (ts : List Token) : Prop :=
  (t.CalledIn ts ∧ ¬ u.CalledIn ts) ∨ ((t.CalledIn ts ↔ u.CalledIn ts) ∧ t.offset < u.offset)

/-- The columns are in the order of their first references. -/
def InOrderOfAppearance (available : List String) (ts : List Token) (columns : List String) :
    Prop :=
  columns.Pairwise fun a b => ∀ u ∈ ts, u.RefersTo available b →
    ∃ t ∈ ts, t.RefersTo available a ∧ t.offset < u.offset

/-- No aggregate call overtakes a column: where a call stands behind a reference to another
column outside of calls, its own column is referred to before that one, or the other column
is in a call before it. -/
def CallsInPlace (available : List String) (ts : List Token) : Prop :=
  ∀ t ∈ ts, ∀ u ∈ ts, ∀ a b, ¬ t.CalledIn ts → u.CalledIn ts → t.offset < u.offset →
    t.RefersTo available b → u.RefersTo available a → a ≠ b →
      (∃ s ∈ ts, s.RefersTo available a ∧ s.offset < t.offset) ∨
        ∃ s ∈ ts, s.CalledIn ts ∧ s.RefersTo available b ∧ s.offset < u.offset

theorem Token.CalledIn.append {t : Token} {ts : List Token} (h : t.CalledIn ts)
    (front : List Token) : t.CalledIn (front ++ ts) := by
  obtain ⟨before, f, opening, closing, after, call, rfl, hcall⟩ := h
  exact ⟨front ++ before, f, opening, closing, after, call, by simp, hcall⟩

/-- A call at the front shares its tokens with no other, so other calls are behind it. -/
theorem calledIn_call {f opening column closing t : Token} {call : AggregateCall}
    (h : AggregateCall.ofTokens? f opening column closing = some call) {rest : List Token} :
    t.CalledIn (f :: opening :: column :: closing :: rest) ↔ t = column ∨ t.CalledIn rest := by
  obtain ⟨-, hopening, hcolumn, hclosing, -⟩ := ofTokens?_eq_some.mp h
  constructor
  · rintro ⟨before, f', opening', closing', after, call', hts, hcall⟩
    have hf' := (ofTokens?_eq_some.mp hcall).1
    match before with
    | [] =>
      cases hts
      exact .inl rfl
    | [_] =>
      cases hts
      simp [Token.kind_of_isParen hopening] at hf'
    | [_, _] =>
      cases hts
      simp [hcolumn] at hf'
    | [_, _, _] =>
      cases hts
      simp [Token.kind_of_isParen hclosing] at hf'
    | _ :: _ :: _ :: _ :: before =>
      cases hts
      exact .inr ⟨before, f', opening', closing', after, call', rfl, hcall⟩
  · rintro (rfl | ht)
    · exact ⟨[], f, opening, closing, rest, call, rfl, h⟩
    · exact ht.append [f, opening, column, closing]

theorem calledIn_alone {f t : Token} {rest : List Token} (h : f.Alone rest) :
    t.CalledIn (f :: rest) ↔ t.CalledIn rest := by
  constructor
  · rintro ⟨before, f', opening, closing, after, call, hts, hcall⟩
    cases before with
    | nil =>
      obtain ⟨rfl, hrest⟩ := List.cons.inj hts
      rw [h _ _ _ _ hrest] at hcall
      cases hcall
    | cons _ before =>
      obtain ⟨rfl, hrest⟩ := List.cons.inj hts
      exact ⟨before, f', opening, closing, after, call, hrest, hcall⟩
  · exact fun ht => ht.append [f]

/-! ## Mentions of columns -/

/-- A column token, and whether it is in an aggregate call. -/
structure Mention where
  token : Token
  called : Bool

/-- The mention that a token outside of calls is. -/
def Token.mention (t : Token) : List Mention := if t.kind = .column then [⟨t, false⟩] else []

/-- The mentions of columns in a token sequence, from left to right. -/
def mentions : List Token → List Mention
  | f :: opening :: column :: closing :: rest =>
    match AggregateCall.ofTokens? f opening column closing with
    | some _ => ⟨column, true⟩ :: mentions rest
    | none => f.mention ++ mentions (opening :: column :: closing :: rest)
  | ts => ts.flatMap Token.mention

theorem mentions_call {f opening column closing : Token} {call : AggregateCall}
    (h : AggregateCall.ofTokens? f opening column closing = some call) (rest : List Token) :
    mentions (f :: opening :: column :: closing :: rest) = ⟨column, true⟩ :: mentions rest := by
  simp [mentions, h]

theorem mentions_alone {t : Token} {rest : List Token} (h : t.Alone rest) :
    mentions (t :: rest) = t.mention ++ mentions rest := by
  match rest with
  | opening :: column :: closing :: after => rw [mentions, h opening column closing after rfl]
  | [] => rfl
  | [_] => rfl
  | [_, _] => simp [mentions]

/-- Every column token is mentioned once. -/
theorem token_mentions (ts : List Token) :
    (mentions ts).map (·.token) = ts.filter (·.kind = .column) := by
  induction ts using segments_induction with
  | nil => rfl
  | @token t rest ht ih =>
    rw [mentions_alone ht, List.map_append, ih, Token.mention, List.filter_cons]
    split <;> simp_all
  | call hc ih =>
    obtain ⟨hf, hopening, hcolumn, hclosing, -⟩ := ofTokens?_eq_some.mp hc
    simp [mentions_call hc, ih, hf, hcolumn, Token.kind_of_isParen hopening,
      Token.kind_of_isParen hclosing]

theorem value_called (ts : List Token) :
    ((mentions ts).filter (·.called)).map (·.token.value) = (calls ts).map (·.column) := by
  induction ts using segments_induction with
  | nil => rfl
  | token ht ih =>
    rw [mentions_alone ht, calls_alone ht, ← ih, Token.mention]
    split <;> simp
  | call hc ih =>
    obtain ⟨-, -, -, -, kind, -, rfl⟩ := ofTokens?_eq_some.mp hc
    simp [mentions_call hc, calls_call hc, ih]

theorem value_bare (ts : List Token) :
    ((mentions ts).filter (!·.called)).map (·.token.value) = bareColumns ts := by
  induction ts using segments_induction with
  | nil => rfl
  | token ht ih =>
    rw [mentions_alone ht, bareColumns_alone ht, ← ih, Token.mention]
    split <;> simp
  | call hc ih => simp [mentions_call hc, bareColumns_call hc, ih]

theorem mem_mentions_called {ts : List Token} {t : Token} :
    ⟨t, true⟩ ∈ mentions ts ↔ t.CalledIn ts := by
  induction ts using segments_induction with
  | nil =>
    refine ⟨fun h => (List.not_mem_nil h).elim, ?_⟩
    rintro ⟨_, _, _, _, _, _, hts, -⟩
    simp at hts
  | token ht ih =>
    rw [mentions_alone ht, calledIn_alone ht, ← ih, Token.mention]
    split <;> simp
  | call hc ih => simp [mentions_call hc, calledIn_call hc, ih]

/-- The mentions in the order in which their columns are collected. -/
def collected (ts : List Token) : List Mention :=
  (mentions ts).filter (·.called) ++ (mentions ts).filter (!·.called)

theorem value_collected (ts : List Token) :
    (collected ts).map (·.token.value) = references ts := by
  rw [collected, List.map_append, value_called, value_bare, references]

theorem mem_collected {ts : List Token} {m : Mention} : m ∈ collected ts ↔ m ∈ mentions ts := by
  cases hm : m.called <;> simp [collected, hm]

theorem exists_mention {ts : List Token} {t : Token} :
    (∃ m ∈ collected ts, m.token = t) ↔ t ∈ ts ∧ t.kind = .column := by
  simp only [mem_collected]
  rw [← List.mem_map, token_mentions, List.mem_filter, decide_eq_true_eq]

section
variable {ts : List Token}

theorem mentions_offsets (h : OffsetsAscend ts) :
    (mentions ts).Pairwise fun m n => m.token.offset < n.token.offset := by
  have htokens := List.Pairwise.filter (fun t => decide (t.kind = .column)) h
  rwa [← token_mentions, List.pairwise_map] at htokens

/-- Offsets tell tokens apart, so a token is not mentioned both in a call and outside. -/
theorem called_iff (h : OffsetsAscend ts) {m : Mention}
    (hm : m ∈ mentions ts) : m.called = true ↔ m.token.CalledIn ts := by
  obtain ⟨t, called⟩ := m
  rw [← mem_mentions_called]
  constructor
  · rintro rfl
    exact hm
  · intro ht
    cases eq_of_pairwise_lt (mentions_offsets h) hm ht rfl
    rfl

theorem collected_order (h : OffsetsAscend ts) :
    (collected ts).Pairwise fun m n => m.token.CollectedBefore n.token ts := by
  have hcalled : ∀ m ∈ (mentions ts).filter (·.called), m.token.CalledIn ts := fun m hm =>
    (called_iff h (List.mem_filter.mp hm).1).mp (List.mem_filter.mp hm).2
  have hbare : ∀ m ∈ (mentions ts).filter (!·.called), ¬ m.token.CalledIn ts := by
    intro m hm hin
    have hnot := (List.mem_filter.mp hm).2
    rw [(called_iff h (List.mem_filter.mp hm).1).mpr hin] at hnot
    cases hnot
  refine List.pairwise_append.mpr ⟨?_, ?_, fun m hm n hn => .inl ⟨hcalled m hm, hbare n hn⟩⟩
  · exact ((mentions_offsets h).filter _).imp_of_mem fun hm hn hlt =>
      .inr ⟨iff_of_true (hcalled _ hm) (hcalled _ hn), hlt⟩
  · exact ((mentions_offsets h).filter _).imp_of_mem fun hm hn hlt =>
      .inr ⟨iff_of_false (hbare _ hm) (hbare _ hn), hlt⟩

end

/-! ## Collected columns -/

/-- `columns` are the columns that the tokens refer to, each once and in the order in which
they are collected. -/
structure CollectedFrom (available : List String) (ts : List Token) (columns : List String) :
    Prop where
  nodup : columns.Nodup
  mem : ∀ c, c ∈ columns ↔ ∃ t ∈ ts, t.RefersTo available c
  order : columns.Pairwise fun a b => ∀ u ∈ ts, u.RefersTo available b →
    ∃ t ∈ ts, t.RefersTo available a ∧ t.CollectedBefore u ts

section
variable {available : List String} {ts : List Token}
  (hknown : ∀ name ∈ references ts, ∃ column, resolve name available = some column)
include hknown

theorem refersTo_of_mem_collected {m : Mention} (hm : m ∈ collected ts) :
    m.token ∈ ts ∧ m.token.RefersTo available (spelled available m.token.value) := by
  obtain ⟨hmem, hk⟩ := exists_mention.mp ⟨m, hm, rfl⟩
  obtain ⟨column, hc⟩ := forall_mem_references.mp hknown _ hmem hk
  exact ⟨hmem, hk, by rw [spelled_of_resolve hc, hc]⟩

theorem collectedFrom_references (h : OffsetsAscend ts) :
    CollectedFrom available ts (noteAll available (references ts) []) := by
  let column (m : Mention) : String := spelled available m.token.value
  have hfind : ∀ t ∈ ts, ∀ c, t.RefersTo available c →
      ∃ m ∈ collected ts, m.token = t ∧ column m = c := by
    rintro t ht c ⟨hk, hc⟩
    obtain ⟨m, hm, rfl⟩ := exists_mention.mpr ⟨ht, hk⟩
    exact ⟨m, hm, rfl, spelled_of_resolve hc⟩
  have hcolumns : noteAll available (references ts) [] =
      ((collected ts).map column).eraseDups := by
    rw [noteAll_nil, ← value_collected, List.map_map, Function.comp_def]
  have hfirst := firstOccurrences_eraseDups ((collected ts).map column)
  rw [hcolumns]
  refine ⟨hfirst.nodup, fun c => ?_, ?_⟩
  · rw [hfirst.mem, List.mem_map]
    constructor
    · rintro ⟨m, hm, rfl⟩
      exact ⟨m.token, refersTo_of_mem_collected hknown hm⟩
    · rintro ⟨t, ht, hc⟩
      obtain ⟨m, hm, -, hvalue⟩ := hfind t ht c hc
      exact ⟨m, hm, hvalue⟩
  · refine (hfirst.pairwise (collected_order h)).imp fun {a b} hbefore u hu hb => ?_
    obtain ⟨n, hn, rfl, hvalue⟩ := hfind u hu b hb
    obtain ⟨m, hm, rfl, hmn⟩ := hbefore n hn hvalue
    obtain ⟨hmem, hrefers⟩ := refersTo_of_mem_collected hknown hm
    exact ⟨m.token, hmem, hrefers, hmn⟩

end

namespace CollectedFrom
variable {available columns : List String} {ts : List Token}

/-- Where columns are in order of appearance, no call overtakes one. -/
theorem callsInPlace (h : CollectedFrom available ts columns)
    (hin : InOrderOfAppearance available ts columns) : CallsInPlace available ts := by
  intro t ht u hu a b htbare hucalled _ hb ha hne
  -- Either column comes before the other, both as collected and as it appears.
  have hma := (h.mem a).mpr ⟨u, hu, ha⟩
  have hmb := (h.mem b).mpr ⟨t, ht, hb⟩
  rcases pairwise_or_of_ne (h.order.and hin) hma hmb hne with ⟨-, happears⟩ | ⟨hcollected, -⟩
  · exact .inl (happears t ht hb)
  · obtain ⟨s, hs, hsb, hsu⟩ := hcollected u hu ha
    rcases hsu with ⟨-, hubare⟩ | ⟨hcalled, hlt⟩
    · exact absurd hucalled hubare
    · exact .inr ⟨s, hs, hcalled.mpr hucalled, hsb, hlt⟩

/-- A column collected from a call appears before one that the call does not overtake. -/
theorem exists_before (hplace : CallsInPlace available ts)
    (hoffsets : OffsetsAscend ts) {a b : String} (hne : a ≠ b)
    (hab : ∀ u ∈ ts, u.RefersTo available b →
      ∃ t ∈ ts, t.RefersTo available a ∧ t.CollectedBefore u ts)
    {w : Token} (hw : w ∈ ts) (hbare : ¬ w.CalledIn ts) (hwb : w.RefersTo available b)
    {u : Token} (hu : u ∈ ts) (hcalled : u.CalledIn ts) (hua : u.RefersTo available a) :
    ∃ t ∈ ts, t.RefersTo available a ∧ t.offset < w.offset := by
  -- A call on `b` before the call on `a` makes an earlier call on `a`.
  induction hoffset : u.offset using Nat.strongRecOn generalizing u with
  | ind n ih =>
    subst hoffset
    rcases Nat.lt_trichotomy u.offset w.offset with hlt | he | hgt
    · exact ⟨u, hu, hua, hlt⟩
    · exact absurd (eq_of_pairwise_lt hoffsets hu hw he ▸ hcalled) hbare
    rcases hplace w hw u hu a b hbare hcalled hgt hwb hua hne with
      happears | ⟨s, hs, hscalled, hsb, hsu⟩
    · exact happears
    · obtain ⟨t, ht, hta, hts⟩ := hab s hs hsb
      rcases hts with ⟨-, hsbare⟩ | ⟨hboth, hlt⟩
      · exact absurd hscalled hsbare
      · exact ih t.offset (hlt.trans hsu) ht (hboth.mpr hscalled) hta rfl

/-- Columns are in order of appearance exactly if no call overtakes one. -/
theorem inOrderOfAppearance_iff (h : CollectedFrom available ts columns)
    (hoffsets : OffsetsAscend ts) :
    InOrderOfAppearance available ts columns ↔ CallsInPlace available ts := by
  refine ⟨h.callsInPlace, fun hplace => ?_⟩
  refine (h.order.and h.nodup).imp fun {a b} ⟨hab, hne⟩ w hw hwb => ?_
  obtain ⟨t, ht, hta, htw⟩ := hab w hw hwb
  rcases htw with ⟨hcalled, hbare⟩ | ⟨-, hlt⟩
  · exact exists_before hplace hoffsets hne hab hw hbare hwb ht hcalled hta
  · exact ⟨t, ht, hta, hlt⟩

end CollectedFrom

/-- A valid formula's columns are those that it refers to, each once, those in aggregate calls
first. They are in order of appearance exactly if no call overtakes a column. -/
theorem validate_columns {formula : String} {available : List String} {summary : Summary}
    (h : validate formula available = .ok summary) :
    tokenize formula = .ok summary.tokens ∧
      CollectedFrom available summary.tokens summary.columns ∧
      (InOrderOfAppearance available summary.tokens summary.columns ↔
        CallsInPlace available summary.tokens) := by
  obtain ⟨htokens, hknown, hcolumns⟩ := columns_of_validate h
  have hoffsets := offsets_of_tokenize htokens
  have hcollected := collectedFrom_references hknown hoffsets
  rw [← hcolumns] at hcollected
  exact ⟨htokens, hcollected, hcollected.inOrderOfAppearance_iff hoffsets⟩

theorem validate_columns_quotient :
    let summary : Summary := ⟨[⟨.function, "SUM", 0⟩, ⟨.paren, "(", 3⟩, ⟨.column, "revenue", 4⟩,
      ⟨.paren, ")", 11⟩, ⟨.operator, "/", 13⟩, ⟨.column, "Order Count", 15⟩],
      ["Revenue", "order_count"], ["SUM_Revenue"], "1 [order_count] /"⟩
    validate "SUM(revenue) / [Order Count]" ["order_count", "Revenue"] = .ok summary ∧
      CollectedFrom ["order_count", "Revenue"] summary.tokens summary.columns ∧
      CallsInPlace ["order_count", "Revenue"] summary.tokens ∧
      InOrderOfAppearance ["order_count", "Revenue"] summary.tokens summary.columns := by
  intro summary
  have h : validate "SUM(revenue) / [Order Count]" ["order_count", "Revenue"] = .ok summary := by
    decide +kernel
  obtain ⟨-, hcollected, horder⟩ := validate_columns h
  have hplace : CallsInPlace ["order_count", "Revenue"] summary.tokens := by
    have hlast : ∀ w ∈ summary.tokens, w.offset ≤ 15 := by decide
    have hcolumns : ∀ w ∈ summary.tokens, w.kind = .column →
        w = ⟨.column, "revenue", 4⟩ ∨ w = ⟨.column, "Order Count", 15⟩ := by decide
    -- The only column outside of calls is the last token, so there is no call to overtake it.
    intro t ht u hu a b hbare _ hlt hrefers
    rcases hcolumns t ht hrefers.1 with rfl | rfl
    · exact absurd ⟨[], _, _, _, _, _, rfl, rfl⟩ hbare
    · exact absurd hlt (Nat.not_lt.mpr (hlast u hu))
  exact ⟨h, hcollected, hplace, horder.mpr hplace⟩

/-- A call behind a column puts its own column before that one. -/
theorem not_inOrderOfAppearance :
    ¬ ∀ formula available summary, validate formula available = .ok summary →
      InOrderOfAppearance available summary.tokens summary.columns := by
  intro h
  have hvalid : validate "Cost + SUM(Revenue)" ["Cost", "Revenue"] =
      .ok ⟨[⟨.column, "Cost", 0⟩, ⟨.operator, "+", 5⟩, ⟨.function, "SUM", 7⟩, ⟨.paren, "(", 10⟩,
        ⟨.column, "Revenue", 11⟩, ⟨.paren, ")", 18⟩],
        ["Revenue", "Cost"], ["SUM_Revenue"], "[Cost] 1 +"⟩ := by decide +kernel
  have horder := (List.pairwise_cons.mp (h _ _ _ hvalid)).1 "Cost" List.mem_cons_self
  obtain ⟨t, -, -, hlt⟩ := horder ⟨.column, "Cost", 0⟩ List.mem_cons_self ⟨rfl, by decide +kernel⟩
  exact Nat.not_lt_zero _ hlt

end Tabular.Formula
