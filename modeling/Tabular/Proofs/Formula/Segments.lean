import Tabular.Formula
import Tabular.Proofs.Formula.Conversion

/-!
# Aggregate calls as single tokens

`segments` groups a token sequence into aggregate calls and the tokens between them.
A formula parses exactly if its segments do when every call is rendered as one operand,
and the parse trees are the same up to that rendering, whatever the operand is.
-/
namespace Tabular.Formula

/-- A token, or the aggregate call that four tokens make. -/
inductive Segment
  | token (t : Token)
  | call (call : AggregateCall)

/-- The segments of a token sequence; calls are found from left to right. -/
def segments : List Token → List Segment
  | f :: opening :: column :: closing :: rest =>
    match AggregateCall.ofTokens? f opening column closing with
    | some call => .call call :: segments rest
    | none => .token f :: segments (opening :: column :: closing :: rest)
  | ts => ts.map .token

/-- The token may be the first of an aggregate call. -/
def Token.Aggregates (t : Token) : Prop :=
  t.kind = .function ∧ ∃ kind, aggregateOfName? (Text.upper t.value) = some kind

theorem ofTokens?_eq_some {f opening column closing : Token} {call : AggregateCall} :
    AggregateCall.ofTokens? f opening column closing = some call ↔
      f.kind = .function ∧ opening.isParen '(' ∧ column.kind = .column ∧ closing.isParen ')' ∧
        ∃ kind, aggregateOfName? (Text.upper f.value) = some kind ∧
          call = ⟨Text.upper f.value, kind, column.value, f.offset⟩ := by
  simp only [AggregateCall.ofTokens?]
  split
  · rename_i h
    obtain ⟨hf, ho, hc, hcl⟩ := h
    simp only [Option.map_eq_some_iff, hf, ho, hc, hcl, true_and]
    exact exists_congr fun kind => and_congr_right fun _ => eq_comm
  · rename_i h
    simp only [reduceCtorEq, false_iff, not_and, not_exists]
    exact fun hf ho hc hcl => absurd ⟨hf, ho, hc, hcl⟩ h

/-- No aggregate call begins at the token, with the rest behind it. -/
def Token.Alone (t : Token) (rest : List Token) : Prop :=
  ∀ opening column closing after, rest = opening :: column :: closing :: after →
    AggregateCall.ofTokens? t opening column closing = none

theorem Token.alone_of_not_aggregates {t : Token} (h : ¬ t.Aggregates) (rest : List Token) :
    t.Alone rest := by
  intro opening column closing _ _
  cases hc : AggregateCall.ofTokens? t opening column closing with
  | none => rfl
  | some call =>
    obtain ⟨hf, -, -, -, kind, hk, -⟩ := ofTokens?_eq_some.mp hc
    exact absurd ⟨hf, kind, hk⟩ h

theorem segments_call {f opening column closing : Token} {call : AggregateCall}
    (h : AggregateCall.ofTokens? f opening column closing = some call) (rest : List Token) :
    segments (f :: opening :: column :: closing :: rest) = .call call :: segments rest := by
  simp [segments, h]

theorem segments_alone {t : Token} {rest : List Token} (h : t.Alone rest) :
    segments (t :: rest) = .token t :: segments rest := by
  match rest with
  | opening :: column :: closing :: after =>
    rw [segments, h opening column closing after rfl]
  | [] => rfl
  | [_] => rfl
  | [_, _] => rfl

theorem segments_token {t : Token} (h : ¬ t.Aggregates) (ts : List Token) :
    segments (t :: ts) = .token t :: segments ts := segments_alone (t.alone_of_not_aggregates h ts)

/-- Token sequences are taken apart as their segments are: a call at a time, and a token at
a time between the calls. -/
@[elab_as_elim]
theorem segments_induction {motive : List Token → Prop} (ts : List Token) (nil : motive [])
    (token : ∀ {t rest}, t.Alone rest → motive rest → motive (t :: rest))
    (call : ∀ {f opening column closing call rest},
      AggregateCall.ofTokens? f opening column closing = some call → motive rest →
      motive (f :: opening :: column :: closing :: rest)) : motive ts := by
  match ts with
  | [] => exact nil
  | t :: rest =>
    by_cases h : t.Alone rest
    · exact token h (segments_induction rest nil token call)
    · simp only [Token.Alone, not_forall] at h
      obtain ⟨opening, column, closing, after, rfl, hsome⟩ := h
      obtain ⟨c, hc⟩ := Option.ne_none_iff_exists'.mp hsome
      exact call hc (segments_induction after nil token call)
termination_by ts.length

/-- The first segment is the first token or a call of the first four. -/
theorem segments_eq_cons {ts : List Token} {segment : Segment} {segs : List Segment}
    (h : segments ts = segment :: segs) :
    (∃ t rest, ts = t :: rest ∧ segment = .token t ∧ segs = segments rest) ∨
      ∃ f opening column closing call rest, ts = f :: opening :: column :: closing :: rest ∧
        AggregateCall.ofTokens? f opening column closing = some call ∧
        segment = .call call ∧ segs = segments rest := by
  match ts with
  | f :: opening :: column :: closing :: rest =>
    rw [segments] at h
    split at h
    · rename_i call hc
      obtain ⟨rfl, rfl⟩ := List.cons.inj h
      exact .inr ⟨f, opening, column, closing, call, rest, rfl, hc, rfl, rfl⟩
    · obtain ⟨rfl, rfl⟩ := List.cons.inj h
      exact .inl ⟨f, _, rfl, rfl, rfl⟩
  | [] => cases h
  | [a] => exact .inl (by cases h; exact ⟨a, _, rfl, rfl, rfl⟩)
  | [a, b] => exact .inl (by cases h; exact ⟨a, _, rfl, rfl, rfl⟩)
  | [a, b, c] => exact .inl (by cases h; exact ⟨a, _, rfl, rfl, rfl⟩)

theorem segments_eq_nil {ts : List Token} : segments ts = [] ↔ ts = [] := by
  match ts with
  | f :: opening :: column :: closing :: rest =>
    rw [segments]
    split <;> simp
  | [] => simp [segments]
  | [_] => simp [segments]
  | [_, _] => simp [segments]
  | [_, _, _] => simp [segments]

/-- A token that stands for itself is one of the tokens. -/
theorem mem_of_token_mem {ts : List Token} {t : Token} (h : .token t ∈ segments ts) : t ∈ ts := by
  induction ts using segments_induction with
  | nil => cases h
  | @token u rest hu ih =>
    rw [segments_alone hu] at h
    rcases List.mem_cons.mp h with he | h
    · cases he
      exact List.mem_cons_self
    · exact List.mem_cons_of_mem _ (ih h)
  | @call _ _ _ _ _ rest hc ih =>
    rw [segments_call hc] at h
    rcases List.mem_cons.mp h with he | h
    · cases he
    · simp [ih h]

/-! ## What the segments refer to -/

/-- The call a segment is. -/
def Segment.call? : Segment → Option AggregateCall
  | token _ => none
  | call c => some c

/-- The column a segment refers to outside of aggregate calls. -/
def Segment.bare? : Segment → Option String
  | token t => if t.kind = .column then some t.value else none
  | call _ => none

/-- The aggregate calls of a token sequence, in order. -/
def calls (ts : List Token) : List AggregateCall := (segments ts).filterMap Segment.call?

/-- The columns referred to outside of aggregate calls, in order. -/
def bareColumns (ts : List Token) : List String := (segments ts).filterMap Segment.bare?

/-- All columns referred to: those in aggregate calls first. -/
def references (ts : List Token) : List String := (calls ts).map (·.column) ++ bareColumns ts

theorem calls_alone {t : Token} {rest : List Token} (h : t.Alone rest) :
    calls (t :: rest) = calls rest := by
  rw [calls, segments_alone h]
  rfl

theorem calls_call {f opening column closing : Token} {call : AggregateCall}
    (h : AggregateCall.ofTokens? f opening column closing = some call) (rest : List Token) :
    calls (f :: opening :: column :: closing :: rest) = call :: calls rest := by
  rw [calls, segments_call h]
  rfl

theorem bareColumns_alone {t : Token} {rest : List Token} (h : t.Alone rest) :
    bareColumns (t :: rest) =
      if t.kind = .column then t.value :: bareColumns rest else bareColumns rest := by
  rw [bareColumns, segments_alone h]
  by_cases hk : t.kind = .column
  · rw [if_pos hk]
    exact List.filterMap_cons_some (by simp [Segment.bare?, hk])
  · rw [if_neg hk]
    exact List.filterMap_cons_none (by simp [Segment.bare?, hk])

theorem bareColumns_call {f opening column closing : Token} {call : AggregateCall}
    (h : AggregateCall.ofTokens? f opening column closing = some call) (rest : List Token) :
    bareColumns (f :: opening :: column :: closing :: rest) = bareColumns rest := by
  rw [bareColumns, segments_call h]
  rfl

/-- The columns referred to are those of the column tokens. -/
theorem mem_references {ts : List Token} {name : String} :
    name ∈ references ts ↔ ∃ t ∈ ts, t.kind = .column ∧ t.value = name := by
  induction ts using segments_induction with
  | nil => simp [references, calls, bareColumns, segments]
  | @token t rest ht ih =>
    simp only [references, List.mem_append] at ih ⊢
    simp only [calls_alone ht, bareColumns_alone ht, List.mem_cons, exists_eq_or_imp, ← ih]
    by_cases hk : t.kind = .column
    · simp only [hk, if_true, true_and, List.mem_cons]
      grind
    · simp only [hk, if_false, false_and, false_or]
  | @call f opening column closing c rest hc ih =>
    obtain ⟨hf, ho, hcol, hcl, kind, -, rfl⟩ := ofTokens?_eq_some.mp hc
    have hopen := Token.kind_of_isParen ho
    have hclose := Token.kind_of_isParen hcl
    simp only [references, List.mem_append] at ih ⊢
    simp only [calls_call hc, bareColumns_call hc, List.map_cons, List.mem_cons,
      exists_eq_or_imp, hf, hcol, hopen, hclose, reduceCtorEq, false_and, false_or, true_and,
      ← ih]
    grind

theorem forall_mem_references {ts : List Token} {P : String → Prop} :
    (∀ name ∈ references ts, P name) ↔ ∀ t ∈ ts, t.kind = .column → P t.value := by
  constructor
  · intro h t ht hk
    exact h t.value (mem_references.mpr ⟨t, ht, hk, rfl⟩)
  · intro h name hn
    obtain ⟨t, ht, hk, rfl⟩ := mem_references.mp hn
    exact h t ht hk

theorem function_of_mem_calls {ts : List Token} {c : AggregateCall} (h : c ∈ calls ts) :
    aggregateOfName? c.function = some c.kind := by
  induction ts using segments_induction with
  | nil => cases h
  | token ht ih =>
    rw [calls_alone ht] at h
    exact ih h
  | call hc ih =>
    rw [calls_call hc] at h
    rcases List.mem_cons.mp h with rfl | h
    · obtain ⟨-, -, -, -, kind, hk, rfl⟩ := ofTokens?_eq_some.mp hc
      exact hk
    · exact ih h

/-! ## Renderings -/

/-- A column token under another name. -/
def Token.rename (column : String → String) (t : Token) : Token :=
  if t.kind = .column then ⟨.column, column t.value, t.offset⟩ else t

/-- The token that a segment becomes when columns go under other names and every call is
one token. -/
def Segment.render (column : String → String) (put : AggregateCall → Token) : Segment → Token
  | token t => t.rename column
  | call c => put c

/-- A way to put a formula as plain arithmetic: columns under other names, and one token
for each aggregate call, which reads as an operand whatever follows. -/
structure Rendering where
  column : String → String
  call : AggregateCall → Token
  operand : AggregateCall → Operand
  reads : ∀ c rest, Operand.Reads (call c :: rest) (operand c) rest

namespace Rendering

/-- The tokens that a token sequence becomes. -/
def tokens (r : Rendering) (ts : List Token) : List Token :=
  (segments ts).map (Segment.render r.column r.call)

/-- The operand that an atom becomes. -/
def atom (r : Rendering) : Atom → Operand
  | .plain (.number x) => .number x
  | .plain (.column name offset) => .column (r.column name) offset
  | .aggregate c => r.operand c

end Rendering

/-- A tree with other operands. -/
def Tree.map {α β : Type} (f : α → β) : Tree α → Tree β
  | operand a => .operand (f a)
  | call g offset inner => .call g offset (inner.map f)
  | group inner => .group (inner.map f)
  | negate offset inner => .negate offset (inner.map f)
  | plus inner => .plus (inner.map f)
  | binary op offset left right => .binary op offset (left.map f) (right.map f)

/-- The operands of a tree, from left to right. -/
def Tree.operands {α : Type} : Tree α → List α
  | operand a => [a]
  | call _ _ inner => inner.operands
  | group inner => inner.operands
  | negate _ inner => inner.operands
  | plus inner => inner.operands
  | binary _ _ left right => left.operands ++ right.operands

/-- A part of the grammar with other operands. -/
def Part.map {α β : Type} (f : α → β) : Part α → Part β
  | factor => .factor
  | level l => .level l
  | tail l left => .tail l (left.map f)

@[simp] theorem Level.map_operand {α β : Type} (f : α → β) (l : Level) :
    (l.operand : Part α).map f = l.operand := by cases l <;> rfl

theorem Token.rename_of_ne {t : Token} (h : t.kind ≠ .column) (column : String → String) :
    t.rename column = t := if_neg h

theorem Token.rename_id (t : Token) : t.rename id = t := by
  obtain ⟨kind, value, offset⟩ := t
  cases kind <;> rfl

/-! ## Tokens of the grammar -/

/-- The token belongs to no operand, so every rendering keeps it. -/
structure Token.Fixed (t : Token) : Prop where
  number : t.kind ≠ .number
  column : t.kind ≠ .column
  aggregates : ¬ t.Aggregates

theorem Token.not_aggregates {t : Token} (h : t.kind ≠ .function) : ¬ t.Aggregates :=
  fun ha => h ha.1

theorem aggregateOfName?_name (f : NumberFunction) : aggregateOfName? f.name = none := by
  cases f <;> decide

theorem Token.Calls.fixed {t : Token} {f : NumberFunction} (h : t.Calls f) : t.Fixed where
  number := by simp [h.1]
  column := by simp [h.1]
  aggregates := by
    rintro ⟨-, kind, hk⟩
    rw [NumberFunction.ofName?_eq_some.mp h.2, aggregateOfName?_name] at hk
    cases hk

theorem Token.Writes.fixed {t : Token} {op : Operator} (h : t.Writes op) : t.Fixed where
  number := by simp [h.1]
  column := by simp [h.1]
  aggregates := Token.not_aggregates (by simp [h.1])

theorem Token.fixed_of_paren {t : Token} (h : t.kind = .paren) : t.Fixed where
  number := by simp [h]
  column := by simp [h]
  aggregates := Token.not_aggregates (by simp [h])

theorem Token.fixed_of_isParen {t : Token} {c : Char} (h : t.isParen c = true) : t.Fixed :=
  Token.fixed_of_paren (Token.kind_of_isParen h)

theorem Token.Closes.fixed {t : Token} (h : t.Closes) : t.Fixed := Token.fixed_of_paren h.1

theorem Operand.Reads.kind {t : Token} {ts rest : List Token} {a : Operand}
    (h : Operand.Reads (t :: ts) a rest) : t.kind = .number ∨ t.kind = .column := by
  cases h with
  | number hk _ => exact .inl hk
  | column hk => exact .inr hk

namespace Rendering
variable {r : Rendering}

theorem tokens_alone {t : Token} {rest : List Token} (h : t.Alone rest) :
    r.tokens (t :: rest) = t.rename r.column :: r.tokens rest := by
  rw [tokens, segments_alone h]
  rfl

theorem tokens_cons {t : Token} (h : ¬ t.Aggregates) (ts : List Token) :
    r.tokens (t :: ts) = t.rename r.column :: r.tokens ts :=
  tokens_alone (t.alone_of_not_aggregates h ts)

theorem tokens_fixed {t : Token} (h : t.Fixed) (ts : List Token) :
    r.tokens (t :: ts) = t :: r.tokens ts := by
  rw [tokens_cons h.aggregates, Token.rename_of_ne h.column]

theorem tokens_call {f opening column closing : Token} {call : AggregateCall}
    (h : AggregateCall.ofTokens? f opening column closing = some call) (rest : List Token) :
    r.tokens (f :: opening :: column :: closing :: rest) = r.call call :: r.tokens rest := by
  rw [tokens, segments_call h]
  rfl

theorem tokens_eq_nil {ts : List Token} : r.tokens ts = [] ↔ ts = [] := by
  rw [tokens, List.map_eq_nil_iff, segments_eq_nil]

/-- The first rendered token is the first token or stands for a call of the first four. -/
theorem tokens_eq_cons {ts : List Token} {t' : Token} {ts' : List Token}
    (h : r.tokens ts = t' :: ts') :
    (∃ t rest, ts = t :: rest ∧ t' = t.rename r.column ∧ ts' = r.tokens rest) ∨
      ∃ f opening column closing call rest, ts = f :: opening :: column :: closing :: rest ∧
        AggregateCall.ofTokens? f opening column closing = some call ∧
        t' = r.call call ∧ ts' = r.tokens rest := by
  obtain ⟨segment, segs, hs, rfl, rfl⟩ := List.map_eq_cons_iff.mp h
  rcases segments_eq_cons hs with ⟨t, rest, rfl, rfl, rfl⟩ |
      ⟨f, opening, column, closing, call, rest, rfl, hc, rfl, rfl⟩
  · exact .inl ⟨t, rest, rfl, rfl, rfl⟩
  · exact .inr ⟨f, opening, column, closing, call, rest, rfl, hc, rfl, rfl⟩

/-- A rendered token that is no operand was there before. -/
theorem tokens_eq_fixed {ts : List Token} {t : Token} {ts' : List Token} (ht : t.Fixed)
    (h : r.tokens ts = t :: ts') : ∃ rest, ts = t :: rest ∧ ts' = r.tokens rest := by
  rcases tokens_eq_cons h with ⟨u, rest, rfl, rfl, rfl⟩ | ⟨_, _, _, _, call, _, rfl, -, rfl, rfl⟩
  · by_cases hu : u.kind = .column
    · exact absurd (by simp [Token.rename, hu]) ht.column
    · exact ⟨rest, by rw [Token.rename_of_ne hu], rfl⟩
  · rcases (r.reads call []).kind with hk | hk
    · exact absurd hk ht.number
    · exact absurd hk ht.column

end Rendering

/-! ## Parsing before and after -/

theorem Atom.Reads.render (r : Rendering) {ts rest : List Token} {a : Atom}
    (h : Atom.Reads ts a rest) : Operand.Reads (r.tokens ts) (r.atom a) (r.tokens rest) := by
  cases h with
  | plain h =>
    cases h with
    | @number t x _ hk hx =>
      rw [Rendering.tokens_cons (Token.not_aggregates (by simp [hk])),
        Token.rename_of_ne (by simp [hk])]
      exact .number hk hx
    | @column t _ hk =>
      rw [Rendering.tokens_cons (Token.not_aggregates (by simp [hk])), Token.rename, if_pos hk]
      exact .column rfl
  | aggregate hf hk ho hc hcl =>
    have hcall := ofTokens?_eq_some.mpr ⟨hf, ho, hc, hcl, _, hk, rfl⟩
    rw [Rendering.tokens_call hcall]
    exact r.reads _ _

/-- What parses as a formula parses as plain arithmetic once it is rendered. -/
theorem Derives.render (r : Rendering) {part : Part Atom} {ts rest : List Token}
    {tree : Tree Atom} (h : Derives Atom.Reads part ts tree rest) :
    Derives Operand.Reads (part.map r.atom) (r.tokens ts) (tree.map r.atom) (r.tokens rest) := by
  induction h with
  | level _ _ ihf iht => exact .level (by simpa using ihf) iht
  | tailEnd => exact .tailEnd
  | tailStep hw hp _ _ ihr iht =>
    rw [Rendering.tokens_fixed hw.fixed]
    exact .tailStep hw hp (by simpa using ihr) iht
  | operand ha => exact .operand (ha.render r)
  | call hc ho hcl _ ih =>
    rw [Rendering.tokens_fixed hcl.fixed] at ih
    rw [Rendering.tokens_fixed hc.fixed, Rendering.tokens_fixed (Token.fixed_of_isParen ho)]
    exact .call hc ho hcl ih
  | group ho hcl _ ih =>
    rw [Rendering.tokens_fixed hcl.fixed] at ih
    rw [Rendering.tokens_fixed (Token.fixed_of_isParen ho)]
    exact .group ho hcl ih
  | negate hw _ ih =>
    rw [Rendering.tokens_fixed hw.fixed]
    exact .negate hw ih
  | plus hw _ ih =>
    rw [Rendering.tokens_fixed hw.fixed]
    exact .plus hw ih

theorem Operand.Reads.of_render {r : Rendering} {ts : List Token} {a' : Operand}
    {rest' : List Token} (h : Operand.Reads (r.tokens ts) a' rest') :
    ∃ a rest, Atom.Reads ts a rest ∧ a' = r.atom a ∧ rest' = r.tokens rest := by
  obtain ⟨t', ts', hts, -⟩ := Operand.separates.head h
  rw [hts] at h
  rcases Rendering.tokens_eq_cons hts with ⟨t, rest, rfl, rfl, rfl⟩ |
      ⟨_, _, _, _, call, rest, rfl, hcall, rfl, rfl⟩
  · by_cases hk : t.kind = .column
    · rw [Token.rename, if_pos hk] at h
      cases h with
      | number hn _ => cases hn
      | column _ => exact ⟨_, rest, .plain (.column hk), rfl, rfl⟩
    · rw [Token.rename_of_ne hk] at h
      cases h with
      | number hn hx => exact ⟨_, rest, .plain (.number hn hx), rfl, rfl⟩
      | column hc => exact absurd hc hk
  · obtain ⟨hf, ho, hc, hcl, kind, hkind, rfl⟩ := ofTokens?_eq_some.mp hcall
    obtain ⟨rfl, rfl⟩ := Operand.separates.unique h (r.reads _ _)
    exact ⟨_, rest, .aggregate hf hkind ho hc hcl, rfl, rfl⟩

/-- What parses as plain arithmetic once it is rendered parses as a formula. -/
theorem Derives.of_render {r : Rendering} {part' : Part Operand} {ts' rest' : List Token}
    {tree' : Tree Operand} (h : Derives Operand.Reads part' ts' tree' rest') {part : Part Atom}
    {ts : List Token} (hp : part' = part.map r.atom) (hts : ts' = r.tokens ts) :
    ∃ tree rest, Derives Atom.Reads part ts tree rest ∧ tree' = tree.map r.atom ∧
      rest' = r.tokens rest := by
  induction h generalizing part ts with
  | @level l _ _ _ _ _ _ _ ihf iht =>
    cases part with
    | level =>
      cases hp
      obtain ⟨first, between, hf, rfl, hb⟩ := ihf (Level.map_operand r.atom l).symm hts
      obtain ⟨tree, rest, ht, rfl, hr⟩ := @iht (.tail l first) _ rfl hb
      exact ⟨tree, rest, .level hf ht, rfl, hr⟩
    | _ => cases hp
  | tailEnd =>
    cases part with
    | tail => cases hp; exact ⟨_, ts, .tailEnd, rfl, hts⟩
    | _ => cases hp
  | @tailStep l _ t op _ _ _ _ _ hw hprec _ _ ihr iht =>
    cases part with
    | tail l left =>
      cases hp
      obtain ⟨us, rfl, hus⟩ := Rendering.tokens_eq_fixed hw.fixed hts.symm
      obtain ⟨right, between, hr, rfl, hb⟩ := ihr (Level.map_operand r.atom l).symm hus
      obtain ⟨tree, rest, ht, rfl, hrest⟩ :=
        @iht (.tail l (.binary op t.offset left right)) _ rfl hb
      exact ⟨tree, rest, .tailStep hw hprec hr ht, rfl, hrest⟩
    | _ => cases hp
  | operand ha =>
    cases part with
    | factor =>
      obtain ⟨a, rest, ha', rfl, rfl⟩ := Operand.Reads.of_render (hts ▸ ha)
      exact ⟨.operand a, rest, .operand ha', rfl, rfl⟩
    | _ => cases hp
  | call hc ho hcl _ ih =>
    cases part with
    | factor =>
      obtain ⟨us, rfl, hus⟩ := Rendering.tokens_eq_fixed hc.fixed hts.symm
      obtain ⟨vs, rfl, hvs⟩ := Rendering.tokens_eq_fixed (Token.fixed_of_isParen ho) hus.symm
      obtain ⟨inner, after, hi, rfl, ha⟩ := @ih (.level .sum) _ rfl hvs
      obtain ⟨rest, rfl, hr⟩ := Rendering.tokens_eq_fixed hcl.fixed ha.symm
      exact ⟨_, rest, .call hc ho hcl hi, rfl, hr⟩
    | _ => cases hp
  | group ho hcl _ ih =>
    cases part with
    | factor =>
      obtain ⟨us, rfl, hus⟩ := Rendering.tokens_eq_fixed (Token.fixed_of_isParen ho) hts.symm
      obtain ⟨inner, after, hi, rfl, ha⟩ := @ih (.level .sum) _ rfl hus
      obtain ⟨rest, rfl, hr⟩ := Rendering.tokens_eq_fixed hcl.fixed ha.symm
      exact ⟨_, rest, .group ho hcl hi, rfl, hr⟩
    | _ => cases hp
  | negate hw _ ih =>
    cases part with
    | factor =>
      obtain ⟨us, rfl, hus⟩ := Rendering.tokens_eq_fixed hw.fixed hts.symm
      obtain ⟨inner, rest, hi, rfl, hr⟩ := @ih .factor _ rfl hus
      exact ⟨_, rest, .negate hw hi, rfl, hr⟩
    | _ => cases hp
  | plus hw _ ih =>
    cases part with
    | factor =>
      obtain ⟨us, rfl, hus⟩ := Rendering.tokens_eq_fixed hw.fixed hts.symm
      obtain ⟨inner, rest, hi, rfl, hr⟩ := @ih .factor _ rfl hus
      exact ⟨_, rest, .plus hw hi, rfl, hr⟩
    | _ => cases hp

/-- A formula and its rendering have the same parse tree up to the operands. -/
theorem parses_render (r : Rendering) {ts : List Token} {tree' : Tree Operand} :
    Parses Operand.Reads (r.tokens ts) tree' ↔
      ∃ tree, Parses Atom.Reads ts tree ∧ tree' = tree.map r.atom := by
  constructor
  · intro h
    obtain ⟨tree, rest, hd, rfl, hr⟩ := @Derives.of_render r _ _ _ _ h (.level .sum) ts rfl rfl
    obtain rfl := Rendering.tokens_eq_nil.mp hr.symm
    exact ⟨tree, hd, rfl⟩
  · rintro ⟨tree, h, rfl⟩
    exact h.render r

theorem Atom.separates : Separates Atom.Reads where
  unique h h' := by
    cases h with
    | plain h =>
      cases h' with
      | plain h' =>
        obtain ⟨rfl, rfl⟩ := Operand.separates.unique h h'
        exact ⟨rfl, rfl⟩
      | aggregate hf => exact absurd h.kind (by simp [hf])
    | aggregate hf hk =>
      cases h' with
      | plain h' => exact absurd h'.kind (by simp [hf])
      | aggregate _ hk' =>
        cases hk.symm.trans hk'
        exact ⟨rfl, rfl⟩
  head h := by
    cases h with
    | plain h =>
      obtain ⟨t, tail, rfl, hop, hparen, hcall⟩ := Operand.separates.head h
      exact ⟨t, tail, rfl, hop, hparen, hcall⟩
    | @aggregate f _ _ _ _ _ hf hk =>
      exact ⟨f, _, rfl, by simp [hf], by simp [hf], fun g hg => hg.fixed.aggregates ⟨hf, _, hk⟩⟩

/-! ## Programs -/

theorem Tree.postorder_map {α β : Type} (f : α → β) (item : β → Item) (tree : Tree α) :
    (tree.map f).postorder item = tree.postorder fun a => item (f a) := by
  induction tree with
  | operand a => rfl
  | group inner ih => exact ih
  | plus inner ih => exact ih
  | call g offset inner ih => rw [Tree.map, postorder, ih, postorder]
  | negate offset inner ih => rw [Tree.map, postorder, ih, postorder]
  | binary op offset left right ihl ihr => rw [Tree.map, postorder, ihl, ihr, postorder]

/-- The steps of a parse tree whose atoms become operands. -/
def Rendering.program (r : Rendering) (tree : Tree Atom) : Program :=
  tree.postorder fun a => (r.atom a).item

/-- A rendered formula is converted to the post-order of its parse tree. -/
theorem Parses.compile_render {ts : List Token} {tree : Tree Atom}
    (h : Parses Atom.Reads ts tree) (r : Rendering) :
    Program.compile (r.tokens ts) = .ok (r.program tree) := by
  rw [((parses_render r).mpr ⟨tree, h, rfl⟩).compile, Tree.postorder_map]
  rfl

/-- Only a formula with a parse tree is converted once it is rendered. -/
theorem parses_of_compile_render {r : Rendering} {ts : List Token} {program : Program}
    (h : Program.compile (r.tokens ts) = .ok program) :
    ∃ tree, Parses Atom.Reads ts tree ∧ program = r.program tree := by
  obtain ⟨tree', h'⟩ := parses_of_compile h
  obtain ⟨tree, htree, -⟩ := (parses_render r).mp h'
  rw [htree.compile_render r] at h
  exact ⟨tree, htree, (Except.ok.inj h).symm⟩

end Tabular.Formula
