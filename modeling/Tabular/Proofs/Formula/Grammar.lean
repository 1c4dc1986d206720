import Mathlib
import Tabular.Formula.AggregateCall
import Tabular.Formula.Compile

/-!
# The grammar of formulas

Expressions are sums of terms, terms are products of factors, and a factor is an
operand, a call, a group or a signed factor. `Derives` is that grammar over token
sequences, with the operands left open: plain arithmetic has numbers and columns,
formulas as they are written have aggregate calls too. Every token sequence has at
most one parse tree (`Parses.unique`).
-/
namespace Tabular.Formula

/-- A token that is the given operator. -/
def Token.Writes (t : Token) (op : Operator) : Prop :=
  t.kind = .operator ∧ Operator.ofText? t.value = some op

/-- A token that names a function of one number. -/
def Token.Calls (t : Token) (f : NumberFunction) : Prop :=
  t.kind = .function ∧ NumberFunction.ofName? (Text.upper t.value) = some f

/-- A parenthesis token that is not an opening one. -/
def Token.Closes (t : Token) : Prop := t.kind = .paren ∧ t.isParen '(' = false

/-- A parse tree over operands of some kind. Groups and plus signs are kept, though
nothing is computed for them. -/
inductive Tree (α : Type)
  | operand (a : α)
  | call (f : NumberFunction) (offset : Nat) (inner : Tree α)
  | group (inner : Tree α)
  | negate (offset : Nat) (inner : Tree α)
  | plus (inner : Tree α)
  | binary (op : Operator) (offset : Nat) (left right : Tree α)

/-- The levels of binary operators: sums of terms and products of factors. -/
inductive Level
  | sum
  | product
  deriving DecidableEq

/-- How tightly the operators of a level bind. -/
def Level.precedence : Level → Nat
  | sum => 1
  | product => 2

/-- A part of the grammar. The tail of a level is what may follow its first operand:
operators and operands, taken up from the left onto the tree before them. -/
inductive Part (α : Type)
  | factor
  | level (l : Level)
  | tail (l : Level) (left : Tree α)

/-- What the operators of a level stand between. -/
def Level.operand {α : Type} : Level → Part α
  | sum => .level .product
  | product => .factor

/-- `Derives reads part ts tree rest`: the tokens `ts` begin with a `part` that has
the parse tree `tree`, and `rest` is what follows it. `reads` says the same of
operands. -/
inductive Derives {α : Type} (reads : List Token → α → List Token → Prop) :
    Part α → List Token → Tree α → List Token → Prop
  | level {l ts first between tree rest} :
      Derives reads l.operand ts first between →
      Derives reads (.tail l first) between tree rest →
      Derives reads (.level l) ts tree rest
  | tailEnd {l left rest} : Derives reads (.tail l left) rest left rest
  | tailStep {l left t op ts right between tree rest} :
      t.Writes op → op.precedence = l.precedence →
      Derives reads l.operand ts right between →
      Derives reads (.tail l (.binary op t.offset left right)) between tree rest →
      Derives reads (.tail l left) (t :: ts) tree rest
  | operand {ts a rest} : reads ts a rest → Derives reads .factor ts (.operand a) rest
  | call {t f opening ts inner closing rest} :
      t.Calls f → opening.isParen '(' → closing.Closes →
      Derives reads (.level .sum) ts inner (closing :: rest) →
      Derives reads .factor (t :: opening :: ts) (.call f t.offset inner) rest
  | group {opening ts inner closing rest} :
      opening.isParen '(' → closing.Closes →
      Derives reads (.level .sum) ts inner (closing :: rest) →
      Derives reads .factor (opening :: ts) (.group inner) rest
  | negate {t ts inner rest} :
      t.Writes .sub → Derives reads .factor ts inner rest →
      Derives reads .factor (t :: ts) (.negate t.offset inner) rest
  | plus {t ts inner rest} :
      t.Writes .add → Derives reads .factor ts inner rest →
      Derives reads .factor (t :: ts) (.plus inner) rest

/-- The whole token sequence is an expression with the given parse tree. -/
def Parses {α : Type} (reads : List Token → α → List Token → Prop) (ts : List Token)
    (tree : Tree α) : Prop :=
  Derives reads (.level .sum) ts tree []

/-! ## Operands -/

/-- An operand of plain arithmetic. -/
inductive Operand
  | number (value : Float)
  | column (name : String) (offset : Nat)
  deriving DecidableEq

/-- A number token has to denote a double; a column token may have any name. -/
inductive Operand.Reads : List Token → Operand → List Token → Prop
  | number {t x rest} : t.kind = .number → Number.read? t.value = some x →
      Reads (t :: rest) (.number x) rest
  | column {t rest} : t.kind = .column → Reads (t :: rest) (.column t.value t.offset) rest

/-- An operand of a formula as it is written. -/
inductive Atom
  | plain (operand : Operand)
  | aggregate (call : AggregateCall)
  deriving DecidableEq

/-- Besides the operands of plain arithmetic, an aggregate function around one
column. -/
inductive Atom.Reads : List Token → Atom → List Token → Prop
  | plain {ts a rest} : Operand.Reads ts a rest → Reads ts (.plain a) rest
  | aggregate {f opening column closing kind rest} :
      f.kind = .function → aggregateOfName? (Text.upper f.value) = some kind →
      opening.isParen '(' → column.kind = .column → closing.isParen ')' →
      Reads (f :: opening :: column :: closing :: rest)
        (.aggregate ⟨Text.upper f.value, kind, column.value, f.offset⟩) rest

/-! ## Unambiguity -/

/-- No operator that binds at least as tightly as `precedence` comes next. -/
def Stops (precedence : Nat) (ts : List Token) : Prop :=
  ∀ t op rest, ts = t :: rest → t.Writes op → op.precedence < precedence

/-- What an operator has to bind less tightly than to follow a part. Any may follow a
factor. -/
def Part.ceiling {α : Type} : Part α → Nat
  | factor => 4
  | level l => l.precedence
  | tail l _ => l.precedence

/-- Operands are told by their first tokens: each has one reading, and it is none of
the other factors. -/
structure Separates {α : Type} (reads : List Token → α → List Token → Prop) : Prop where
  unique : ∀ {ts a b rest rest'}, reads ts a rest → reads ts b rest' → a = b ∧ rest = rest'
  head : ∀ {ts a rest}, reads ts a rest → ∃ t tail, ts = t :: tail ∧ t.kind ≠ .operator ∧
    t.kind ≠ .paren ∧ ∀ f, ¬ t.Calls f

@[grind →] theorem Token.Writes.kind {t : Token} {op : Operator} (h : t.Writes op) :
    t.kind = .operator := h.1

@[grind →] theorem Token.Calls.kind {t : Token} {f : NumberFunction} (h : t.Calls f) :
    t.kind = .function := h.1

@[grind →] theorem Token.kind_of_isParen {t : Token} {c : Char} (h : t.isParen c = true) :
    t.kind = .paren := by
  simp only [Token.isParen, Bool.and_eq_true, decide_eq_true_eq] at h
  exact h.1

@[grind →] theorem Token.Writes.unique {t : Token} {op op' : Operator} (h : t.Writes op)
    (h' : t.Writes op') : op = op' := Option.some.inj (h.2.symm.trans h'.2)

theorem Token.Calls.unique {t : Token} {f f' : NumberFunction} (h : t.Calls f)
    (h' : t.Calls f') : f = f' := Option.some.inj (h.2.symm.trans h'.2)

theorem Stops.mono {p q : Nat} {ts : List Token} (h : Stops p ts) (hpq : p ≤ q) :
    Stops q ts := fun t op rest he hw => Nat.lt_of_lt_of_le (h t op rest he hw) hpq

/-- Nothing binds more tightly than a factor. -/
theorem stops_factor (ts : List Token) : Stops 4 ts := by
  intro t op rest _ _
  cases op <;> decide

theorem Token.Closes.stops {t : Token} (h : t.Closes) (p : Nat) (rest : List Token) :
    Stops p (t :: rest) := by
  intro t' op rest' he hw
  obtain ⟨rfl, rfl⟩ := List.cons.inj he
  exact absurd (h.1.symm.trans hw.1) (by decide)

theorem Token.Writes.stops {t : Token} {op : Operator} (h : t.Writes op) {p : Nat}
    (hp : op.precedence < p) (rest : List Token) : Stops p (t :: rest) := by
  intro t' op' rest' he hw
  obtain ⟨rfl, rfl⟩ := List.cons.inj he
  exact h.unique hw ▸ hp

theorem stops_nil (p : Nat) : Stops p [] := fun _ _ _ he _ => by cases he

theorem Level.precedence_lt_operand {α : Type} (l : Level) :
    l.precedence < (l.operand : Part α).ceiling := by
  cases l <;> simp [Level.precedence, Level.operand, Part.ceiling]

section
variable {α : Type} {reads : List Token → α → List Token → Prop}

/-- In front of a tail, an operand of its level has come to its end. -/
theorem Derives.stops_tail {l : Level} {left tree : Tree α} {ts rest : List Token}
    (h : Derives reads (.tail l left) ts tree rest) (hr : Stops l.precedence rest) :
    Stops (l.operand : Part α).ceiling ts := by
  have hl := l.precedence_lt_operand (α := α)
  cases h with
  | tailEnd => exact hr.mono (Nat.le_of_lt hl)
  | tailStep hw hp _ _ => exact hw.stops (hp ▸ hl) _

/-- The tokens that a part is derived from, up to where no operator continues it,
determine its parse tree and what follows it. -/
theorem Derives.unique (hs : Separates reads) {part : Part α} {ts rest rest' : List Token}
    {tree tree' : Tree α} (h : Derives reads part ts tree rest)
    (h' : Derives reads part ts tree' rest') (hr : Stops part.ceiling rest)
    (hr' : Stops part.ceiling rest') : tree = tree' ∧ rest = rest' := by
  induction h generalizing tree' rest' with
  | level hf ht ihf iht =>
    cases h' with
    | level hf' ht' =>
      obtain ⟨rfl, rfl⟩ := ihf hf' (ht.stops_tail hr) (ht'.stops_tail hr')
      exact iht ht' hr hr'
  | tailEnd =>
    cases h' with
    | tailEnd => exact ⟨rfl, rfl⟩
    | tailStep hw hp _ _ => exact absurd (hr _ _ _ rfl hw) (by simp [Part.ceiling, hp])
  | tailStep hw hp hright ht ihright iht =>
    cases h' with
    | tailEnd => exact absurd (hr' _ _ _ rfl hw) (by simp [Part.ceiling, hp])
    | tailStep hw' hp' hright' ht' =>
      cases hw.unique hw'
      obtain ⟨rfl, rfl⟩ := ihright hright' (ht.stops_tail hr) (ht'.stops_tail hr')
      exact iht ht' hr hr'
  -- The first token of a factor tells which production it comes from.
  | operand ha =>
    obtain ⟨t, tail, rfl, hop, hparen, hcall⟩ := hs.head ha
    cases h' with
    | operand ha' =>
      obtain ⟨rfl, rfl⟩ := hs.unique ha ha'
      exact ⟨rfl, rfl⟩
    | _ => grind
  | call hc ho hclose hi ih =>
    cases h' with
    | operand ha => grind [hs.head ha]
    | call hc' _ hclose' hi' =>
      obtain ⟨rfl, he⟩ := ih hi' (hclose.stops _ _) (hclose'.stops _ _)
      cases he
      cases hc.unique hc'
      exact ⟨rfl, rfl⟩
    | _ => grind
  | group ho hclose hi ih =>
    cases h' with
    | operand ha => grind [hs.head ha]
    | group _ hclose' hi' =>
      obtain ⟨rfl, he⟩ := ih hi' (hclose.stops _ _) (hclose'.stops _ _)
      cases he
      exact ⟨rfl, rfl⟩
    | _ => grind
  | negate hw hi ih =>
    cases h' with
    | operand ha => grind [hs.head ha]
    | negate _ hi' =>
      obtain ⟨rfl, rfl⟩ := ih hi' (stops_factor _) (stops_factor _)
      exact ⟨rfl, rfl⟩
    | _ => grind
  | plus hw hi ih =>
    cases h' with
    | operand ha => grind [hs.head ha]
    | plus _ hi' =>
      obtain ⟨rfl, rfl⟩ := ih hi' (stops_factor _) (stops_factor _)
      exact ⟨rfl, rfl⟩
    | _ => grind

/-- A token sequence has at most one parse tree. -/
theorem Parses.unique (hs : Separates reads) {ts : List Token} {tree tree' : Tree α}
    (h : Parses reads ts tree) (h' : Parses reads ts tree') : tree = tree' :=
  (Derives.unique hs h h' (stops_nil _) (stops_nil _)).1

end

theorem Operand.separates : Separates Operand.Reads where
  unique h h' := by
    cases h with
    | number hk hx =>
      cases h' with
      | number _ hx' => exact ⟨congrArg _ (Option.some.inj (hx.symm.trans hx')), rfl⟩
      | column hk' => exact absurd (hk.symm.trans hk') (by decide)
    | column hk =>
      cases h' with
      | number hk' _ => exact absurd (hk.symm.trans hk') (by decide)
      | column _ => exact ⟨rfl, rfl⟩
  head h := by
    cases h with
    | number hk _ => exact ⟨_, _, rfl, by simp [hk], by simp [hk], fun f hc => by simp [hc.1] at hk⟩
    | column hk => exact ⟨_, _, rfl, by simp [hk], by simp [hk], fun f hc => by simp [hc.1] at hk⟩

end Tabular.Formula
