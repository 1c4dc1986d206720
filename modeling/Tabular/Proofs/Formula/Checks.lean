import Tabular.Proofs.Formula.Binding

/-!
# What the scanner's checks leave to fail

The tokens of a formula are `Checked`: each means something by itself, functions stand
before parentheses, and parentheses match. A rendering keeps all of this, though it puts
one token for four. So the conversion goes wrong only where an operand or an operator is
missing or an aggregate is misplaced (`compile_safe`): the parentheses that it holds are
those that the tokens still to come will close.
-/
namespace Tabular.Formula
open Conversion

/-- With `depth` parentheses open before them, the tokens are readable numbers, columns,
operators, functions that a parenthesis follows, and parentheses that close all that are
open and no more. -/
inductive Checked : Nat → List Token → Prop
  | nil : Checked 0 []
  | number {depth t x rest} : t.kind = .number → Number.read? t.value = some x →
      Checked depth rest → Checked depth (t :: rest)
  | column {depth t rest} : t.kind = .column → Checked depth rest → Checked depth (t :: rest)
  | operator {depth t op rest} : t.Writes op → Checked depth rest → Checked depth (t :: rest)
  | function {depth t opening rest} : t.kind = .function →
      Text.upper t.value ∈ functionNames → opening.isParen '(' →
      Checked depth (opening :: rest) → Checked depth (t :: opening :: rest)
  | opening {depth t rest} : t.isParen '(' → Checked (depth + 1) rest →
      Checked depth (t :: rest)
  | closing {depth t rest} : t.isParen ')' → Checked depth rest →
      Checked (depth + 1) (t :: rest)

theorem Operand.Reads.checked {t : Token} {ts rest : List Token} {a : Operand}
    (h : Operand.Reads (t :: ts) a rest) {depth : Nat} {us : List Token}
    (hus : Checked depth us) : Checked depth (t :: us) := by
  cases h with
  | number hk hx => exact .number hk hx hus
  | column hk => exact .column hk hus

/-! ## Formulas are checked -/

theorem isParen_toString (c d : Char) (offset : Nat) :
    (⟨.paren, c.toString, offset⟩ : Token).isParen d = (c == d) := by simp [Token.isParen]

/-- Behind a function's name the parenthesis is the next token. -/
theorem Cuts.isParen_of_head {position : Nat} {source last : List Char} {pieces : List Piece}
    {tokens : List Token} (h : Cuts position source pieces last tokens)
    (hs : source.head? = some '(') :
    ∃ opening rest, tokens = opening :: rest ∧ opening.isParen '(' := by
  have hblank : Text.isBlank '(' = false := by decide
  cases h with
  | last hgap =>
    have hb := hgap '(' (List.mem_of_head? hs)
    rw [hblank] at hb
    cases hb
  | @piece _ gap text after kind value pieces _ tokens hgap hl _ =>
    refine ⟨_, _, rfl, ?_⟩
    cases gap with
    | cons c gap =>
      obtain rfl : c = '(' := Option.some.inj hs
      have hb := hgap '(' List.mem_cons_self
      rw [hblank] at hb
      cases hb
    | nil =>
      obtain ⟨c, run, rfl, -, hscan⟩ := hl.scanLexeme
      obtain rfl : c = '(' := Option.some.inj hs
      obtain ⟨rfl, rfl, -⟩ := Lexeme.mk.inj (Except.ok.inj hscan)
      exact isParen_toString _ _ _

theorem Nests.nil {limit depth : Nat} (h : Nests limit depth []) : depth = 0 := by
  simpa [openings, closings] using h.2

theorem Nests.tail {limit depth : Nat} {t : Token} {ts : List Token}
    (h : Nests limit depth (t :: ts)) (hk : t.kind ≠ .paren) : Nests limit depth ts := by
  have hparen : ∀ c, t.isParen c = false := by
    intro c
    rw [Bool.eq_false_iff]
    exact fun hp => hk (Token.kind_of_isParen hp)
  have hstep : depth + openings [t] = depth + closings [t] := by
    simp [openings, closings, hparen]
  exact ((nests_cons hstep).mp h).2

theorem Nests.opening {limit depth : Nat} {t : Token} {ts : List Token}
    (h : Nests limit depth (t :: ts)) (ht : t.isParen '(' = true) :
    Nests limit (depth + 1) ts := by
  have hstep : depth + openings [t] = depth + 1 + closings [t] := by
    simp [openings, closings, ht, not_isParen_both ht]
  exact ((nests_cons hstep).mp h).2

theorem Nests.closing {limit depth : Nat} {t : Token} {ts : List Token}
    (h : Nests limit depth (t :: ts)) (ht : t.isParen ')' = true)
    (ho : t.isParen '(' = false) : ∃ outer, depth = outer + 1 ∧ Nests limit outer ts := by
  cases depth with
  | zero => exact absurd h (not_nests_of_closes ht ho)
  | succ outer =>
    have hstep : outer + 1 + openings [t] = outer + closings [t] := by
      simp [openings, closings, ht, ho]
    exact ⟨outer, rfl, ((nests_cons hstep).mp h).2⟩

theorem exists_writes_of_mem {c : Char} (h : c ∈ ['+', '-', '*', '/', '%']) :
    ∃ op, Operator.ofText? c.toString = some op := by
  simp only [List.mem_cons, List.not_mem_nil, or_false] at h
  rcases h with rfl | rfl | rfl | rfl | rfl
  · exact ⟨.add, by decide⟩
  · exact ⟨.sub, by decide⟩
  · exact ⟨.mul, by decide⟩
  · exact ⟨.div, by decide⟩
  · exact ⟨.rem, by decide⟩

theorem upper_mem_functionNames {name : String} (h : name ∈ functionNames) :
    Text.upper name ∈ functionNames := by
  have hall : ∀ name ∈ functionNames, Text.upper name ∈ functionNames := by decide
  exact hall name h

theorem Cuts.checked {position limit depth : Nat} {source last : List Char}
    {pieces : List Piece} {tokens : List Token} (h : Cuts position source pieces last tokens)
    (hn : Nests limit depth tokens) : Checked depth tokens := by
  induction h generalizing depth with
  | last => exact hn.nil ▸ .nil
  | @piece position gap _ _ _ _ _ _ _ _ hl hcut ih =>
    cases hl with
    | number _ _ hx _ => exact .number rfl hx (ih (hn.tail (by simp)))
    | bracket | column => exact .column rfl (ih (hn.tail (by simp)))
    | operator hc =>
      obtain ⟨op, hop⟩ := exists_writes_of_mem hc
      exact .operator ⟨rfl, hop⟩ (ih (hn.tail (by simp)))
    | function _ _ hparen hf =>
      obtain ⟨opening, rest, rfl, ho⟩ := hcut.isParen_of_head hparen
      exact .function rfl (upper_mem_functionNames hf) ho (ih (hn.tail (by simp)))
    | paren hc =>
      rcases hc with rfl | rfl
      · have ho := isParen_toString '(' '(' (position + gap.length)
        exact .opening ho (ih (hn.opening ho))
      · have hc := isParen_toString ')' ')' (position + gap.length)
        obtain ⟨outer, rfl, hrest⟩ := hn.closing hc (isParen_toString ')' '(' _)
        exact .closing hc (ih hrest)

/-- The tokens of a formula are checked. -/
theorem checked_of_tokenize {formula : String} {tokens : List Token}
    (h : tokenize formula = .ok tokens) : Checked 0 tokens := by
  obtain ⟨-, -, hscan, -, hnests, -⟩ := tokenize_eq_ok.mp h
  obtain ⟨pieces, last, hcut⟩ := exists_cuts_of_scanFrom hscan
  exact hcut.checked hnests

/-! ## Renderings keep the checks -/

namespace Rendering

/-- A call takes four tokens away that open and close one parenthesis. -/
theorem checked (r : Rendering) {depth : Nat} {ts : List Token} (h : Checked depth ts) :
    Checked depth (r.tokens ts) := by
  induction ts using segments_induction generalizing depth with
  | nil => exact h
  | token ht ih =>
    rw [tokens_alone ht]
    cases h with
    | number hk hx hrest =>
      rw [Token.rename_of_ne (by simp [hk])]
      exact .number hk hx (ih hrest)
    | column hk hrest =>
      rw [Token.rename, if_pos hk]
      exact .column rfl (ih hrest)
    | operator hw hrest =>
      rw [Token.rename_of_ne hw.fixed.column]
      exact .operator hw (ih hrest)
    | function hk hf ho hrest =>
      have hkept := ih hrest
      rw [tokens_fixed (Token.fixed_of_isParen ho)] at hkept ⊢
      rw [Token.rename_of_ne (by simp [hk])]
      exact .function hk hf ho hkept
    | opening ho hrest =>
      rw [Token.rename_of_ne (Token.fixed_of_isParen ho).column]
      exact .opening ho (ih hrest)
    | closing hc hrest =>
      rw [Token.rename_of_ne (Token.fixed_of_isParen hc).column]
      exact .closing hc (ih hrest)
  | @call _ _ _ _ _ rest hcall ih =>
    obtain ⟨hf, ho, hc, hcl, -⟩ := ofTokens?_eq_some.mp hcall
    rw [tokens_call hcall]
    -- The one parenthesis that the call opens is the one it closes.
    have hrest : Checked depth rest := by grind [Checked, not_isParen_both]
    exact (r.reads _ []).checked (ih hrest)

/-- Every rendered token is where one of the tokens was. -/
theorem offset_mem {r : Rendering} (hr : ∀ c, (r.call c).offset = c.offset) {ts : List Token}
    {t : Token} (ht : t ∈ r.tokens ts) : t.offset ∈ ts.map Token.offset := by
  induction ts using segments_induction with
  | nil => cases ht
  | @token u rest hu ih =>
    rw [tokens_alone hu] at ht
    rcases List.mem_cons.mp ht with rfl | ht
    · have hoffset : (u.rename r.column).offset = u.offset := by
        unfold Token.rename
        split <;> rfl
      simp [hoffset]
    · exact List.mem_cons_of_mem _ (ih ht)
  | call hcall ih =>
    rw [tokens_call hcall] at ht
    obtain ⟨-, -, -, -, kind, -, rfl⟩ := ofTokens?_eq_some.mp hcall
    rcases List.mem_cons.mp ht with rfl | ht
    · simp [hr]
    · simp [ih ht]

end Rendering

/-! ## What conversion holds -/

def Held.isOpen : Held → Bool
  | openParen _ => true
  | _ => false

/-- How many parentheses wait to be closed. -/
def opened (held : List Held) : Nat := held.countP Held.isOpen

theorem opened_cons (entry : Held) (held : List Held) :
    opened (entry :: held) = opened held + if entry.isOpen then 1 else 0 := List.countP_cons

theorem opened_popTighter (p : Nat) (out : List Item) (held : List Held) :
    opened (popTighter p out held).2 = opened held := by
  induction held generalizing out with
  | nil => rfl
  | cons entry rest ih =>
    rw [popTighter]
    split
    · rename_i h
      rw [ih, opened_cons]
      cases entry with
      | openParen => simp [Held.precedence?] at h
      | _ => rfl
    · rfl

theorem opened_popFunction (out : List Item) (held : List Held) :
    opened (popFunction out held).2 = opened held := by
  cases held with
  | nil => rfl
  | cons entry rest => cases entry <;> rfl

/-- Where a parenthesis is open, one can be closed. -/
theorem popToOpen?_of_opened {depth : Nat} {held : List Held} (h : opened held = depth + 1)
    (out : List Item) :
    ∃ out' held', popToOpen? out held = some (out', held') ∧ opened held' = depth := by
  induction held generalizing out with
  | nil => cases h
  | cons entry rest ih =>
    rw [opened_cons] at h
    cases entry with
    | openParen => exact ⟨out, rest, rfl, Nat.succ.inj h⟩
    | _ => exact ih h _

theorem popAll_of_opened {held : List Held} (h : opened held = 0) (out : List Item) :
    ∃ items, popAll out held = .ok items := by
  induction held generalizing out with
  | nil => exact ⟨out, rfl⟩
  | cons entry rest ih =>
    rw [opened_cons] at h
    cases entry with
    | openParen => cases h
    | _ => exact ih h _

/-! ## How conversion fails -/

/-- A value meets the one condition, an error the other. -/
def Safe {α : Type} (blame : EvalError → Prop) (post : α → Prop) : Except EvalError α → Prop
  | .ok a => post a
  | .error e => blame e

section
variable {α β : Type} {blame : EvalError → Prop} {p : α → Prop} {q : β → Prop}
  {x : Except EvalError α}

theorem Safe.mono {p' : α → Prop} (h : Safe blame p x) (hp : ∀ a, p a → p' a) :
    Safe blame p' x := by
  cases x with
  | error e => exact h
  | ok a => exact hp a h

theorem Safe.blame_mono {blame' : EvalError → Prop} (h : Safe blame p x)
    (hblame : ∀ e, blame e → blame' e) : Safe blame' p x := by
  cases x with
  | error e => exact hblame e h
  | ok a => exact h

theorem Safe.of_error {e : EvalError} (h : Safe blame p x) (he : x = .error e) : blame e := by
  rwa [he] at h

theorem Safe.bind {f : α → Except EvalError β} (h : Safe blame p x)
    (hf : ∀ a, p a → Safe blame q (f a)) : Safe blame q (x >>= f) := by
  cases x with
  | error e => exact h
  | ok a => exact hf a h

end

/-- An operand or an operator is missing where one has to come. -/
def Malformation.isMissing : Malformation → Bool
  | missingOperator _ => true
  | missingLeftOperand _ => true
  | missingOperandBeforeClose => true
  | incomplete => true
  | _ => false

/-- The tokens do not make an expression, though nothing is wrong with each of them. -/
def EvalError.isMisplacement : EvalError → Bool
  | misplacedAggregate .. => true
  | malformed cause _ => cause.isMissing
  | _ => false

/-- The order of the tokens is at fault, at the given token. -/
def BlamedOn (t : Token) (e : EvalError) : Prop := e.isMisplacement ∧ e.position = t.offset

theorem needOperand_safe (state : Conversion) (t : Token) :
    Safe (BlamedOn t) (fun _ => state.expectsOperand) (state.needOperand t) := by
  unfold needOperand
  split
  · assumption
  · exact ⟨rfl, rfl⟩

theorem exists_function_of_mem {name : String} (h : name ∈ functionNames)
    (ha : aggregateNames.contains name = false) : ∃ f, NumberFunction.ofName? name = some f := by
  have hall : ∀ name ∈ functionNames, aggregateNames.contains name = false →
      (NumberFunction.ofName? name).isSome := by decide
  exact Option.isSome_iff_exists.mp (hall name h ha)

/-- A function of numbers is held; an aggregate that is still there is misplaced. -/
theorem function_safe (state : Conversion) {t opening : Token}
    (hf : Text.upper t.value ∈ functionNames) (ho : opening.isParen '(') :
    Safe (BlamedOn t) (fun next => opened next.held = opened state.held)
      (state.function t (some opening)) := by
  unfold Conversion.function
  dsimp only
  split
  · exact ⟨rfl, rfl⟩
  · rename_i ha
    obtain ⟨f, hname⟩ := exists_function_of_mem hf (by simpa using ha)
    simp only [hname, Option.any_some, ho, if_true]
    exact opened_cons _ _

theorem operator_safe (state : Conversion) (op : Operator) (t : Token) :
    Safe (BlamedOn t) (fun next => opened next.held = opened state.held)
      (state.operator op t.offset) := by
  unfold Conversion.operator
  split
  · cases op with
    | sub => exact opened_cons _ _
    | add => exact rfl
    | _ => exact ⟨rfl, rfl⟩
  · exact (opened_cons _ _).trans (opened_popTighter _ _ _)

theorem close_safe {state : Conversion} {depth : Nat} (hd : opened state.held = depth + 1)
    (t : Token) :
    Safe (BlamedOn t) (fun next => opened next.held = depth) (state.close t.offset) := by
  unfold Conversion.close
  split
  · exact ⟨rfl, rfl⟩
  · obtain ⟨out, held, hpop, hopen⟩ := popToOpen?_of_opened hd state.output
    rw [hpop]
    exact (opened_popFunction out held).trans hopen

/-- One token leaves as many parentheses open as the tokens behind it will close. -/
theorem step_safe {state : Conversion} {t : Token} {rest : List Token}
    (h : Checked (opened state.held) (t :: rest)) :
    Safe (BlamedOn t) (fun next => Checked (opened next.held) rest)
      (state.step t rest.head?) := by
  -- The depth is an index of `Checked`, so it has to be a variable for the cases.
  generalize hd : opened state.held = depth at h
  cases h with
  | number hk hx hrest =>
    simp only [Conversion.step, hk, hx]
    subst hd
    exact (needOperand_safe state t).bind fun _ _ => hrest
  | column hk hrest =>
    simp only [Conversion.step, hk]
    subst hd
    exact (needOperand_safe state t).bind fun _ _ => hrest
  | operator hw hrest =>
    simp only [Conversion.step, hw.1, hw.2]
    refine (operator_safe state _ t).mono ?_
    intro next hnext
    rw [hnext, hd]
    exact hrest
  | function hk hf ho hrest =>
    simp only [Conversion.step, hk, List.head?_cons]
    refine (needOperand_safe state t).bind fun _ _ => ?_
    refine (function_safe state hf ho).mono ?_
    intro next hnext
    rw [hnext, hd]
    exact hrest
  | opening ho hrest =>
    simp only [Conversion.step, Token.kind_of_isParen ho, ho, if_true]
    split
    · change Checked (opened (.openParen t.offset :: state.held)) rest
      rw [opened_cons, hd]
      exact hrest
    · exact ⟨rfl, rfl⟩
  | closing hc hrest =>
    have ho : t.isParen '(' = false := by
      rw [Bool.eq_false_iff]
      intro ho
      rw [not_isParen_both ho] at hc
      cases hc
    simp only [Conversion.step, Token.kind_of_isParen hc, ho, Bool.false_eq_true, if_false]
    refine (close_safe hd t).mono ?_
    intro next hnext
    rw [hnext]
    exact hrest

theorem steps_safe {ts : List Token} {state : Conversion}
    (h : Checked (opened state.held) ts) :
    Safe (fun e => ∃ t ∈ ts, BlamedOn t e) (fun final => opened final.held = 0)
      (state.steps ts) := by
  induction ts generalizing state with
  | nil =>
    generalize hd : opened state.held = depth at h
    cases h
    exact hd
  | cons t rest ih =>
    have hstep := step_safe h
    rw [Conversion.steps]
    cases hnext : state.step t rest.head? with
    | error e =>
      rw [hnext] at hstep
      exact ⟨t, List.mem_cons_self, hstep⟩
    | ok next =>
      rw [hnext] at hstep
      refine (ih hstep).blame_mono ?_
      rintro e ⟨u, hu, he⟩
      exact ⟨u, List.mem_cons_of_mem _ hu, he⟩

/-- Checked tokens are converted, or one of them is out of place. -/
theorem compile_safe {ts : List Token} (hne : ts ≠ []) (h : Checked 0 ts) :
    Safe (fun e => ∃ t ∈ ts, BlamedOn t e) (fun _ => True) (Program.compile ts) := by
  have hsteps := @steps_safe ts {} h
  unfold Program.compile
  cases hfinal : Conversion.steps {} ts with
  | error e =>
    rw [hfinal] at hsteps
    exact hsteps
  | ok final =>
    rw [hfinal] at hsteps
    obtain ⟨items, hitems⟩ := popAll_of_opened hsteps final.output
    simp only [Conversion.program, hitems]
    split
    · refine ⟨ts.getLast hne, List.getLast_mem hne, rfl, ?_⟩
      simp [List.getLast?_eq_some_getLast hne, EvalError.position]
    · trivial

end Tabular.Formula
