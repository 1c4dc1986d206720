import Tabular.Proofs.Formula.Binding

/-!
# Validation and compilation agree

Validating a formula against a dataset's columns succeeds exactly when compiling it
against the dataset does, with the same columns, aggregates and steps. The conversions
of the two renderings run in lockstep: a token is either the same on both sides or an
operand on both, and what waits on the stacks is the same. So a failure is the same too,
but for the text of an operand that an operator is missing before.
-/
namespace Tabular.Formula

/-! ## Failures -/

/-- Two failures differ at most in the token that an operator is missing before. -/
inductive EvalError.Alike : EvalError → EvalError → Prop
  | same (e) : Alike e e
  | missingOperator (text text' : String) (position : Nat) :
      Alike (.malformed (.missingOperator text) position)
        (.malformed (.missingOperator text') position)

/-- The same failure, up to the token that an operator is missing before. -/
inductive SameFailure : Error → Error → Prop
  | same (e) : SameFailure e e
  | eval {e e' : EvalError} : e.Alike e' → SameFailure (.eval e) (.eval e')

/-- Both succeed, with results in a relation, or both fail alike. -/
inductive Lockstep {α : Type} (R : α → α → Prop) :
    Except EvalError α → Except EvalError α → Prop
  | ok {a b} : R a b → Lockstep R (.ok a) (.ok b)
  | error {e e'} : e.Alike e' → Lockstep R (.error e) (.error e')

theorem Lockstep.bind {α β : Type} {R : α → α → Prop} {S : β → β → Prop}
    {x y : Except EvalError α} {f g : α → Except EvalError β} (h : Lockstep R x y)
    (hfg : ∀ a b, R a b → Lockstep S (f a) (g b)) : Lockstep S (x.bind f) (y.bind g) := by
  cases h with
  | ok hr => exact hfg _ _ hr
  | error he => exact .error he

/-! ## Tokens and stacks -/

/-- The tokens are the same, or operands at the same place. -/
inductive Token.Alike : Token → Token → Prop
  | same (t) : Alike t t
  | operands {t t' : Token} {a a' : Operand} : t.offset = t'.offset →
      Operand.Reads [t] a [] → Operand.Reads [t'] a' [] → Alike t t'

/-- The same entries wait, and the same has to come next. -/
def Conversion.Alike (state state' : Conversion) : Prop :=
  state.held = state'.held ∧ state.expectsOperand = state'.expectsOperand

theorem Token.Alike.offset {t t' : Token} (h : t.Alike t') : t.offset = t'.offset := by
  cases h with
  | same => rfl
  | operands ho _ _ => exact ho

theorem Token.Alike.isParen {t t' : Token} (h : t.Alike t') (c : Char) :
    t.isParen c = t'.isParen c := by
  cases h with
  | same => rfl
  | operands _ hr hr' =>
    have hk := hr.kind
    have hk' := hr'.kind
    have hno : ∀ {u : Token}, u.kind = .number ∨ u.kind = .column → u.isParen c = false := by
      intro u hu
      rcases hu with hu | hu <;> simp [Token.isParen, hu]
    rw [hno hk, hno hk']

namespace Conversion

theorem popTighter_held (p : Nat) (out out' : List Item) (held : List Held) :
    (popTighter p out held).2 = (popTighter p out' held).2 := by
  induction held generalizing out out' with
  | nil => rfl
  | cons top rest ih =>
    rw [popTighter, popTighter]
    split
    · exact ih _ _
    · rfl

theorem popToOpen?_held (out out' : List Item) (held : List Held) :
    (popToOpen? out held).map Prod.snd = (popToOpen? out' held).map Prod.snd := by
  induction held generalizing out out' with
  | nil => rfl
  | cons top rest ih =>
    cases top with
    | openParen => rfl
    | _ => exact ih _ _

theorem popFunction_held (out out' : List Item) (held : List Held) :
    (popFunction out held).2 = (popFunction out' held).2 := by
  cases held with
  | nil => rfl
  | cons top rest => cases top <;> rfl

theorem popAll_lockstep (out out' : List Item) (held : List Held) :
    Lockstep (fun _ _ => True) (popAll out held) (popAll out' held) := by
  induction held generalizing out out' with
  | nil => exact .ok trivial
  | cons top rest ih =>
    cases top with
    | openParen => exact .error (.same _)
    | _ => exact ih _ _

variable {state state' : Conversion}

/-- Where no operand may stand the failure names the operand. -/
theorem needOperand_lockstep (h : state.Alike state') {t t' : Token} (ht : t.Alike t') :
    Lockstep (fun _ _ => True) (state.needOperand t) (state'.needOperand t') := by
  rw [needOperand, needOperand, h.2, ht.offset]
  split
  · exact .ok trivial
  · exact .error (.missingOperator _ _ _)

theorem operand_alike (h : state.Alike state') (item item' : Item) :
    (state.operand item).Alike (state'.operand item') := ⟨h.1, rfl⟩

/-- An operand is written, or refused for its place. -/
theorem step_reads {t : Token} {a : Operand} (ht : Operand.Reads [t] a []) (next? : Option Token) :
    state.step t next? = (state.needOperand t).bind fun _ => .ok (state.operand a.item) := by
  cases ht with
  | number hk hx => simp only [step, hk, hx]; rfl
  | column hk => simp only [step, hk]; rfl

theorem operator_lockstep (h : state.Alike state') (op : Operator) (offset : Nat) :
    Lockstep Conversion.Alike (state.operator op offset) (state'.operator op offset) := by
  obtain ⟨hheld, hexp⟩ := h
  unfold operator
  rw [hexp, hheld]
  split
  · rename_i he
    cases op with
    | sub => exact .ok ⟨rfl, rfl⟩
    | add => exact .ok ⟨hheld, hexp⟩
    | _ => exact .error (.same _)
  · exact .ok ⟨congrArg (Held.binary op offset :: ·) (popTighter_held _ _ _ _), rfl⟩

theorem close_lockstep (h : state.Alike state') (offset : Nat) :
    Lockstep Conversion.Alike (state.close offset) (state'.close offset) := by
  obtain ⟨hheld, hexp⟩ := h
  rw [close, close, hexp, hheld]
  split
  · exact .error (.same _)
  · have hpop := popToOpen?_held state.output state'.output state'.held
    cases hp : popToOpen? state.output state'.held with
    | none =>
      cases hp' : popToOpen? state'.output state'.held with
      | none => exact .error (.same _)
      | some q => simp [hp, hp'] at hpop
    | some p =>
      cases hp' : popToOpen? state'.output state'.held with
      | none => simp [hp, hp'] at hpop
      | some q =>
        obtain ⟨out, held⟩ := p
        obtain ⟨out', held'⟩ := q
        obtain rfl : held = held' := by simpa [hp, hp'] using hpop
        exact .ok ⟨popFunction_held _ _ _, rfl⟩

theorem function_lockstep (h : state.Alike state') (t : Token) {next? next?' : Option Token}
    (hn : next?.any (·.isParen '(') = next?'.any (·.isParen '(')) :
    Lockstep Conversion.Alike (state.function t next?) (state'.function t next?') := by
  obtain ⟨hheld, hexp⟩ := h
  simp only [function, hn]
  split
  · exact .error (.same _)
  split
  · exact .error (.same _)
  split
  · exact .ok ⟨congrArg (Held.function _ t.offset :: ·) hheld, hexp⟩
  · exact .error (.same _)

theorem step_lockstep (h : state.Alike state') {t t' : Token} (ht : t.Alike t')
    {next? next?' : Option Token}
    (hn : next?.any (·.isParen '(') = next?'.any (·.isParen '(')) :
    Lockstep Conversion.Alike (state.step t next?) (state'.step t' next?') := by
  have hneed := needOperand_lockstep h ht
  cases ht with
  | operands _ hr hr' =>
    rw [step_reads hr, step_reads hr']
    exact hneed.bind fun _ _ _ => .ok (operand_alike h _ _)
  | same =>
    unfold step
    split
    · refine hneed.bind ?_
      intro _ _ _
      split
      · exact .ok (operand_alike h _ _)
      · exact .error (.same _)
    · exact hneed.bind fun _ _ _ => .ok (operand_alike h _ _)
    · exact hneed.bind fun _ _ _ => function_lockstep h t hn
    · split
      · exact operator_lockstep h _ _
      · exact .error (.same _)
    · split
      · rw [h.2]
        split
        · exact .ok ⟨congrArg (Held.openParen t.offset :: ·) h.1, rfl⟩
        · exact .error (.same _)
      · exact close_lockstep h _

theorem steps_lockstep {ts ts' : List Token} (ht : List.Forall₂ Token.Alike ts ts')
    (h : state.Alike state') :
    Lockstep Conversion.Alike (steps state ts) (steps state' ts') := by
  induction ht generalizing state state' with
  | nil => exact .ok h
  | @cons t t' rest rest' ht hrest ih =>
    have hnext : rest.head?.any (·.isParen '(') = rest'.head?.any (·.isParen '(') := by
      cases hrest with
      | nil => rfl
      | cons hu _ => simp [hu.isParen]
    have hstep := step_lockstep h ht hnext
    rw [steps, steps]
    generalize state.step t rest.head? = result at *
    generalize state'.step t' rest'.head? = result' at *
    cases hstep with
    | ok hs => exact ih hs
    | error he => exact .error he

theorem program_lockstep (h : state.Alike state') (finish : Nat) :
    Lockstep (fun _ _ => True) (state.program finish) (state'.program finish) := by
  rw [program, program, h.1, h.2]
  split
  · exact .error (.same _)
  · exact popAll_lockstep _ _ _

end Conversion

/-- Alike tokens are both converted, or refused alike. -/
theorem compile_lockstep {ts ts' : List Token} (h : List.Forall₂ Token.Alike ts ts') :
    Lockstep (fun _ _ => True) (Program.compile ts) (Program.compile ts') := by
  have hoffsets : ts.map Token.offset = ts'.map Token.offset := by
    induction h with
    | nil => rfl
    | cons ht _ ih => rw [List.map_cons, List.map_cons, ht.offset, ih]
  have hlast : ts.getLast?.map Token.offset = ts'.getLast?.map Token.offset := by
    rw [← List.getLast?_map, ← List.getLast?_map, hoffsets]
  have hsteps := Conversion.steps_lockstep h (show Conversion.Alike {} {} from ⟨rfl, rfl⟩)
  rw [Program.compile, Program.compile, hlast]
  generalize Conversion.steps {} ts = result at *
  generalize Conversion.steps {} ts' = result' at *
  cases hsteps with
  | ok hs => exact Conversion.program_lockstep hs _
  | error he => exact .error he

/-- The two renderings of a formula are alike. -/
theorem tokens_alike (rows : Dataset) (ts : List Token) :
    List.Forall₂ Token.Alike ((checking (columns rows)).tokens ts)
      ((computing rows).tokens ts) := by
  rw [Rendering.tokens, Rendering.tokens, List.forall₂_map_left_iff, List.forall₂_map_right_iff,
    List.forall₂_same]
  intro segment _
  cases segment with
  | token t => exact .same _
  | call c =>
    refine .operands ?_ ((checking (columns rows)).reads c []) ((computing rows).reads c [])
    exact (c.offset_token _ _).symm

/-! ## Programs -/

theorem Tree.forall₂_postorder {α : Type} {R : Item → Item → Prop} (hR : ∀ item, R item item)
    {f g : α → Item} (tree : Tree α) (h : ∀ a ∈ tree.operands, R (f a) (g a)) :
    List.Forall₂ R (tree.postorder f) (tree.postorder g) := by
  induction tree with
  | operand a => exact .cons (h a List.mem_cons_self) .nil
  | group inner ih => exact ih h
  | plus inner ih => exact ih h
  | call _ _ inner ih => exact List.rel_append (ih h) (.cons (hR _) .nil)
  | negate _ inner ih => exact List.rel_append (ih h) (.cons (hR _) .nil)
  | binary op offset left right ihl ihr =>
    refine List.rel_append (List.rel_append (ihl ?_) (ihr ?_)) (.cons (hR _) .nil)
    · exact fun a ha => h a (List.mem_append_left _ ha)
    · exact fun a ha => h a (List.mem_append_right _ ha)

/-- The items are the same, or one is the number one and the other the result of an
aggregate call in the formula's tree. -/
inductive SameItem (rows : Dataset) (tree : Tree Atom) : Item → Item → Prop
  | same (item) : SameItem rows tree item item
  | substituted {c : AggregateCall} : .aggregate c ∈ tree.operands →
      SameItem rows tree (.number 1.0) ((computing rows).operand c).item

theorem programs_agree (rows : Dataset) (tree : Tree Atom) :
    List.Forall₂ (SameItem rows tree) ((checking (columns rows)).program tree)
      ((computing rows).program tree) := by
  refine tree.forall₂_postorder .same ?_
  intro a ha
  cases a with
  | plain operand => cases operand <;> exact .same _
  | aggregate c => exact .substituted ha

/-- A formula is valid against the columns of a dataset exactly when it compiles against
the dataset. -/
theorem validate_agrees_compile (formula : String) (rows : Dataset) :
    (∃ e e', validate formula (columns rows) = .error e ∧
      Compiled.compile formula rows = .error e' ∧ SameFailure e e') ∨
    ∃ summary f, validate formula (columns rows) = .ok summary ∧
      Compiled.compile formula rows = .ok f ∧
      summary.aggregates = f.aggregates.map (·.name) ∧
      (∀ column, column ∈ summary.columns ↔
        column ∈ f.aggregates.map (·.column) ∨ column ∈ f.reads) ∧
      ∃ tree, tokenize formula = .ok summary.tokens ∧ Parses Atom.Reads summary.tokens tree ∧
        summary.rpn = Program.display ((checking (columns rows)).program tree) ∧
        f.program = (computing rows).program tree ∧
        List.Forall₂ (SameItem rows tree) ((checking (columns rows)).program tree) f.program := by
  cases ht : tokenize formula with
  | error e =>
    refine .inl ⟨.scan e, .scan e, ?_, ?_, .same _⟩
    · rw [validate, ht]; rfl
    · rw [Compiled.compile, ht]; rfl
  | ok ts =>
    rw [validate_eq ht, compile_eq ht]
    cases firstUnknown? (columns rows) (references ts) with
    | some name => exact .inl ⟨_, _, rfl, rfl, .same _⟩
    | none =>
      have hstep := compile_lockstep (tokens_alike rows ts)
      cases hcheck : Program.compile ((checking (columns rows)).tokens ts) with
      | error e =>
        cases hcompute : Program.compile ((computing rows).tokens ts) with
        | error e' =>
          rw [hcheck, hcompute] at hstep
          cases hstep with
          | error he => exact .inl ⟨_, _, rfl, rfl, .eval he⟩
        | ok program => rw [hcheck, hcompute] at hstep; cases hstep
      | ok checked =>
        obtain ⟨tree, htree, rfl⟩ := parses_of_compile_render hcheck
        rw [htree.compile_render]
        refine .inr ⟨_, _, rfl, rfl, ?_, ?_, tree, rfl, htree, rfl, rfl, programs_agree rows tree⟩
        · rw [resultsOf, map_computeAll (fun _ hc => function_of_mem_calls hc) fun he => he]
          exact foldl_appendNew_eq (fun c => c.name (spelled (columns rows) c.column)) (calls ts)
        · intro column
          simp only [mem_noteAll, List.mem_map, mem_resultsOf]
          grind [AggregateCall.result]

end Tabular.Formula
