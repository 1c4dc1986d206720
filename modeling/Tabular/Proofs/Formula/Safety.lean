import Tabular.Proofs.Formula.Checks
import Tabular.Proofs.Formula.Meaning

/-!
# How formulas fail

A formula that is tokenized is compiled unless it refers to a column that is not there or
its tokens are out of order. Once compiled it fails by arithmetic only, and without a row
also where it reads a column: the stack is never short of a value and never left with more
than one. Every failure is at one of the formula's tokens.
-/
namespace Tabular.Formula

/-- A number that does not exist or is not finite. -/
def EvalError.isArithmetic : EvalError → Bool
  | divisionByZero _ => true
  | moduloByZero _ => true
  | nonFinite .. => true
  | _ => false

/-- A column was read that nothing gives a value. -/
def EvalError.isUnresolved : EvalError → Bool
  | unresolvedColumn .. => true
  | _ => false

/-! ## Steps and the tokens they come from -/

/-- Where the token of a step is. -/
def Item.offset? : Item → Option Nat
  | number _ => none
  | column _ offset => some offset
  | binary _ offset => some offset
  | negate offset => some offset
  | apply _ offset => some offset

/-- Where the tokens of some steps are. -/
def offsets (items : List Item) : List Nat := items.filterMap Item.offset?

theorem mem_offsets_append {p : Nat} {items items' : List Item} :
    p ∈ offsets (items ++ items') ↔ p ∈ offsets items ∨ p ∈ offsets items' := by
  rw [offsets, List.filterMap_append, List.mem_append, offsets, offsets]

theorem mem_offsets_singleton {p : Nat} {item : Item} :
    p ∈ offsets [item] ↔ item.offset? = some p := by
  simp [offsets, List.mem_filterMap]

/-- Where the steps are of the tree that a part of the grammar begins with. -/
def Part.offsets : Part Operand → List Nat
  | tail _ left => Formula.offsets (left.postorder Operand.item)
  | _ => []

theorem Part.offsets_operand (l : Level) : (l.operand : Part Operand).offsets = [] := by
  cases l <;> rfl

theorem Operand.Reads.offset_mem {ts rest : List Token} {a : Operand}
    (h : Operand.Reads ts a rest) {p : Nat} :
    (p ∈ rest.map Token.offset → p ∈ ts.map Token.offset) ∧
      (a.item.offset? = some p → p ∈ ts.map Token.offset) := by
  cases h with
  | number => exact ⟨List.mem_cons_of_mem _, fun he => by cases he⟩
  | column =>
    refine ⟨List.mem_cons_of_mem _, fun he => ?_⟩
    cases he
    exact List.mem_cons_self

/-- The steps of a tree are at the tokens that it is derived from. -/
theorem Derives.offset_mem {part : Part Operand} {ts rest : List Token} {tree : Tree Operand}
    (h : Derives Operand.Reads part ts tree rest) (p : Nat) :
    (p ∈ rest.map Token.offset → p ∈ ts.map Token.offset) ∧
      (p ∈ Formula.offsets (tree.postorder Operand.item) →
        p ∈ part.offsets ∨ p ∈ ts.map Token.offset) := by
  induction h with
  | level _ _ ihf iht =>
    rw [Part.offsets_operand] at ihf
    simp only [Part.offsets, List.not_mem_nil, false_or] at *
    grind
  | tailEnd => exact ⟨fun hp => hp, fun hp => .inl hp⟩
  | tailStep _ _ _ _ ihr iht =>
    rw [Part.offsets_operand] at ihr
    simp only [Part.offsets, Tree.postorder, mem_offsets_append, mem_offsets_singleton,
      Item.offset?, Option.some.injEq, List.map_cons, List.mem_cons, List.not_mem_nil,
      false_or] at *
    grind
  | operand ha =>
    obtain ⟨hrest, hitem⟩ := @Operand.Reads.offset_mem _ _ _ ha p
    exact ⟨hrest, fun hp => .inr (hitem (mem_offsets_singleton.mp hp))⟩
  | call _ _ _ _ ih | negate _ _ ih =>
    simp only [Part.offsets, Tree.postorder, mem_offsets_append, mem_offsets_singleton,
      Item.offset?, Option.some.injEq, List.map_cons, List.mem_cons, List.not_mem_nil,
      false_or] at *
    grind
  | group _ _ _ ih | plus _ _ ih =>
    simp only [Part.offsets, Tree.postorder, List.map_cons, List.mem_cons, List.not_mem_nil,
      false_or] at *
    grind

/-- The steps of a program are at the tokens that it was made from. -/
theorem offset_mem_of_compile {ts : List Token} {program : Program}
    (h : Program.compile ts = .ok program) {p : Nat} (hp : p ∈ offsets program) :
    p ∈ ts.map Token.offset := by
  obtain ⟨tree, htree⟩ := parses_of_compile h
  rw [htree.compile] at h
  cases h
  exact ((htree.offset_mem p).2 hp).resolve_left List.not_mem_nil

/-! ## Arithmetic -/

/-- Arithmetic fails at the token with the given offset. -/
def FailsAt (offset : Nat) (e : EvalError) : Prop := e.isArithmetic ∧ e.position = offset

theorem finiteOr_safe (operation : String) (offset : Nat) (x : Float) :
    Safe (FailsAt offset) (fun _ => True) (finiteOr operation offset x) := by
  unfold finiteOr
  split
  · trivial
  · exact ⟨rfl, rfl⟩

theorem applyNullable_safe (op : Operator) (x y : Option Float) (offset : Nat) :
    Safe (FailsAt offset) (fun _ => True) (op.applyNullable x y offset) := by
  rw [applyNullable_eq]
  unfold Operator.value
  split
  · split
    · rename_i e he
      split at he
      · cases op with
        | div | rem =>
          cases he
          exact ⟨rfl, rfl⟩
        | _ => cases he
      · cases he
    · exact finiteOr_safe _ _ _
  · trivial

theorem applyNullable_function_safe (f : NumberFunction) (x : Option Float) (offset : Nat) :
    Safe (FailsAt offset) (fun _ => True) (f.applyNullable x offset) := by
  rw [applyNullable_function_eq]
  split
  · exact finiteOr_safe _ _ _
  · trivial

/-! ## Runs -/

theorem lookup_at (scope : Scope) (name : String) (offset : Nat) :
    Safe (fun e => e = .unresolvedColumn name offset) (fun _ => True)
      (scope.lookup name offset) := by
  unfold Scope.lookup
  split
  · trivial
  · split
    · trivial
    · rfl

/-- A step fails at its token, however many values there are. -/
theorem run_at (scope : Scope) (item : Item) (stack : Stack) :
    Safe (fun e => item.offset? = some e.position) (fun _ => True) (item.run scope stack) := by
  have hat : ∀ {α : Type} {x : Except EvalError α} {offset : Nat},
      Safe (FailsAt offset) (fun _ => True) x →
      Safe (fun e => some offset = some e.position) (fun _ => True) x :=
    fun h => h.blame_mono fun e he => congrArg some he.2.symm
  unfold Item.run
  split
  · trivial
  · exact ((lookup_at scope _ _).blame_mono fun e he => he ▸ rfl).bind fun _ _ => trivial
  · exact (hat (applyNullable_safe _ _ _ _)).bind fun _ _ => trivial
  · exact rfl
  · trivial
  · exact rfl
  · exact (hat (applyNullable_function_safe _ _ _)).bind fun _ _ => trivial
  · exact rfl

theorem runItems_cons_safe {scope : Scope} {item : Item} {rest : List Item} {stack : Stack}
    {blame : EvalError → Prop} {p post : Stack → Prop} (h : Safe blame p (item.run scope stack))
    (hrest : ∀ next, p next → Safe blame post (runItems scope rest next)) :
    Safe blame post (runItems scope (item :: rest) stack) := by
  rw [runItems]
  cases hrun : item.run scope stack with
  | error e =>
    rw [hrun] at h
    exact h
  | ok next =>
    rw [hrun] at h
    exact hrest next h

/-- A run fails at one of its steps. -/
theorem runItems_at (scope : Scope) (items : List Item) (stack : Stack) :
    Safe (fun e => e.position ∈ offsets items) (fun _ => True) (runItems scope items stack) := by
  induction items generalizing stack with
  | nil => trivial
  | cons item rest ih =>
    have hmem : ∀ e : EvalError, item.offset? = some e.position ∨ e.position ∈ offsets rest →
        e.position ∈ offsets (item :: rest) := by
      intro e he
      rw [← List.singleton_append, mem_offsets_append, mem_offsets_singleton]
      exact he
    have hitem := (run_at scope item stack).blame_mono fun e he => hmem e (.inl he)
    refine runItems_cons_safe hitem ?_
    intro next _
    exact (ih next).blame_mono fun e he => hmem e (.inr he)

/-- The steps of a tree leave one value more, so that what is not arithmetic fails only as
operands do. -/
theorem run_postorder_safe {α : Type} {scope : Scope} {item : α → Item}
    {blame : EvalError → Prop} (hblame : ∀ e, e.isArithmetic → blame e) (tree : Tree α)
    (hoperand : ∀ a ∈ tree.operands, ∀ stack,
      Safe blame (fun next => ∃ v, next = v :: stack) ((item a).run scope stack))
    {rest : List Item} {stack : Stack} {post : Stack → Prop}
    (hrest : ∀ v, Safe blame post (runItems scope rest (v :: stack))) :
    Safe blame post (runItems scope (tree.postorder item ++ rest) stack) := by
  have harith : ∀ {x : Except EvalError (Option Float)} {offset : Nat} {below : Stack},
      Safe (FailsAt offset) (fun _ => True) x →
      Safe blame (fun next => ∃ v, next = v :: below) (x >>= fun v => pure (v :: below)) :=
    fun h => (h.blame_mono fun e he => hblame e he.1).bind fun v _ => ⟨v, rfl⟩
  induction tree generalizing rest stack with
  | operand a =>
    refine runItems_cons_safe (hoperand a List.mem_cons_self stack) ?_
    rintro next ⟨v, rfl⟩
    exact hrest v
  | group inner ih | plus inner ih => exact ih hoperand hrest
  | negate offset inner ih =>
    rw [Tree.postorder, List.append_assoc]
    exact ih hoperand fun v => hrest (v.map Neg.neg)
  | call f offset inner ih =>
    rw [Tree.postorder, List.append_assoc]
    refine ih hoperand fun v => ?_
    refine runItems_cons_safe (harith (applyNullable_function_safe f v offset)) ?_
    rintro next ⟨v, rfl⟩
    exact hrest v
  | binary op offset left right ihl ihr =>
    rw [Tree.postorder, List.append_assoc, List.append_assoc]
    refine ihl (fun a ha => hoperand a (List.mem_append_left _ ha)) fun x => ?_
    refine ihr (fun a ha => hoperand a (List.mem_append_right _ ha)) fun y => ?_
    refine runItems_cons_safe (harith (applyNullable_safe op x y offset)) ?_
    rintro next ⟨v, rfl⟩
    exact hrest v

/-! ## Formulas -/

theorem computing_offset (rows : Dataset) (c : AggregateCall) :
    ((computing rows).call c).offset = c.offset := by
  simp only [computing, AggregateCall.token]
  split <;> rfl

/-- A formula's program leaves one value, or fails as arithmetic and its operands do, at one
of the formula's tokens. -/
theorem evaluate_safe {rows : Dataset} {ts : List Token} {tree : Tree Atom} {scope : Scope}
    {blame : EvalError → Prop} (htree : Parses Atom.Reads ts tree)
    (hblame : ∀ e, e.isArithmetic → blame e)
    (hoperand : ∀ a : Atom, a.OccursIn ts → ∀ stack,
      Safe blame (fun next => ∃ v, next = v :: stack)
        (((computing rows).atom a).item.run scope stack)) :
    Safe (fun e => blame e ∧ e.position ∈ ts.map Token.offset) (fun _ => True)
      (((computing rows).program tree).evaluate scope) := by
  have hrun : Safe blame (fun stack => ∃ v, stack = [v])
      (runItems scope ((computing rows).program tree ++ []) []) :=
    run_postorder_safe hblame tree (fun a ha => hoperand a (htree.occursIn ha)) fun v => ⟨v, rfl⟩
  have hat := runItems_at scope ((computing rows).program tree) []
  rw [List.append_nil] at hrun
  unfold Program.evaluate
  cases hresult : runItems scope ((computing rows).program tree) [] with
  | ok stack =>
    rw [hresult] at hrun
    obtain ⟨v, rfl⟩ := hrun
    trivial
  | error e =>
    rw [hresult] at hrun hat
    refine ⟨hrun, ?_⟩
    obtain ⟨t, ht, he⟩ := List.mem_map.mp
      (offset_mem_of_compile (htree.compile_render (computing rows)) hat)
    exact he ▸ Rendering.offset_mem (computing_offset rows) ht

/-- Without a row the formula's own columns have no value; results of calls do. -/
theorem run_without_row {rows : Dataset} {ts : List Token} {scope : Scope}
    (hs : scope.results = (resultsOf rows ts).map fun a => (a.key, a.value))
    (hres : ∀ name ∈ references ts, ∃ column, resolve name (columns rows) = some column)
    {a : Atom} (ha : a.OccursIn ts) (stack : Stack) :
    Safe (fun e => e.isUnresolved ∧ bareColumns ts ≠ []) (fun next => ∃ v, next = v :: stack)
      (((computing rows).atom a).item.run scope stack) := by
  cases a with
  | plain operand =>
    cases operand with
    | number x => exact ⟨some x, rfl⟩
    | column name offset =>
      have hne : bareColumns ts ≠ [] := List.ne_nil_of_mem ha
      refine Safe.bind (p := fun _ => True) ?_ fun v _ => ⟨v, rfl⟩
      refine (lookup_at scope _ offset).blame_mono ?_
      rintro e rfl
      exact ⟨rfl, hne⟩
  | aggregate call =>
    obtain ⟨column, hc⟩ := hres call.column (List.mem_append_left _ (List.mem_map_of_mem ha))
    rw [run_aggregate hs ha hc]
    exact ⟨_, rfl⟩

theorem noteAll_ne_nil {available names noted : List String} (h : names ≠ []) :
    noteAll available names noted ≠ [] := by
  obtain ⟨name, hn⟩ := List.exists_mem_of_ne_nil names h
  exact List.ne_nil_of_mem (mem_noteAll.mpr (.inr ⟨name, hn, rfl⟩))

section
variable {formula : String} {tokens : List Token} {rows : Dataset}

/-- What is tokenized and not compiled has an unknown column or a token out of place. -/
theorem compile_failure (ht : tokenize formula = .ok tokens) {e : Error}
    (he : Compiled.compile formula rows = .error e) :
    (∃ t ∈ tokens, t.kind = .column ∧ e = .columnNotFound t.value (columns rows)) ∨
      ∃ cause, e = .eval cause ∧ cause.isMisplacement ∧
        cause.position ∈ tokens.map Token.offset := by
  rw [compile_eq ht] at he
  split at he
  · rename_i name hname
    cases he
    obtain ⟨t, hmem, hk, rfl⟩ := mem_references.mp (List.mem_of_find?_eq_some hname)
    exact .inl ⟨t, hmem, hk, rfl⟩
  split at he
  · rename_i cause hcause
    cases he
    obtain ⟨-, -, -, hne, -⟩ := tokenize_eq_ok.mp ht
    have hrendered : (computing rows).tokens tokens ≠ [] := mt Rendering.tokens_eq_nil.mp hne
    have hchecked := (computing rows).checked (checked_of_tokenize ht)
    obtain ⟨t, hmem, hshape, hat⟩ := (compile_safe hrendered hchecked).of_error hcause
    exact .inr ⟨cause, rfl, hshape, hat ▸ Rendering.offset_mem (computing_offset rows) hmem⟩
  · cases he

variable {f : Compiled} {e : EvalError}

/-- On a row there is nothing but arithmetic to fail. -/
theorem onRow_failure (ht : tokenize formula = .ok tokens)
    (hf : Compiled.compile formula rows = .ok f) {row : Row} (he : f.onRow row = .error e) :
    e.isArithmetic ∧ e.position ∈ tokens.map Token.offset := by
  obtain ⟨ts, tree, hts, hres, htree, rfl⟩ := compile_eq_ok.mp hf
  cases ht.symm.trans hts
  have hrefs := known_references hres
  have hsafe := evaluate_safe htree (fun _ h => h) fun a ha stack => by
    rw [run_atom ht hrefs ha row]
    exact ⟨_, rfl⟩
  exact hsafe.of_error he

/-- Without a row there are the columns that the formula reads, too. -/
theorem onDataset_failure (ht : tokenize formula = .ok tokens)
    (hf : Compiled.compile formula rows = .ok f) (he : f.onDataset = .error e) :
    (e.isArithmetic ∨ e.isUnresolved ∧ f.reads ≠ []) ∧
      e.position ∈ tokens.map Token.offset := by
  obtain ⟨ts, tree, hts, hres, htree, rfl⟩ := compile_eq_ok.mp hf
  cases ht.symm.trans hts
  have hrefs := known_references hres
  have hsafe := @evaluate_safe rows _ _
    { results := (resultsOf rows tokens).map fun a => (a.key, a.value) }
    (fun e => e.isArithmetic ∨ e.isUnresolved ∧ bareColumns tokens ≠ [])
    htree (fun _ h => .inl h) fun a ha stack =>
      (run_without_row rfl hrefs ha stack).blame_mono fun _ h => .inr h
  obtain ⟨hkind, hat⟩ := hsafe.of_error he
  exact ⟨hkind.imp_right (And.imp_right noteAll_ne_nil), hat⟩

end

/-- A formula that is tokenized is refused for a column that is not there, or because an
operand or an operator is missing or an aggregate is misplaced. What is compiled fails by
arithmetic only; without a row it may fail at a column that it reads, too. Either is blamed
on a token of the formula. -/
theorem failures_of_tokenize {formula : String} {tokens : List Token}
    (ht : tokenize formula = .ok tokens) (rows : Dataset) :
    (∀ e, Compiled.compile formula rows = .error e →
      (∃ t ∈ tokens, t.kind = .column ∧ e = .columnNotFound t.value (columns rows)) ∨
      ∃ cause, e = .eval cause ∧ cause.isMisplacement ∧
        cause.position ∈ tokens.map Token.offset) ∧
    ∀ f, Compiled.compile formula rows = .ok f →
      (∀ row e, f.onRow row = .error e →
        e.isArithmetic ∧ e.position ∈ tokens.map Token.offset) ∧
      ∀ e, f.onDataset = .error e →
        (e.isArithmetic ∨ e.isUnresolved ∧ f.reads ≠ []) ∧
        e.position ∈ tokens.map Token.offset := by
  refine ⟨?_, ?_⟩
  · intro e he
    exact compile_failure ht he
  · intro f hf
    refine ⟨?_, ?_⟩
    · intro row e he
      exact onRow_failure ht hf he
    · intro e he
      exact onDataset_failure ht hf he

/-- In `=1/[a]` the division is blamed where `a` is zero, and the column where there is no
row. -/
theorem failures_of_quotient :
    let zero := Row.ofList [("a", .number 0.0)]
    let tokens : List Token := [⟨.number, "1", 1⟩, ⟨.operator, "/", 2⟩, ⟨.column, "a", 3⟩]
    tokenize "=1/[a]" = .ok tokens ∧ ∃ f e e', Compiled.compile "=1/[a]" [zero] = .ok f ∧
      f.onRow zero = .error e ∧ e.isArithmetic ∧ e.position ∈ [1, 2, 3] ∧
      f.onDataset = .error e' ∧ e'.position ∈ [1, 2, 3] := by
  intro zero tokens
  have htokens : tokenize "=1/[a]" = .ok tokens := by decide +kernel
  have hrun : (Compiled.compile "=1/[a]" [zero]).toOption.map
      (fun f => (f.onRow zero, f.onDataset)) =
      some (.error (.divisionByZero 2), .error (.unresolvedColumn "a" 3)) := by decide +kernel
  refine ⟨htokens, ?_⟩
  cases hf : Compiled.compile "=1/[a]" [zero] with
  | error e => simp [hf, Except.toOption] at hrun
  | ok f =>
    simp only [hf, Except.toOption, Option.map_some, Option.some.injEq, Prod.mk.injEq] at hrun
    obtain ⟨hrow, hdataset⟩ := hrun
    obtain ⟨-, hok⟩ := failures_of_tokenize htokens [zero]
    obtain ⟨hrows, hwhole⟩ := hok f hf
    obtain ⟨hkind, hat⟩ := hrows zero _ hrow
    exact ⟨f, _, _, rfl, hrow, hkind, hat, hdataset, (hwhole _ hdataset).2⟩

end Tabular.Formula
