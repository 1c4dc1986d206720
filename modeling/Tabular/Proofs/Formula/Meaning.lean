import Tabular.Proofs.Formula.Binding
import Tabular.Proofs.Reference

/-!
# What a formula means

`Tree.eval` interprets a parse tree by recursion, operands from left to right. A formula
compiles exactly if it is tokenized, its references name columns and its tokens have a
parse tree, and then its value on a row is what the interpreter gives for that tree.
-/
namespace Tabular.Formula

/-! ## The interpreter -/

/-- A number that an operation has given, which has to be finite. -/
def finiteOr (operation : String) (offset : Nat) (x : Float) : Except EvalError (Option Float) :=
  if x.isFinite then .ok (some x) else .error (.nonFinite operation offset)

/-- What an operator computes, finite or not. -/
def Operator.compute : Operator → Float → Float → Float
  | add, x, y => x + y
  | sub, x, y => x - y
  | mul, x, y => x * y
  | div, x, y => x / y
  | rem, x, y => Number.remainder x y

/-- How an operator fails on a right operand that is zero, if it does. -/
def Operator.onZero? (offset : Nat) : Operator → Option EvalError
  | div => some (.divisionByZero offset)
  | rem => some (.moduloByZero offset)
  | _ => none

/-- The value of a binary node: null as soon as an operand is, whatever the other. -/
def Operator.value (op : Operator) (offset : Nat) :
    Option Float → Option Float → Except EvalError (Option Float)
  | some x, some y =>
    match if y == 0.0 then op.onZero? offset else none with
    | some e => .error e
    | none => finiteOr op.symbol.toString offset (op.compute x y)
  | _, _ => .ok none

/-- The value of a parse tree whose operands have values. -/
def Tree.eval {α : Type} (value : α → Option Float) : Tree α → Except EvalError (Option Float)
  | operand a => .ok (value a)
  | call f offset inner =>
    match inner.eval value with
    | .ok (some x) => finiteOr f.name offset (f.apply x)
    | result => result
  | group inner => inner.eval value
  | negate _ inner => (inner.eval value).map fun x => x.map Neg.neg
  | plus inner => inner.eval value
  | binary op offset left right =>
    match left.eval value with
    | .error e => .error e
    | .ok x =>
      match right.eval value with
      | .error e => .error e
      | .ok y => op.value offset x y

/-- What an operand of a formula denotes on a row: an aggregate call the aggregate of its
column over the dataset, a column the row's number in it. -/
def Atom.value (rows : Dataset) (row : Row) : Atom → Option Float
  | .plain (.number x) => some x
  | .plain (.column name _) => (resolve name (columns rows)).bind row.number?
  | .aggregate call => (resolve call.column (columns rows)).bind fun column =>
      Aggregate.ofRows rows column call.kind none

/-! ## Programs compute the interpreter's values -/

theorem applyNullable_eq (op : Operator) (x y : Option Float) (offset : Nat) :
    op.applyNullable x y offset = op.value offset x y := by
  cases x with
  | none => rfl
  | some x =>
    cases y with
    | none => rfl
    | some y =>
      have hfinite : ∀ (z : Float) (operation : String),
          (refuseNonFinite z operation offset).map some = finiteOr operation offset z := by
        intro z operation
        rw [refuseNonFinite, finiteOr]
        split <;> rfl
      cases op with
      | div | rem =>
        simp only [Operator.applyNullable, Operator.apply, Operator.value, Operator.onZero?]
        cases y == 0.0 with
        | true => rfl
        | false => exact hfinite _ _
      | _ =>
        simp only [Operator.applyNullable, Operator.apply, Operator.value, Operator.onZero?,
          ite_self]
        exact hfinite _ _

theorem applyNullable_function_eq (f : NumberFunction) (x : Option Float) (offset : Nat) :
    f.applyNullable x offset = match x with
      | some x => finiteOr f.name offset (f.apply x)
      | none => .ok none := by
  cases x with
  | none => rfl
  | some x =>
    simp only [NumberFunction.applyNullable, refuseNonFinite, finiteOr]
    split <;> rfl

/-- The post-order of a tree leaves the tree's value on the stack, or fails as the
interpreter does. -/
theorem run_postorder {α : Type} {scope : Scope} {item : α → Item} {value : α → Option Float}
    (tree : Tree α) (rest : List Item) (stack : Stack)
    (h : ∀ a ∈ tree.operands, ∀ stack, (item a).run scope stack = .ok (value a :: stack)) :
    runItems scope (tree.postorder item ++ rest) stack =
      match tree.eval value with
      | .error e => .error e
      | .ok v => runItems scope rest (v :: stack) := by
  induction tree generalizing rest stack with
  | operand a =>
    rw [Tree.postorder, List.singleton_append, runItems, h a List.mem_cons_self]
    rfl
  | group inner ih => exact ih rest stack h
  | plus inner ih => exact ih rest stack h
  | negate offset inner ih =>
    rw [Tree.postorder, List.append_assoc, ih _ _ h, Tree.eval]
    cases inner.eval value <;> rfl
  | call f offset inner ih =>
    rw [Tree.postorder, List.append_assoc, ih _ _ h, Tree.eval]
    cases inner.eval value with
    | error e => rfl
    | ok v =>
      simp only [List.singleton_append, runItems, Item.run, applyNullable_function_eq, bind,
        Except.bind]
      cases v with
      | none => rfl
      | some x =>
        simp only
        cases finiteOr f.name offset (f.apply x) <;> rfl
  | binary op offset left right ihl ihr =>
    rw [Tree.postorder, List.append_assoc, List.append_assoc,
      ihl _ _ fun a ha => h a (List.mem_append_left _ ha), Tree.eval]
    cases left.eval value with
    | error e => rfl
    | ok x =>
      simp only [ihr _ _ fun a ha => h a (List.mem_append_right _ ha)]
      cases right.eval value with
      | error e => rfl
      | ok y =>
        simp only [List.singleton_append, runItems, Item.run, applyNullable_eq, bind, Except.bind]
        cases op.value offset x y <;> rfl

/-! ## Operands of a formula -/

/-- The column or the aggregate call of an operand is one of the formula's. -/
def Atom.OccursIn (ts : List Token) : Atom → Prop
  | .plain (.number _) => True
  | .plain (.column name _) => name ∈ bareColumns ts
  | .aggregate call => call ∈ calls ts

/-- The operand that a segment is. -/
def Segment.atom? : Segment → Option Atom
  | token t =>
    match t.kind with
    | .number => (Number.read? t.value).map fun x => .plain (.number x)
    | .column => some (.plain (.column t.value t.offset))
    | _ => none
  | call c => some (.aggregate c)

/-- The operands in a token sequence, from left to right. -/
def atoms (ts : List Token) : List Atom := (segments ts).filterMap Segment.atom?

theorem mem_atoms {ts : List Token} {a : Atom} :
    a ∈ atoms ts ↔ ∃ segment ∈ segments ts, segment.atom? = some a := List.mem_filterMap

/-- A number among the operands is a token that is read as that number. -/
theorem exists_token_of_number {ts : List Token} {x : Float}
    (h : .plain (.number x) ∈ atoms ts) :
    ∃ t ∈ ts, t.kind = .number ∧ Number.read? t.value = some x := by
  obtain ⟨segment, hmem, hx⟩ := mem_atoms.mp h
  cases segment with
  | token t =>
    refine ⟨t, mem_of_token_mem hmem, ?_⟩
    obtain ⟨kind, value, offset⟩ := t
    cases kind with
    | number =>
      obtain ⟨y, hy, he⟩ := Option.map_eq_some_iff.mp hx
      cases he
      exact ⟨rfl, hy⟩
    | _ => cases hx
  | call c => cases hx

theorem Atom.occursIn_of_mem {ts : List Token} {a : Atom} (h : a ∈ atoms ts) : a.OccursIn ts := by
  obtain ⟨segment, hmem, ha⟩ := mem_atoms.mp h
  cases segment with
  | token t =>
    obtain ⟨kind, value, offset⟩ := t
    cases kind with
    | number =>
      obtain ⟨x, -, rfl⟩ := Option.map_eq_some_iff.mp ha
      trivial
    | column =>
      cases ha
      exact List.mem_filterMap.mpr ⟨_, hmem, rfl⟩
    | _ => cases ha
  | call c =>
    cases ha
    exact List.mem_filterMap.mpr ⟨_, hmem, rfl⟩

/-- Every column outside of calls is an operand. -/
theorem exists_atom_of_bare {ts : List Token} {name : String} (h : name ∈ bareColumns ts) :
    ∃ offset, .plain (.column name offset) ∈ atoms ts := by
  obtain ⟨segment, hmem, hname⟩ := List.mem_filterMap.mp h
  cases segment with
  | token t =>
    obtain ⟨hk, hvalue⟩ := Option.ite_none_right_eq_some.mp hname
    obtain rfl := Option.some.inj hvalue
    exact ⟨t.offset, mem_atoms.mpr ⟨_, hmem, by rw [Segment.atom?, hk]⟩⟩
  | call c => cases hname

/-- Every aggregate call is an operand. -/
theorem atom_of_mem_calls {ts : List Token} {c : AggregateCall} (h : c ∈ calls ts) :
    .aggregate c ∈ atoms ts := by
  obtain ⟨segment, hmem, hc⟩ := List.mem_filterMap.mp h
  cases segment with
  | token t => cases hc
  | call c' =>
    cases hc
    exact mem_atoms.mpr ⟨_, hmem, rfl⟩

theorem atoms_fixed {t : Token} (ht : t.Fixed) (ts : List Token) : atoms (t :: ts) = atoms ts := by
  rw [atoms, segments_token ht.aggregates]
  refine List.filterMap_cons_none ?_
  have hnumber := ht.number
  have hcolumn := ht.column
  obtain ⟨kind, value, offset⟩ := t
  cases kind with
  | number => exact absurd rfl hnumber
  | column => exact absurd rfl hcolumn
  | _ => rfl

/-- What an operand is read from begins with that operand. -/
theorem Atom.Reads.atoms {ts rest : List Token} {a : Atom} (h : Atom.Reads ts a rest) :
    Formula.atoms ts = a :: Formula.atoms rest := by
  cases h with
  | plain h =>
    cases h with
    | number hk hx =>
      rw [Formula.atoms, segments_token (Token.not_aggregates (by simp [hk]))]
      exact List.filterMap_cons_some (by rw [Segment.atom?, hk, hx]; rfl)
    | column hk =>
      rw [Formula.atoms, segments_token (Token.not_aggregates (by simp [hk]))]
      exact List.filterMap_cons_some (by rw [Segment.atom?, hk])
  | aggregate hf hk ho hc hcl =>
    rw [Formula.atoms, segments_call (ofTokens?_eq_some.mpr ⟨hf, ho, hc, hcl, _, hk, rfl⟩)]
    rfl

/-- The operands that a part of the grammar begins with. -/
def Part.operands {α : Type} : Part α → List α
  | tail _ left => left.operands
  | _ => []

theorem Level.operands_operand {α : Type} (l : Level) : (l.operand : Part α).operands = [] := by
  cases l <;> rfl

/-- A part's tree has the operands that the part begins with and those that it takes up, in
order. -/
theorem Derives.operands {part : Part Atom} {ts rest : List Token} {tree : Tree Atom}
    (h : Derives Atom.Reads part ts tree rest) :
    part.operands ++ atoms ts = tree.operands ++ atoms rest := by
  induction h with
  | level _ _ ihf iht =>
    rw [Level.operands_operand] at ihf
    exact ihf.trans iht
  | tailEnd => rfl
  | @tailStep _ left _ _ _ _ _ _ _ hw _ _ _ ihr iht =>
    rw [Level.operands_operand, List.nil_append] at ihr
    rw [atoms_fixed hw.fixed, ihr, ← iht]
    exact (List.append_assoc _ _ _).symm
  | operand ha => exact ha.atoms
  | call hc ho hcl _ ih =>
    rw [atoms_fixed hcl.fixed] at ih
    rw [atoms_fixed hc.fixed, atoms_fixed (Token.fixed_of_isParen ho)]
    exact ih
  | group ho hcl _ ih =>
    rw [atoms_fixed hcl.fixed] at ih
    rw [atoms_fixed (Token.fixed_of_isParen ho)]
    exact ih
  | negate hw _ ih | plus hw _ ih =>
    rw [atoms_fixed hw.fixed]
    exact ih

/-- The operands of a formula's tree are those in its tokens, in order. -/
theorem Parses.operands {ts : List Token} {tree : Tree Atom} (h : Parses Atom.Reads ts tree) :
    tree.operands = atoms ts := by
  have hoperands := Derives.operands h
  exact (hoperands.trans (List.append_nil _)).symm

theorem Parses.occursIn {ts : List Token} {tree : Tree Atom} (h : Parses Atom.Reads ts tree)
    {a : Atom} (ha : a ∈ tree.operands) : a.OccursIn ts :=
  Atom.occursIn_of_mem (h.operands ▸ ha)

/-! ## Columns and keys -/

/-- A reference without braces means no column that has one. -/
theorem braceless_of_resolve {reference column : String} {available : List String}
    (h : resolve reference available = some column) (hr : Text.Braceless reference) :
    Text.Braceless column := by
  obtain ⟨-, -, name, hname, hlower⟩ := resolve_eq_some h
  refine Text.Braceless.of_lower_eq ?_ hlower
  simp only [spellings, List.mem_cons, List.not_mem_nil, or_false] at hname
  rcases hname with rfl | rfl | rfl
  · exact hr.trim
  · exact hr.trim.replaceChar (by simp [Text.IsBrace])
  · exact hr.trim.replaceChar (by simp [Text.IsBrace])

/-- Keys of results have braces, and the columns that a formula can name have none. -/
theorem braceless_of_reference {formula : String} {ts : List Token} {available : List String}
    {name column : String} (ht : tokenize formula = .ok ts) (hn : name ∈ references ts)
    (hc : resolve name available = some column) : Text.Braceless column := by
  obtain ⟨t, hmem, hk, rfl⟩ := mem_references.mp hn
  exact braceless_of_resolve hc (braceless_of_tokenize ht hmem hk)

theorem lookup_of_braceless {results : List AggregateResult} {name : String}
    (h : Text.Braceless name) :
    (results.map fun a => (a.key, a.value)).lookup name = none := by
  rw [List.lookup_eq_none_iff]
  intro p hp
  obtain ⟨a, -, rfl⟩ := List.mem_map.mp hp
  refine bne_iff_ne.mpr ?_
  rintro rfl
  exact not_braceless_resultKey a.name h

/-! ## Formulas on a row -/

/-- What a row's column steps read. -/
def rowScope (rows : Dataset) (ts : List Token) (row : Row) : Scope where
  results := (resultsOf rows ts).map fun a => (a.key, a.value)
  row? := some row

theorem run_column {scope : Scope} {name : String} {offset : Nat} {value : Option Float}
    (h : scope.lookup name offset = .ok value) (stack : Stack) :
    (Operand.column name offset).item.run scope stack = .ok (value :: stack) := by
  rw [Operand.item, Item.run, h]
  rfl

/-- The step of a call puts the aggregate on the stack, with a row or without one. -/
theorem run_aggregate {rows : Dataset} {ts : List Token} {call : AggregateCall} {column : String}
    {scope : Scope} (hs : scope.results = (resultsOf rows ts).map fun a => (a.key, a.value))
    (ha : call ∈ calls ts) (hc : resolve call.column (columns rows) = some column)
    (stack : Stack) :
    ((computing rows).atom (.aggregate call)).item.run scope stack =
      .ok (Aggregate.ofRows rows column call.kind none :: stack) := by
  have hk := function_of_mem_calls ha
  have hspelled := spelled_of_resolve hc
  have hmem := result_mem_resultsOf rows ha
  rw [hspelled] at hmem
  have hlookup := (listed_resultsOf rows ts).lookup hk hmem
  have hoperand : (computing rows).atom (.aggregate call) =
      call.operand column (Aggregate.ofRows rows column call.kind none) := by
    simp only [Rendering.atom, computing, hspelled]
  rw [hoperand]
  cases hv : Aggregate.ofRows rows column call.kind none with
  | some x => rfl
  | none =>
    rw [hv] at hlookup
    have hscope : scope.lookup (resultKey (call.name column)) call.offset = .ok none := by
      rw [Scope.lookup, hs, hlookup]
    exact run_column hscope stack

/-- The step of an operand puts on the stack what the operand denotes. -/
theorem run_atom {formula : String} {rows : Dataset} {ts : List Token}
    (ht : tokenize formula = .ok ts)
    (hres : ∀ name ∈ references ts, ∃ column, resolve name (columns rows) = some column)
    {a : Atom} (ha : a.OccursIn ts) (row : Row) (stack : Stack) :
    ((computing rows).atom a).item.run (rowScope rows ts row) stack =
      .ok (a.value rows row :: stack) := by
  cases a with
  | plain operand =>
    cases operand with
    | number x => rfl
    | column name offset =>
      have hn : name ∈ references ts := List.mem_append_right _ ha
      obtain ⟨column, hc⟩ := hres name hn
      have hbrace := braceless_of_reference ht hn hc
      have hlookup : (rowScope rows ts row).lookup column offset = .ok (row.number? column) := by
        rw [Scope.lookup, rowScope, lookup_of_braceless hbrace]
      rw [Rendering.atom, computing_column, spelled_of_resolve hc, run_column hlookup, Atom.value, hc,
        Option.bind_some]
  | aggregate call =>
    obtain ⟨column, hc⟩ := hres call.column
      (List.mem_append_left _ (List.mem_map_of_mem ha))
    rw [run_aggregate rfl ha hc, Atom.value, hc, Option.bind_some]

theorem known_references {available : List String} {ts : List Token}
    (h : ∀ t ∈ ts, t.kind = .column → ∃ column, resolve t.value available = some column) :
    ∀ name ∈ references ts, ∃ column, resolve name available = some column :=
  (@forall_mem_references ts fun name => ∃ column, resolve name available = some column).mpr h

/-- A compiled formula is made of its tokens, which refer to the dataset's columns only, and
of their parse tree. -/
theorem compile_eq_ok {formula : String} {rows : Dataset} {f : Compiled} :
    Compiled.compile formula rows = .ok f ↔ ∃ ts tree, tokenize formula = .ok ts ∧
      (∀ t ∈ ts, t.kind = .column → ∃ column, resolve t.value (columns rows) = some column) ∧
      Parses Atom.Reads ts tree ∧
      f = ⟨formula, (computing rows).program tree, resultsOf rows ts,
        noteAll (columns rows) (bareColumns ts) []⟩ := by
  cases ht : tokenize formula with
  | error e =>
    have herror : Compiled.compile formula rows = .error (.scan e) := by
      rw [Compiled.compile, ht]
      rfl
    simp [herror]
  | ok ts =>
    rw [compile_eq ht]
    have hknown : firstUnknown? (columns rows) (references ts) = none ↔
        ∀ t ∈ ts, t.kind = .column → ∃ column, resolve t.value (columns rows) = some column :=
      firstUnknown?_eq_none.trans forall_mem_references
    constructor
    · intro h
      split at h
      · cases h
      rename_i hnone
      split at h
      · cases h
      rename_i program hprogram
      obtain ⟨tree, htree, rfl⟩ := parses_of_compile_render hprogram
      exact ⟨ts, tree, rfl, hknown.mp hnone, htree, (Except.ok.inj h).symm⟩
    · rintro ⟨ts', tree, hts, hres, htree, rfl⟩
      cases hts
      simp only [hknown.mpr hres, htree.compile_render]

/-- A program evaluates to its tree's value in any scope that gives the operands theirs. -/
theorem evaluate_of_run {rows : Dataset} {ts : List Token} {tree : Tree Atom} {scope : Scope}
    {value : Atom → Option Float} (htree : Parses Atom.Reads ts tree)
    (hrun : ∀ a : Atom, a.OccursIn ts → ∀ stack,
      ((computing rows).atom a).item.run scope stack = .ok (value a :: stack)) :
    ((computing rows).program tree).evaluate scope = tree.eval value := by
  have hpost := run_postorder tree [] [] fun a ha stack => hrun a (htree.occursIn ha) stack
  rw [List.append_nil] at hpost
  rw [Program.evaluate, Rendering.program, hpost]
  cases tree.eval value <;> rfl

/-- The program of a parse tree evaluates to the tree's value. -/
theorem evaluate_program {formula : String} {rows : Dataset} {ts : List Token} {tree : Tree Atom}
    (ht : tokenize formula = .ok ts)
    (hres : ∀ t ∈ ts, t.kind = .column → ∃ column, resolve t.value (columns rows) = some column)
    (htree : Parses Atom.Reads ts tree) (row : Row) :
    ((computing rows).program tree).evaluate (rowScope rows ts row) =
      tree.eval (Atom.value rows row) :=
  evaluate_of_run htree fun _ ha stack => run_atom ht (known_references hres) ha row stack

/-- Compiling a formula succeeds exactly when it is tokenized, all columns it refers to
are among the dataset's, and the tokens have a parse tree. Then there is one such tree,
and on every row the compiled formula has the value that interpreting the tree gives. -/
theorem compile_onRow_eq_eval (formula : String) (rows : Dataset) :
    ((∃ f, Compiled.compile formula rows = .ok f) ↔
      ∃ tokens, tokenize formula = .ok tokens ∧
        (∀ t ∈ tokens, t.kind = .column →
          ∃ column, resolve t.value (columns rows) = some column) ∧
        ∃ tree, Parses Atom.Reads tokens tree) ∧
    ∀ f tokens tree, Compiled.compile formula rows = .ok f → tokenize formula = .ok tokens →
      Parses Atom.Reads tokens tree →
      (∀ other, Parses Atom.Reads tokens other → other = tree) ∧
      ∀ row, f.onRow row = tree.eval (Atom.value rows row) := by
  have hcompile := @compile_eq_ok formula rows
  refine ⟨⟨?_, ?_⟩, ?_⟩
  · rintro ⟨f, hf⟩
    obtain ⟨ts, tree, ht, hres, htree, -⟩ := hcompile.mp hf
    exact ⟨ts, ht, hres, tree, htree⟩
  · rintro ⟨ts, ht, hres, tree, htree⟩
    exact ⟨_, hcompile.mpr ⟨ts, tree, ht, hres, htree, rfl⟩⟩
  · intro f ts tree hf ht htree
    obtain ⟨ts', tree', ht', hres, htree', rfl⟩ := hcompile.mp hf
    cases ht.symm.trans ht'
    refine ⟨fun other h => h.unique Atom.separates htree, ?_⟩
    intro row
    cases htree.unique Atom.separates htree'
    exact evaluate_program ht hres htree row

end Tabular.Formula
