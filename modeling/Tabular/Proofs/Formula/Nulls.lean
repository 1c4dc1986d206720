import Tabular.Proofs.Formula.Reads

/-!
# Where a formula is null

No operator and no function looks past a null operand, and none makes a null of numbers. So a
tree that has a value is null exactly if one of its operands is, and a compiled formula is null on
a row exactly if one of its column steps is (`onRow_eq_null_iff`). The column steps are the columns
that the formula reads of a row and the aggregates that are null over the dataset.
-/
namespace Tabular.Formula

/-! ## Trees -/

theorem finiteOr_ne_null {operation : String} {offset : Nat} {x : Float} {v : Option Float}
    (h : finiteOr operation offset x = .ok v) : v ≠ none := by
  unfold finiteOr at h
  split at h
  · cases h
    exact Option.some_ne_none x
  · cases h

theorem Operator.value_eq_null_iff {op : Operator} {offset : Nat} {x y v : Option Float}
    (h : op.value offset x y = .ok v) : v = none ↔ x = none ∨ y = none := by
  unfold Operator.value at h
  split at h
  · split at h
    · cases h
    · simp [finiteOr_ne_null h]
  · rename_i hnull
    cases h
    refine iff_of_true rfl ?_
    cases x with
    | none => exact .inl rfl
    | some x =>
      cases y with
      | none => exact .inr rfl
      | some y => exact absurd rfl (hnull x y rfl)

/-- A tree that has a value is null exactly if an operand is, wherever it stands. -/
theorem Tree.eval_eq_null_iff {α : Type} {value : α → Option Float} {tree : Tree α}
    {v : Option Float} (h : tree.eval value = .ok v) :
    v = none ↔ ∃ a ∈ tree.operands, value a = none := by
  induction tree generalizing v with
  | operand a =>
    cases h
    simp [operands]
  | group inner ih | plus inner ih => exact ih h
  | call f offset inner ih =>
    rw [eval] at h
    split at h
    · rename_i x hx
      exact iff_of_false (finiteOr_ne_null h) (mt (ih hx).mpr (Option.some_ne_none x))
    · exact ih h
  | negate offset inner ih =>
    rw [eval] at h
    cases hx : inner.eval value with
    | error e =>
      rw [hx] at h
      cases h
    | ok x =>
      rw [hx] at h
      cases h
      exact Option.map_eq_none_iff.trans (ih hx)
  | binary op offset left right ihl ihr =>
    rw [eval] at h
    split at h
    · cases h
    rename_i x hx
    split at h
    · cases h
    rename_i y hy
    rw [Operator.value_eq_null_iff h, ihl hx, ihr hy, operands]
    simp only [List.mem_append, or_and_right, exists_or]

/-! ## Column steps -/

theorem mem_columns {program : Program} {name : String} :
    name ∈ program.columns ↔ ∃ offset, .column name offset ∈ program := by
  simp only [Program.columns, List.mem_filterMap]
  constructor
  · rintro ⟨item, hitem, hname⟩
    split at hname
    · cases hname
      exact ⟨_, hitem⟩
    · cases hname
  · rintro ⟨offset, hitem⟩
    exact ⟨_, hitem, rfl⟩

/-- The column steps of a tree's program come from its operands. -/
theorem Tree.column_mem_postorder {α : Type} {item : α → Item} {tree : Tree α} {name : String}
    {offset : Nat} : .column name offset ∈ tree.postorder item ↔
      ∃ a ∈ tree.operands, item a = .column name offset := by
  induction tree with
  | operand a => simp [postorder, operands, eq_comm]
  | group inner ih | plus inner ih => exact ih
  | call f position inner ih | negate position inner ih =>
    rw [postorder, List.mem_append, ih, operands]
    simp
  | binary op position left right ihl ihr =>
    rw [postorder, List.mem_append, List.mem_append, ihl, ihr, operands]
    simp [or_and_right, exists_or]

/-- The column that an operand is read from: one of the row, or the key of a null aggregate. -/
def Atom.column? (rows : Dataset) (a : Atom) : Option String :=
  match ((computing rows).atom a).item with
  | .column name _ => some name
  | _ => none

theorem Atom.column?_eq_some {rows : Dataset} {a : Atom} {name : String} :
    a.column? rows = some name ↔ ∃ offset, ((computing rows).atom a).item = .column name offset := by
  unfold Atom.column?
  split
  · rename_i column offset hitem
    rw [hitem]
    constructor
    · intro h
      cases h
      exact ⟨offset, rfl⟩
    · rintro ⟨_, h⟩
      cases h
      rfl
  · rename_i hitem
    exact iff_of_false (by simp) fun ⟨offset, h⟩ => hitem name offset h

theorem mem_columns_of_parses {rows : Dataset} {ts : List Token} {tree : Tree Atom}
    (htree : Parses Atom.Reads ts tree) {name : String} :
    name ∈ Program.columns ((computing rows).program tree) ↔
      ∃ a ∈ atoms ts, a.column? rows = some name := by
  simp only [mem_columns, Rendering.program, Tree.column_mem_postorder, htree.operands,
    Atom.column?_eq_some]
  constructor
  · rintro ⟨offset, a, ha, hitem⟩
    exact ⟨a, ha, offset, hitem⟩
  · rintro ⟨a, ha, offset, hitem⟩
    exact ⟨offset, a, ha, hitem⟩

/-! ## Columns of a compiled formula -/

section
variable {rows : Dataset} {ts : List Token} {name column : String}

theorem column?_plain (hc : resolve name (columns rows) = some column) (offset : Nat) :
    (Atom.plain (.column name offset)).column? rows = some column := by
  refine Atom.column?_eq_some.mpr ⟨offset, ?_⟩
  rw [Rendering.atom, computing_column, spelled_of_resolve hc, Operand.item]

theorem column?_aggregate {c : AggregateCall}
    (hc : resolve c.column (columns rows) = some column) :
    (Atom.aggregate c).column? rows =
      match Aggregate.ofRows rows column c.kind none with
      | some _ => none
      | none => some (resultKey (c.name column)) := by
  simp only [Atom.column?, Rendering.atom, computing, spelled_of_resolve hc]
  cases Aggregate.ofRows rows column c.kind none <;> rfl

variable (hrefs : ∀ name ∈ references ts, ∃ column, resolve name (columns rows) = some column)
include hrefs

theorem resolve_bare (h : name ∈ bareColumns ts) :
    ∃ column, resolve name (columns rows) = some column :=
  hrefs name (List.mem_append_right _ h)

theorem resolve_call {c : AggregateCall} (h : c ∈ calls ts) :
    ∃ column, resolve c.column (columns rows) = some column :=
  hrefs c.column (List.mem_append_left _ (List.mem_map_of_mem h))

/-- The row columns that a formula lists are those of its references outside of calls. -/
theorem mem_reads_iff : name ∈ noteAll (columns rows) (bareColumns ts) [] ↔
    ∃ reference ∈ bareColumns ts, resolve reference (columns rows) = some name := by
  simp only [mem_noteAll, List.not_mem_nil, false_or]
  refine exists_congr fun reference => and_congr_right fun hmem => ?_
  obtain ⟨column, hc⟩ := resolve_bare hrefs hmem
  rw [spelled_of_resolve hc, hc, Option.some.injEq, eq_comm]

/-- The null results are those of the calls whose aggregate is null. -/
theorem null_result_iff : (∃ a ∈ resultsOf rows ts, a.key = name ∧ a.value = none) ↔
    ∃ c ∈ calls ts, ∃ column, resolve c.column (columns rows) = some column ∧
      Aggregate.ofRows rows column c.kind none = none ∧ resultKey (c.name column) = name := by
  constructor
  · rintro ⟨a, ha, rfl, hnull⟩
    obtain ⟨c, hc, rfl⟩ := mem_resultsOf.mp ha
    obtain ⟨column, hcolumn⟩ := resolve_call hrefs hc
    rw [spelled_of_resolve hcolumn] at hnull ⊢
    exact ⟨c, hc, column, hcolumn, hnull, rfl⟩
  · rintro ⟨c, hc, column, hcolumn, hnull, rfl⟩
    refine ⟨_, result_mem_resultsOf rows hc, ?_⟩
    rw [spelled_of_resolve hcolumn]
    exact ⟨rfl, hnull⟩

end

/-- The column has no number on the row: it is one that the formula reads of the row, or the key
of an aggregate that is null. -/
def Compiled.NullOn (f : Compiled) (row : Row) (name : String) : Prop :=
  name ∈ f.reads ∧ row.number? name = none ∨ ∃ a ∈ f.aggregates, a.key = name ∧ a.value = none

section
variable {formula : String} {rows : Dataset} {f : Compiled}

/-- The column steps of a formula are the row columns that it lists and its null aggregates. -/
theorem mem_program_columns (hf : Compiled.compile formula rows = .ok f) {name : String} :
    name ∈ f.program.columns ↔
      name ∈ f.reads ∨ ∃ a ∈ f.aggregates, a.key = name ∧ a.value = none := by
  obtain ⟨ts, tree, -, hres, htree, rfl⟩ := compile_eq_ok.mp hf
  have hrefs := known_references hres
  rw [mem_columns_of_parses htree, mem_reads_iff hrefs, null_result_iff hrefs]
  constructor
  · rintro ⟨a, ha, hname⟩
    have hoccurs := Atom.occursIn_of_mem ha
    cases a with
    | plain operand =>
      cases operand with
      | number => cases hname
      | column reference offset =>
        obtain ⟨column, hc⟩ := resolve_bare hrefs hoccurs
        rw [column?_plain hc] at hname
        cases hname
        exact .inl ⟨reference, hoccurs, hc⟩
    | aggregate c =>
      obtain ⟨column, hc⟩ := resolve_call hrefs hoccurs
      rw [column?_aggregate hc] at hname
      split at hname
      · cases hname
      · rename_i hnull
        exact .inr ⟨c, hoccurs, column, hc, hnull, Option.some.inj hname⟩
  · rintro (⟨reference, hmem, hc⟩ | ⟨c, hmem, column, hc, hnull, rfl⟩)
    · obtain ⟨offset, ha⟩ := exists_atom_of_bare hmem
      exact ⟨_, ha, column?_plain hc offset⟩
    · exact ⟨_, atom_of_mem_calls hmem, by rw [column?_aggregate hc, hnull]⟩

/-- An operand is null exactly if it is a column step, and the column is null. -/
theorem value_eq_null_iff {ts : List Token} {program : Program} (ht : tokenize formula = .ok ts)
    (hrefs : ∀ name ∈ references ts, ∃ column, resolve name (columns rows) = some column)
    (row : Row) {a : Atom} (ha : a ∈ atoms ts) :
    a.value rows row = none ↔ ∃ name, a.column? rows = some name ∧
      Compiled.NullOn ⟨formula, program, resultsOf rows ts,
        noteAll (columns rows) (bareColumns ts) []⟩ row name := by
  have hoccurs := Atom.occursIn_of_mem ha
  cases a with
  | plain operand =>
    cases operand with
    | number x => exact iff_of_false (Option.some_ne_none x) fun ⟨name, hname, _⟩ => by cases hname
    | column reference offset =>
      obtain ⟨column, hc⟩ := resolve_bare hrefs hoccurs
      have hread : column ∈ noteAll (columns rows) (bareColumns ts) [] :=
        (mem_reads_iff hrefs).mpr ⟨reference, hoccurs, hc⟩
      -- A column of the row is no key, so it is null as a column of the row only.
      have hkey : ¬ ∃ a ∈ resultsOf rows ts, a.key = column ∧ a.value = none := by
        rintro ⟨a, -, rfl, -⟩
        exact not_braceless_resultKey a.name
          (braceless_of_reference ht (List.mem_append_right _ hoccurs) hc)
      simp only [column?_plain hc, Option.some.injEq, exists_eq_left', Compiled.NullOn, hkey,
        or_false, hread, true_and, Atom.value, hc, Option.bind_some]
  | aggregate c =>
    obtain ⟨column, hc⟩ := resolve_call hrefs hoccurs
    rw [column?_aggregate hc, Atom.value, hc, Option.bind_some]
    cases hv : Aggregate.ofRows rows column c.kind none with
    | some x => simp
    | none =>
      refine iff_of_true rfl ⟨_, rfl, .inr ?_⟩
      exact (null_result_iff hrefs).mpr ⟨c, hoccurs, column, hc, hv, rfl⟩

/-- A value on a row is null exactly if a column step is. -/
theorem null_iff_of_onRow (hf : Compiled.compile formula rows = .ok f) {row : Row}
    {v : Option Float} (h : f.onRow row = .ok v) :
    v = none ↔ ∃ name ∈ f.program.columns, f.NullOn row name := by
  obtain ⟨ts, tree, ht, hres, htree, rfl⟩ := compile_eq_ok.mp hf
  have hrefs := known_references hres
  have hrow := evaluate_program ht hres htree row
  rw [Tree.eval_eq_null_iff (hrow.symm.trans h), htree.operands]
  simp only [mem_columns_of_parses htree]
  constructor
  · rintro ⟨a, ha, hv⟩
    obtain ⟨name, hname, hnull⟩ := (value_eq_null_iff ht hrefs row ha).mp hv
    exact ⟨name, ⟨a, ha, hname⟩, hnull⟩
  · rintro ⟨name, ⟨a, ha, hname⟩, hnull⟩
    exact ⟨a, ha, (value_eq_null_iff ht hrefs row ha).mpr ⟨name, hname, hnull⟩⟩

end

/-- A formula that does not fail on a row is null there exactly if one of its column steps is, and
else a number. Its column steps are all the row columns that it lists and all its aggregates that
are null. -/
theorem onRow_eq_null_iff {formula : String} {rows : Dataset} {f : Compiled}
    (hf : Compiled.compile formula rows = .ok f) (row : Row) :
    (f.onRow row = .ok none ↔
      (∀ e, f.onRow row ≠ .error e) ∧ ∃ name ∈ f.program.columns, f.NullOn row name) ∧
    ((∀ e, f.onRow row ≠ .error e) → (∀ name ∈ f.program.columns, ¬ f.NullOn row name) →
      ∃ x, f.onRow row = .ok (some x)) ∧
    ∀ name, name ∈ f.program.columns ↔
      name ∈ f.reads ∨ ∃ a ∈ f.aggregates, a.key = name ∧ a.value = none := by
  refine ⟨?_, ?_, fun name => mem_program_columns hf⟩
  · cases h : f.onRow row with
    | error e => exact iff_of_false (by simp) fun hok => hok.1 e rfl
    | ok v =>
      rw [Except.ok.injEq, null_iff_of_onRow hf h]
      exact (and_iff_right fun e he => by cases he).symm
  · intro hok hcolumns
    cases h : f.onRow row with
    | error e => exact absurd h (hok e)
    | ok v =>
      cases v with
      | some x => exact ⟨x, rfl⟩
      | none =>
        obtain ⟨name, hname, hnull⟩ := (null_iff_of_onRow hf h).mp rfl
        exact absurd hnull (hcolumns name hname)

/-- A null operand comes before a division by zero, in a function and below other operators. -/
theorem onRow_eq_null_iff_below_quotient :
    let row := Row.ofList [("Revenue", .number 5.0), ("Cost", .text "n/a")]
    ∃ f, Compiled.compile "1 + ABS(Revenue - Cost) / 0" [row] = .ok f ∧
      f.program.columns = ["Revenue", "Cost"] ∧ f.onRow row = .ok none := by
  intro row
  have hrun : (Compiled.compile "1 + ABS(Revenue - Cost) / 0" [row]).toOption.map
      (fun f => (f.program.columns, f.reads, (f.onRow row).isOk)) =
      some (["Revenue", "Cost"], ["Revenue", "Cost"], true) := by decide +kernel
  cases hf : Compiled.compile "1 + ABS(Revenue - Cost) / 0" [row] with
  | error e => simp [hf, Except.toOption] at hrun
  | ok f =>
    simp only [hf, Except.toOption, Option.map_some, Option.some.injEq, Prod.mk.injEq] at hrun
    obtain ⟨hcolumns, hreads, hok⟩ := hrun
    refine ⟨f, rfl, hcolumns, (onRow_eq_null_iff hf row).1.mpr ⟨?_, "Cost", ?_, .inl ⟨?_, ?_⟩⟩⟩
    · intro e he
      rw [he] at hok
      cases hok
    · simp [hcolumns]
    · simp [hreads]
    · decide +kernel

end Tabular.Formula
