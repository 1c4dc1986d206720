import Tabular.Proofs.Formula.Safety

/-!
# What a formula reads of a row

A compiled formula lists the row columns that it reads. Rows that have the same numbers under
these have the same value, and a formula that lists none needs no row (`onRow_reads_only`).
Nor is a column listed for nothing: without a row, a formula that lists one has no value.
-/
namespace Tabular.Formula

/-! ## Operands and the columns they name -/

/-- A tree's value depends on the values of its operands only. -/
theorem Tree.eval_congr {α : Type} {value value' : α → Option Float} (tree : Tree α)
    (h : ∀ a ∈ tree.operands, value a = value' a) : tree.eval value = tree.eval value' := by
  induction tree with
  | operand a =>
    show Except.ok (value a) = Except.ok (value' a)
    rw [h a List.mem_cons_self]
  | call f offset inner ih => rw [Tree.eval, Tree.eval, ih h]
  | group inner ih => exact ih h
  | negate offset inner ih => rw [Tree.eval, Tree.eval, ih h]
  | plus inner ih => exact ih h
  | binary op offset left right ihl ihr =>
    rw [Tree.eval, Tree.eval, ihl fun a ha => h a (List.mem_append_left _ ha),
      ihr fun a ha => h a (List.mem_append_right _ ha)]

/-- What an operand denotes on a row depends on the columns that are noted only. -/
theorem Atom.value_congr {rows : Dataset} {ts : List Token} {r r' : Row}
    (h : ∀ c ∈ noteAll (columns rows) (bareColumns ts) [], r.number? c = r'.number? c)
    {a : Atom} (ha : a.OccursIn ts) : a.value rows r = a.value rows r' := by
  cases a with
  | plain operand =>
    cases operand with
    | number x => rfl
    | column name offset =>
      show (resolve name (columns rows)).bind r.number? =
        (resolve name (columns rows)).bind r'.number?
      cases hc : resolve name (columns rows) with
      | none => rfl
      | some column =>
        have hspelled : column = spelled (columns rows) name := by rw [spelled, hc]; rfl
        exact h column (mem_noteAll.mpr (.inr ⟨name, ha, hspelled⟩))
  | aggregate call => rfl

/-- A formula that notes no column refers to none outside of calls. -/
theorem bareColumns_eq_nil {available : List String} {ts : List Token}
    (h : noteAll available (bareColumns ts) [] = []) : bareColumns ts = [] := by
  by_cases hb : bareColumns ts = []
  · exact hb
  · exact absurd h (noteAll_ne_nil hb)

/-- Where there are no columns outside of calls, a step needs no row. -/
theorem run_constant {rows : Dataset} {ts : List Token} {scope : Scope}
    (hs : scope.results = (resultsOf rows ts).map fun a => (a.key, a.value))
    (hres : ∀ name ∈ references ts, ∃ column, resolve name (columns rows) = some column)
    (hbare : bareColumns ts = []) {a : Atom} (ha : a.OccursIn ts) (row : Row) (stack : Stack) :
    ((computing rows).atom a).item.run scope stack = .ok (a.value rows row :: stack) := by
  cases a with
  | plain operand =>
    cases operand with
    | number x => rfl
    | column name offset =>
      have hname : name ∈ bareColumns ts := ha
      rw [hbare] at hname
      cases hname
  | aggregate call =>
    obtain ⟨column, hc⟩ := hres call.column (List.mem_append_left _ (List.mem_map_of_mem ha))
    rw [run_aggregate hs ha hc, Atom.value, hc, Option.bind_some]

/-- The program of a tree without columns outside of calls has its value on any row. -/
theorem evaluate_without_row {rows : Dataset} {ts : List Token} {tree : Tree Atom}
    (hres : ∀ t ∈ ts, t.kind = .column → ∃ column, resolve t.value (columns rows) = some column)
    (htree : Parses Atom.Reads ts tree) (hbare : bareColumns ts = []) (row : Row) :
    ((computing rows).program tree).evaluate
        { results := (resultsOf rows ts).map fun a => (a.key, a.value) } =
      tree.eval (Atom.value rows row) :=
  evaluate_of_run htree fun _ ha stack =>
    run_constant rfl (known_references hres) hbare ha row stack

/-- A formula reads the columns it lists and nothing else of a row, whatever other columns
are called. If it lists none, it has on every row the value, or the failure, that it has
without a row. -/
theorem onRow_reads_only {formula : String} {rows : Dataset} {f : Compiled}
    (hf : Compiled.compile formula rows = .ok f) :
    (∀ r r' : Row, (∀ c ∈ f.reads, r.number? c = r'.number? c) → f.onRow r = f.onRow r') ∧
      (f.isConstant → ∀ r, f.onRow r = f.onDataset) := by
  obtain ⟨ts, tree, ht, hres, htree, rfl⟩ := compile_eq_ok.mp hf
  have hoccurs : ∀ a ∈ tree.operands, a.OccursIn ts := fun _ => htree.occursIn
  have hrow : ∀ r, ((computing rows).program tree).evaluate (rowScope rows ts r) =
      tree.eval (Atom.value rows r) := evaluate_program ht hres htree
  refine ⟨?_, ?_⟩
  · intro r r' hagree
    show ((computing rows).program tree).evaluate (rowScope rows ts r) =
      ((computing rows).program tree).evaluate (rowScope rows ts r')
    rw [hrow, hrow]
    exact tree.eval_congr fun a ha => Atom.value_congr hagree (hoccurs a ha)
  · intro hconstant r
    have hbare := bareColumns_eq_nil (List.isEmpty_iff.mp hconstant)
    exact (hrow r).trans (evaluate_without_row hres htree hbare r).symm

/-- A column named like an aggregate is read from the row, and one that is named like the key
of its result is not read at all. -/
theorem onRow_beside_lookalikes :
    let rows := [Row.ofList [("Revenue", .text "n/a"), ("MAX_Revenue", .number 7.0)]]
    let row := Row.ofList [("MAX_Revenue", .number 3.0)]
    let other := row.insert "\x7bMAX_Revenue\x7d" (.number 9.0)
    ∃ f, Compiled.compile "MAX_Revenue + MAX(Revenue)" rows = .ok f ∧
      f.reads = ["MAX_Revenue"] ∧ f.onRow row = f.onRow other := by
  intro rows row other
  have hreads : (Compiled.compile "MAX_Revenue + MAX(Revenue)" rows).toOption.map (·.reads) =
      some ["MAX_Revenue"] := by decide +kernel
  cases hf : Compiled.compile "MAX_Revenue + MAX(Revenue)" rows with
  | error e => simp [hf, Except.toOption] at hreads
  | ok f =>
    have hf' : f.reads = ["MAX_Revenue"] := by simpa [hf, Except.toOption] using hreads
    refine ⟨f, rfl, hf', (onRow_reads_only hf).1 row other ?_⟩
    rw [hf']
    decide +kernel

/-! ## Without a row -/

theorem Tree.item_mem_postorder {α : Type} (item : α → Item) {a : α} {tree : Tree α}
    (h : a ∈ tree.operands) : item a ∈ tree.postorder item := by
  induction tree with
  | operand b => exact List.mem_map_of_mem (f := item) h
  | call f offset inner ih => exact List.mem_append_left _ (ih h)
  | group inner ih => exact ih h
  | negate offset inner ih => exact List.mem_append_left _ (ih h)
  | plus inner ih => exact ih h
  | binary op offset left right ihl ihr =>
    rcases List.mem_append.mp h with h | h
    · exact List.mem_append_left _ (List.mem_append_left _ (ihl h))
    · exact List.mem_append_left _ (List.mem_append_right _ (ihr h))

/-- A run that ends has found a value for every column. -/
theorem lookup_of_runItems {scope : Scope} {items : List Item} {stack out : Stack}
    (h : runItems scope items stack = .ok out) {name : String} {offset : Nat}
    (hm : Item.column name offset ∈ items) : ∃ value, scope.lookup name offset = .ok value := by
  induction items generalizing stack with
  | nil => cases hm
  | cons item rest ih =>
    rw [runItems] at h
    cases hrun : item.run scope stack with
    | error e =>
      rw [hrun] at h
      cases h
    | ok next =>
      rw [hrun] at h
      rcases List.mem_cons.mp hm with rfl | hm
      · cases hl : scope.lookup name offset with
        | error e =>
          rw [Item.run, hl] at hrun
          cases hrun
        | ok value => exact ⟨value, rfl⟩
      · exact ih h hm

theorem lookup_of_evaluate {program : Program} {scope : Scope} {result : Option Float}
    (h : program.evaluate scope = .ok result) {name : String} {offset : Nat}
    (hm : Item.column name offset ∈ program) :
    ∃ value, scope.lookup name offset = .ok value := by
  unfold Program.evaluate at h
  cases hrun : runItems scope program [] with
  | error e =>
    rw [hrun] at h
    cases h
  | ok stack => exact lookup_of_runItems hrun hm

/-- Without a row a formula that lists a column fails, there or before it. -/
theorem onDataset_fails {formula : String} {rows : Dataset} {f : Compiled}
    (hf : Compiled.compile formula rows = .ok f) (hreads : f.isConstant = false) :
    ∃ e, f.onDataset = .error e := by
  obtain ⟨ts, tree, ht, hres, htree, rfl⟩ := compile_eq_ok.mp hf
  have hbare : bareColumns ts ≠ [] := by
    intro hnil
    rw [Compiled.isConstant, hnil] at hreads
    cases hreads
  obtain ⟨name, hn⟩ := List.exists_mem_of_ne_nil _ hbare
  obtain ⟨column, hc⟩ := known_references hres name (List.mem_append_right _ hn)
  obtain ⟨offset, hatoms⟩ := exists_atom_of_bare hn
  have ha := htree.operands ▸ hatoms
  have hatom : ((computing rows).atom (.plain (.column name offset))).item =
      .column column offset := by
    rw [Rendering.atom, computing_column, spelled, hc]
    rfl
  have hitem : Item.column column offset ∈ (computing rows).program tree :=
    hatom ▸ Tree.item_mem_postorder (fun a => ((computing rows).atom a).item) ha
  cases hv : Compiled.onDataset ⟨formula, (computing rows).program tree, resultsOf rows ts,
      noteAll (columns rows) (bareColumns ts) []⟩ with
  | error e => exact ⟨e, rfl⟩
  | ok result =>
    obtain ⟨value, hvalue⟩ := lookup_of_evaluate hv hitem
    have hbrace := braceless_of_reference ht (List.mem_append_right _ hn) hc
    rw [Scope.lookup, Compiled.results, lookup_of_braceless hbrace] at hvalue
    cases hvalue

end Tabular.Formula
