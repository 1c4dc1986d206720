import Tabular.Proofs.Formula.Nulls

/-!
# Keys of results and columns

A null aggregate is a column step under the key of its result, among the steps that read columns
of the row. The two are never taken for each other, whatever the columns of the data are called:
keys have braces, and neither a reference in a formula nor a column that it means has one
(`keys_apart`).
-/
namespace Tabular.Formula

/-- A formula of some tokens, compiled over rows, keeps the keys of results apart from the columns
of the data. -/
structure Compiled.KeysApart (f : Compiled) (rows : Dataset) (ts : List Token) : Prop where
  /-- A reference outside of calls means a row column that the formula reads. -/
  references : ∀ name ∈ bareColumns ts, ∃ column ∈ f.reads,
    resolve name (columns rows) = some column
  /-- A row column that the formula reads is answered by the row. -/
  reads : ∀ column ∈ f.reads, Text.Braceless column ∧ ∀ row offset,
    Scope.lookup ⟨f.results, some row⟩ column offset = .ok (row.number? column)
  /-- No aggregate is of a column that could be taken for a key. -/
  aggregates : ∀ a ∈ f.aggregates, Text.Braceless a.column
  /-- Every other column step is the key of a null aggregate and is null, with any row. -/
  steps : ∀ name ∈ f.program.columns, name ∈ f.reads ∨
    (∃ a ∈ f.aggregates, a.key = name ∧ a.value = none) ∧
      ∀ row? offset, Scope.lookup ⟨f.results, row?⟩ name offset = .ok none
  /-- A column of a row that could be taken for a key is not read. -/
  unread : ∀ (row : Row) name cell, ¬ Text.Braceless name →
    f.onRow (row.insert name cell) = f.onRow row

/-! ## Tokens -/

section
variable {formula : String} {ts : List Token} {rows : Dataset} {available : List String}

/-- A call becomes a column only under the key of its result, and only if that is null. -/
theorem AggregateCall.resultToken_column {c : AggregateCall}
    (h : (c.resultToken rows available).kind = .column) :
    (c.resultToken rows available).value = (c.result rows (spelled available c.column)).key ∧
      (c.result rows (spelled available c.column)).value = none := by
  rw [AggregateCall.resultToken] at h ⊢
  rw [AggregateCall.result]
  cases hvalue : Aggregate.ofRows rows (spelled available c.column) c.kind none with
  | some x =>
    rw [hvalue] at h
    cases h
  | none => exact ⟨rfl, rfl⟩

/-- Of the columns that are left when the calls are computed, those of the formula are no keys
and the others are keys of null results. -/
theorem computeCalls_keys (ht : tokenize formula = .ok ts) {e : Extraction}
    (he : computeCalls ts rows available = .ok e) {t : Token} (hmem : t ∈ e.tokens)
    (hk : t.kind = .column) :
    t ∈ ts ∧ t.value ∉ e.computed.map AggregateResult.key ∨
      t ∉ ts ∧ ∃ a ∈ e.computed, t.value = a.key ∧ a.value = none := by
  obtain ⟨-, rfl⟩ := computeCalls_eq_ok.mp he
  obtain ⟨segment, hsegment, rfl⟩ := List.mem_map.mp hmem
  cases segment with
  | token t =>
    rw [Segment.render, t.rename_id] at hk ⊢
    have hts := mem_of_token_mem hsegment
    exact .inl ⟨hts, not_mem_keys (braceless_of_tokenize ht hts hk) _⟩
  | call c =>
    rw [Segment.render] at hk ⊢
    obtain ⟨hkey, hnull⟩ := AggregateCall.resultToken_column hk
    have hcall : c ∈ calls ts := List.mem_filterMap.mpr ⟨_, hsegment, rfl⟩
    refine .inr ⟨fun hts => ?_, _, (mem_computeAll fun _ hc => function_of_mem_calls hc).mpr
      ⟨c, hcall, rfl⟩, hkey, hnull⟩
    have hbraceless := braceless_of_tokenize ht hts hk
    rw [hkey] at hbraceless
    exact not_braceless_resultKey _ hbraceless

/-! ## Compiled formulas -/

variable {f : Compiled}

theorem compile_keysApart (ht : tokenize formula = .ok ts)
    (hf : Compiled.compile formula rows = .ok f) : f.KeysApart rows ts := by
  have hsteps := @mem_program_columns formula rows f hf
  obtain ⟨ts', tree, ht', hres, htree, rfl⟩ := compile_eq_ok.mp hf
  cases ht.symm.trans ht'
  have hrefs := known_references hres
  have hreads : ∀ column ∈ noteAll (columns rows) (bareColumns ts) [],
      Text.Braceless column := by
    intro column hcolumn
    obtain ⟨reference, hmem, hc⟩ := (mem_reads_iff hrefs).mp hcolumn
    exact braceless_of_reference ht (List.mem_append_right _ hmem) hc
  refine ⟨fun name hname => ?_, fun column hcolumn => ?_, fun a ha => ?_, fun name hname => ?_,
    fun row name cell hbraces => ?_⟩
  · obtain ⟨column, hcolumn⟩ := resolve_bare hrefs hname
    exact ⟨column, (mem_reads_iff hrefs).mpr ⟨name, hname, hcolumn⟩, hcolumn⟩
  · refine ⟨hreads column hcolumn, fun row offset => ?_⟩
    rw [Scope.lookup, Compiled.results, lookup_of_braceless (hreads column hcolumn)]
  · obtain ⟨c, hc, rfl⟩ := mem_resultsOf.mp ha
    obtain ⟨column, hcolumn⟩ := resolve_call hrefs hc
    rw [AggregateCall.result, spelled_of_resolve hcolumn]
    exact braceless_of_reference ht (List.mem_append_left _ (List.mem_map_of_mem hc)) hcolumn
  · refine (hsteps.mp hname).imp_right ?_
    rintro ⟨a, ha, rfl, hnull⟩
    refine ⟨⟨a, ha, rfl, hnull⟩, fun row? offset => ?_⟩
    obtain ⟨c, hc, rfl⟩ := mem_resultsOf.mp ha
    have hlookup := (listed_resultsOf rows ts).lookup (function_of_mem_calls hc) ha
    rw [Scope.lookup, Compiled.results, AggregateResult.key, AggregateCall.result, hlookup]
    exact congrArg Except.ok hnull
  · show ((computing rows).program tree).evaluate (rowScope rows ts (row.insert name cell)) =
      ((computing rows).program tree).evaluate (rowScope rows ts row)
    rw [evaluate_program ht hres htree, evaluate_program ht hres htree]
    refine tree.eval_congr fun a ha => Atom.value_congr (fun column hcolumn => ?_)
      (htree.occursIn ha)
    have hne : column ≠ name := by
      rintro rfl
      exact hbraces (hreads column hcolumn)
    rw [Row.number?, Row.number?, Row.cell, Row.cell, Row.get?_insert_of_ne row cell hne]

end

/-- Neither a column that a formula refers to nor one that it means has a brace, so that none is a
key. Where the calls are computed exactly the columns of the formula are looked up among the
columns, all others being keys of null results, and a compiled formula does not take a column for
a key nor a key for a column. -/
theorem keys_apart {formula : String} {ts : List Token} (ht : tokenize formula = .ok ts) :
    (∀ t ∈ ts, t.kind = .column → ∀ name,
      name = t.value ∨ (∃ available, resolve t.value available = some name) →
      Text.Braceless name ∧ ∀ a, name ≠ resultKey a) ∧
    (∀ rows available e, computeCalls ts rows available = .ok e → ∀ t ∈ e.tokens,
      t.kind = .column →
      t ∈ ts ∧ t.value ∉ e.computed.map AggregateResult.key ∨
        t ∉ ts ∧ ∃ a ∈ e.computed, t.value = a.key ∧ a.value = none) ∧
    ∀ rows f, Compiled.compile formula rows = .ok f → f.KeysApart rows ts := by
  refine ⟨fun t hmem hk name hname => ?_, fun rows available e he t hmem hk => ?_,
    fun rows f hf => compile_keysApart ht hf⟩
  · have hbraceless : Text.Braceless name := by
      have hvalue := braceless_of_tokenize ht hmem hk
      rcases hname with rfl | ⟨available, hc⟩
      · exact hvalue
      · exact braceless_of_resolve hc hvalue
    refine ⟨hbraceless, ?_⟩
    rintro a rfl
    exact not_braceless_resultKey a hbraceless
  · exact computeCalls_keys ht he hmem hk

/-- A null aggregate beside columns that are named like it and like its key. -/
theorem keys_apart_lookalikes :
    let row := Row.ofList [("Revenue", .text "n/a"), ("SUM_Revenue", .number 7.0),
      ("\x7bSUM_Revenue\x7d", .number 9.0)]
    ∃ ts f, tokenize "SUM_Revenue + SUM(Revenue)" = .ok ts ∧
      Compiled.compile "SUM_Revenue + SUM(Revenue)" [row] = .ok f ∧
      f.program.columns = ["SUM_Revenue", "\x7bSUM_Revenue\x7d"] ∧
      (f.onRow row).toOption = some none ∧ f.KeysApart [row] ts := by
  intro row
  have hrun : (Compiled.compile "SUM_Revenue + SUM(Revenue)" [row]).toOption.map
      (fun f => (f.program.columns, (f.onRow row).toOption)) =
        some (["SUM_Revenue", "\x7bSUM_Revenue\x7d"], some none) := by decide +kernel
  cases hf : Compiled.compile "SUM_Revenue + SUM(Revenue)" [row] with
  | error e => simp [hf, Except.toOption] at hrun
  | ok f =>
    obtain ⟨ts, -, ht, -⟩ := compile_eq_ok.mp hf
    rw [hf] at hrun
    obtain ⟨hcolumns, hvalue⟩ := Prod.mk.inj (Option.some.inj hrun)
    exact ⟨ts, f, ht, rfl, hcolumns, hvalue, (keys_apart ht).2.2 [row] f hf⟩

end Tabular.Formula
