import Tabular.Proofs.Formula.Reads
import Tabular.Proofs.Number.Finite

/-!
# Values of formulas are finite

Operators and functions refuse a result that is not finite, literals and negation are not
checked. Literals are finite as they are cut from the text, so by induction on the parse tree
every value of a formula is null or finite, on a row and without one.
-/
namespace Tabular.Formula

/-! ## Literals -/

/-- Every token is a lexeme. -/
theorem Cuts.exists_lexes {position : Nat} {source last : List Char} {pieces : List Piece}
    {tokens : List Token} (h : Cuts position source pieces last tokens) {t : Token}
    (ht : t ∈ tokens) : ∃ text after, Lexes text after t.kind t.value := by
  induction h with
  | last => cases ht
  | piece _ hl _ ih =>
    rcases List.mem_cons.mp ht with rfl | ht
    · exact ⟨_, _, hl⟩
    · exact ih ht

theorem literal_finite {formula : String} {tokens : List Token}
    (h : tokenize formula = .ok tokens) {t : Token} (ht : t ∈ tokens) (hk : t.kind = .number)
    {x : Float} (hx : Number.read? t.value = some x) : x.isFinite := by
  obtain ⟨-, -, hscan, -⟩ := tokenize_eq_ok.mp h
  obtain ⟨pieces, last, hcut⟩ := exists_cuts_of_scanFrom hscan
  obtain ⟨text, after, hlex⟩ := hcut.exists_lexes ht
  obtain ⟨kind, value, offset⟩ := t
  obtain rfl : kind = .number := hk
  cases hlex with
  | number _ _ hread hfinite =>
    cases hread.symm.trans hx
    exact hfinite

/-! ## Operands -/

theorem Atom.value_finite {formula : String} {rows : Dataset} {ts : List Token} {tree : Tree Atom}
    (ht : tokenize formula = .ok ts) (htree : Parses Atom.Reads ts tree) (row : Row) :
    ∀ a ∈ tree.operands, FiniteOrNull (a.value rows row) := by
  rw [htree.operands]
  intro a ha y hy
  cases a with
  | plain operand =>
    cases operand with
    | number x =>
      cases hy
      obtain ⟨t, hmem, hk, hx⟩ := exists_token_of_number ha
      exact literal_finite ht hmem hk hx
    | column =>
      obtain ⟨column, -, hy⟩ := Option.bind_eq_some_iff.mp hy
      exact Cell.number?_finite _ y hy
  | aggregate =>
    obtain ⟨column, -, hy⟩ := Option.bind_eq_some_iff.mp hy
    exact Aggregate.ofRows_finite _ _ _ _ y hy

/-! ## Values -/

theorem finiteOr_finite {operation : String} {offset : Nat} {x : Float} {v : Option Float}
    (h : finiteOr operation offset x = .ok v) : FiniteOrNull v := by
  unfold finiteOr at h
  split at h
  · rename_i hfinite
    cases h
    intro y hy
    cases hy
    exact hfinite
  · cases h

theorem Operator.value_finite {op : Operator} {offset : Nat} {x y v : Option Float}
    (h : op.value offset x y = .ok v) : FiniteOrNull v := by
  unfold Operator.value at h
  split at h
  · split at h
    · cases h
    · exact finiteOr_finite h
  · cases h
    exact fun y hy => by cases hy

/-- A tree whose operands are null or finite has such a value, if it has one. -/
theorem Tree.eval_finite {α : Type} {value : α → Option Float} {tree : Tree α}
    (hoperands : ∀ a ∈ tree.operands, FiniteOrNull (value a)) {v : Option Float}
    (h : tree.eval value = .ok v) : FiniteOrNull v := by
  induction tree generalizing v with
  | operand a =>
    cases h
    exact hoperands a (List.mem_singleton_self a)
  | group inner ih => exact ih hoperands h
  | plus inner ih => exact ih hoperands h
  | call f offset inner ih =>
    rw [eval] at h
    split at h
    · exact finiteOr_finite h
    · exact ih hoperands h
  -- Negation is not checked, so its operand has to be finite.
  | negate offset inner ih =>
    rw [eval] at h
    cases hi : inner.eval value with
    | error e =>
      rw [hi] at h
      cases h
    | ok x =>
      rw [hi] at h
      cases h
      intro y hy
      obtain ⟨z, hz, rfl⟩ := Option.map_eq_some_iff.mp hy
      exact Number.isFinite_neg (ih hoperands hi z hz)
  | binary op offset left right =>
    rw [eval] at h
    split at h
    · cases h
    split at h
    · cases h
    · exact Operator.value_finite h

/-- A compiled formula has on every row and without one a value that is null or finite, or
fails. -/
theorem compiled_finite {formula : String} {rows : Dataset} {f : Compiled}
    (hf : Compiled.compile formula rows = .ok f) {v : Option Float} :
    (∀ row, f.onRow row = .ok v → FiniteOrNull v) ∧ (f.onDataset = .ok v → FiniteOrNull v) := by
  obtain ⟨ts, tree, ht, hres, htree, hcompiled⟩ := compile_eq_ok.mp hf
  refine ⟨?_, ?_⟩
  · intro row h
    subst hcompiled
    have hrow := evaluate_program ht hres htree row
    exact Tree.eval_finite (Atom.value_finite ht htree row) (hrow.symm.trans h)
  · intro h
    cases hconst : f.isConstant with
    -- A formula that reads rows has no value without one.
    | false =>
      obtain ⟨e, he⟩ := onDataset_fails hf hconst
      rw [he] at h
      cases h
    | true =>
      subst hcompiled
      have hbare := bareColumns_eq_nil (List.isEmpty_iff.mp hconst)
      have hdataset := evaluate_without_row hres htree hbare Row.empty
      exact Tree.eval_finite (Atom.value_finite ht htree Row.empty) (hdataset.symm.trans h)

end Tabular.Formula
