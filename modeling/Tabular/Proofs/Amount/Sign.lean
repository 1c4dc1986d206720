import Tabular.Proofs.Amount

/-!
# The sign of an amount in parentheses

Parentheses negate the number between them, and that may be written with a sign of its own. So an
amount in parentheses is not positive, unless it is the negation of a negative number
(`not_pos_iff_of_wrapped`).
-/
namespace Tabular.Amount

/-- The text that is left between the white space around it begins with a parenthesis and ends
with one. -/
structure Wrapped (raw : String) : Prop where
  opening : (Text.trimChars raw.toList).head? = some '('
  closing : (Text.trimChars raw.toList).getLast? = some ')'

theorem Wrapped.exists_body {raw : String} (h : Wrapped raw) :
    ∃ body, Text.trimChars raw.toList = '(' :: (body ++ [')']) := by
  obtain ⟨rest, hrest⟩ := List.head?_eq_some_iff.mp h.opening
  obtain ⟨init, hinit⟩ := List.getLast?_eq_some_iff.mp h.closing
  cases init with
  | nil => simp [hinit] at hrest
  | cons c body =>
    rw [hinit, List.cons_append] at hrest
    obtain ⟨rfl, -⟩ := List.cons.inj hrest
    exact ⟨body, hinit⟩

/-- A literal's double has the literal's sign, if it is finite. -/
theorem exact_toFloat_sign {d : Number.Decimal} (hd : d.toFloat.isFinite) :
    0 ≤ Number.withSign d.negative (Number.exact d.toFloat) := by
  have hmagnitude : (0 : ℚ) ≤ d.digits * 10 ^ d.exponent := by positivity
  have hnearest := d.isResult_toFloat.isNearest hd
  rw [Number.Decimal.value] at hnearest
  cases hsign : d.negative with
  | false =>
    rw [hsign] at hnearest
    exact hnearest.nonneg hmagnitude
  | true =>
    rw [hsign] at hnearest
    exact neg_nonneg.mpr (hnearest.nonpos (neg_nonpos.mpr hmagnitude))

/-- The amount of a text in parentheses is the negation of a literal's double. -/
theorem exists_negated {raw : String} {x : Float} {body : List Char}
    (hbody : Text.trimChars raw.toList = '(' :: (body ++ [')'])) (h : read? raw = some x) :
    ∃ d, Number.Spells (undecorated body) d ∧ d.toFloat.isFinite ∧ x = -d.toFloat := by
  obtain ⟨negative, d, ⟨inner, hbears, hspells⟩, hfinite, -, rfl⟩ := read?_eq_some_iff.mp h
  have hunwrap := bears_iff.mp hbears
  rw [hbody, unwrap_wrapped] at hunwrap
  obtain ⟨rfl, rfl⟩ := Prod.mk.inj hunwrap
  exact ⟨d, hspells, hfinite, rfl⟩

/-- An amount in parentheses is not positive exactly if the number between them is written without
a minus, or is zero. -/
theorem not_pos_iff_of_wrapped {raw : String} {x : Float} (hwrapped : Wrapped raw)
    (h : read? raw = some x) : ∃ body, Text.trimChars raw.toList = '(' :: (body ++ [')']) ∧
      (¬ 0.0 < x ↔ (undecorated body).head? ≠ some '-' ∨ x == 0.0) := by
  obtain ⟨body, hbody⟩ := hwrapped.exists_body
  obtain ⟨d, hspells, hd, rfl⟩ := exists_negated hbody h
  refine ⟨body, hbody, ?_⟩
  have hx := Number.isFinite_neg hd
  have hsign := exact_toFloat_sign hd
  rw [Number.lt_iff_exact_lt Number.isFinite_zero hx, Number.beq_iff_exact_eq hx
    Number.isFinite_zero, Number.exact_zero, Number.exact_neg hd, ne_eq, ← hspells.negative_iff]
  cases hnegative : d.negative with
  | false =>
    rw [hnegative] at hsign
    exact iff_of_true (not_lt.mpr (neg_nonpos.mpr hsign)) (.inl Bool.false_ne_true)
  | true =>
    rw [hnegative] at hsign
    have hle : 0 ≤ -Number.exact d.toFloat := hsign
    rw [not_lt, hle.ge_iff_eq']
    exact (or_iff_right (not_not_intro rfl)).symm

theorem not_pos_iff_of_wrapped_ledger : Wrapped " (€1,234.50)" ∧
    read? " (€1,234.50)" = some (-1234.5) ∧ ¬ (0.0 : Float) < -1234.5 := by
  have hwrapped : Wrapped " (€1,234.50)" := ⟨by decide +kernel, by decide +kernel⟩
  have hread : read? " (€1,234.50)" = some (-1234.5) := by decide +kernel
  obtain ⟨body, hbody, hsign⟩ := not_pos_iff_of_wrapped hwrapped hread
  refine ⟨hwrapped, hread, hsign.mpr (.inl ?_)⟩
  obtain rfl : body = "€1,234.50".toList := by
    have htrim : Text.trimChars " (€1,234.50)".toList = '(' :: ("€1,234.50".toList ++ [')']) := by
      decide +kernel
    exact List.append_cancel_right (List.cons.inj (hbody.symm.trans htrim)).2
  decide +kernel

/-- A minus between the parentheses makes the amount positive. -/
theorem wrapped_minus_pos :
    ¬ ∀ raw x, Wrapped raw → read? raw = some x → ¬ (0.0 : Float) < x := by
  intro hall
  have hread : read? "(-5)" = some 5.0 := by decide +kernel
  exact hall "(-5)" 5.0 ⟨by decide +kernel, by decide +kernel⟩ hread (by decide +kernel)

end Tabular.Amount
