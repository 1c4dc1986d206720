import Tabular.Document.Json
import Tabular.Proofs.Number.Nearest
import Tabular.Proofs.Number.ReadBack

/-!
# Numbers in JSON text

What is written for a whole number of 64 bits is read as that number again (`readsAs_int`). What
is written for a double is read as one value, whatever stands behind it, where nothing carries the
number on (`readsAs_scalar`): so a double is read back inside a document if it is read back alone.
-/
namespace Tabular

open Number

namespace Json

/-! ## Parts of a number -/

/-- Nothing carries a number on: no digit, no point and no letter of an exponent. -/
def EndsNumber (rest : List Char) : Prop :=
  ∀ c ∈ rest.head?, isDigit c = false ∧ c ≠ '.' ∧ c ≠ 'e' ∧ c ≠ 'E'

theorem readFraction?_digits {fraction rest : List Char} (hf : ∀ c ∈ fraction, isDigit c)
    (hend : ∀ c ∈ rest.head?, isDigit c = false ∧ c ≠ '.') :
    readFraction? ((if fraction.isEmpty then [] else '.' :: fraction) ++ rest) =
      some (fraction, rest) := by
  cases fraction with
  | nil =>
    change readFraction? rest = some ([], rest)
    unfold readFraction?
    split
    · exact absurd rfl (hend '.' rfl).2
    · rfl
  | cons c cs =>
    have htake := Text.takeWhile_run hf fun d hd => (hend d hd).1
    simp only [List.cons_append] at htake
    simp [readFraction?, htake]

theorem readExponent?_none {rest : List Char} (hend : ∀ c ∈ rest.head?, c ≠ 'e' ∧ c ≠ 'E') :
    readExponent? rest = some (none, rest) := by
  cases rest with
  | nil => rfl
  | cons c cs =>
    obtain ⟨he, hE⟩ := hend c rfl
    simp [readExponent?, he, hE]

theorem digitsValue_toDigits (n : Nat) : digitsValue (Nat.toDigits 10 n) = n := by
  rw [digitsValue_eq, Nat.ofDigitChars_ten_toDigits]

theorem toDigits_isEmpty (n : Nat) : (Nat.toDigits 10 n).isEmpty = false := by
  rw [List.isEmpty_eq_false_iff]
  exact List.length_pos_iff.mp Nat.length_toDigits_pos

theorem readExponent?_power (power : Int) {rest : List Char}
    (hend : ∀ c ∈ rest.head?, isDigit c = false) :
    readExponent? ('e' :: (if power < 0 then '-' else '+') ::
      (Nat.toDigits 10 power.natAbs ++ rest)) = some (some power, rest) := by
  obtain ⟨size, hsize⟩ : ∃ size, power.natAbs = size := ⟨_, rfl⟩
  rw [hsize]
  have htake := @Text.takeWhile_run isDigit (Nat.toDigits 10 size) rest
    (fun c hc => isDigit_of_mem_toDigits hc) hend
  by_cases hneg : power < 0
  · have hpower : -(size : Int) = power := by omega
    simp [readExponent?, readSign, hneg, htake, toDigits_isEmpty, digitsValue_toDigits, hpower]
  · have hpower : (size : Int) = power := by omega
    simp [readExponent?, readSign, hneg, htake, toDigits_isEmpty, digitsValue_toDigits, hpower]

/-- A number is read by its parts: a sign, digits without a leading zero, a fraction if there
is one, and what is read of the exponent. -/
theorem readNumber?_parts {negative : Bool} {whole fraction tail rest : List Char}
    {exponent? : Option Int} (hne : whole ≠ []) (hw : ∀ c ∈ whole, isDigit c)
    (hlead : whole.head? = some '0' → whole.length = 1) (hf : ∀ c ∈ fraction, isDigit c)
    (htail : ∀ c ∈ tail.head?, isDigit c = false ∧ c ≠ '.')
    (hexponent : readExponent? tail = some (exponent?, rest)) :
    readNumber? (signText negative ++
        (whole ++ ((if fraction.isEmpty then [] else '.' :: fraction) ++ tail))) =
      some (if fraction.isEmpty && exponent?.isNone then wholeNumber negative whole
        else doubleOf negative whole fraction (exponent?.getD 0), rest) := by
  obtain ⟨after, hafter⟩ :
      ∃ after, after = (if fraction.isEmpty then [] else '.' :: fraction) ++ tail := ⟨_, rfl⟩
  have hfraction := readFraction?_digits hf htail
  rw [← hafter] at hfraction ⊢
  have hstop : ∀ c ∈ after.head?, isDigit c = false := by
    rw [hafter]
    split
    · exact fun c hc => (htail c hc).1
    · intro c hc
      obtain rfl := Option.some.inj hc
      decide
  have htake := Text.takeWhile_run hw hstop
  have hstrict :
      (whole.isEmpty || whole.head? == some '0' && decide (1 < whole.length)) = false := by
    by_cases hzero : whole.head? = some '0'
    · simp [hne, hlead hzero]
    · simp [hne, hzero]
  unfold readNumber?
  split
  rename_i sign cs hread
  have hsign : (negative, whole ++ after) = (sign, cs) := by
    cases negative with
    | true => exact hread
    | false =>
      obtain ⟨c, others, rfl⟩ := List.exists_cons_of_ne_nil hne
      have hminus : c ≠ '-' := by
        rintro rfl
        exact absurd (hw '-' List.mem_cons_self) (by decide)
      simp only [signText, Bool.false_eq_true, if_false, List.nil_append, List.cons_append] at hread
      split at hread
      · rename_i heq
        exact absurd (List.cons.inj heq).1 hminus
      · exact hread
  obtain ⟨rfl, rfl⟩ := Prod.mk.inj hsign
  simp only [htake, hstrict, List.drop_left, hfraction, Bool.false_eq_true, if_false,
    Option.bind_eq_bind, Option.bind_some, hexponent]
  split <;> rfl

/-! ## Whole numbers -/

theorem head_toDigits {n : Nat} (hn : n ≠ 0) : (Nat.toDigits 10 n).head? ≠ some '0' := by
  induction n using Nat.strongRecOn with
  | ind n ih =>
    by_cases hlt : n < 10
    · rw [Nat.toDigits_of_lt_base hlt]
      have hdigit : ∀ m < 10, m ≠ 0 → m.digitChar ≠ '0' := by decide
      simpa using hdigit n hlt hn
    · rw [Nat.toDigits_of_base_le (by decide) (Nat.le_of_not_lt hlt)]
      have hfront := ih (n / 10) (by omega) (by omega)
      cases hds : Nat.toDigits 10 (n / 10) with
      | nil => exact absurd hds (List.length_pos_iff.mp Nat.length_toDigits_pos)
      | cons c cs =>
        rw [hds] at hfront
        exact hfront

theorem toDigits_lead (n : Nat) (h : (Nat.toDigits 10 n).head? = some '0') :
    (Nat.toDigits 10 n).length = 1 := by
  rcases eq_or_ne n 0 with rfl | hn
  · rfl
  · exact absurd h (head_toDigits hn)

/-- A text is read as a value, where nothing behind it carries the number on. -/
def ReadsAs (text : List Char) (value : Document) : Prop :=
  ∀ rest, EndsNumber rest → readNumber? (text ++ rest) = some (value, rest)

/-- A whole number of 64 bits is read back. -/
theorem readsAs_int {i : Int} (hlow : -2 ^ 63 ≤ i) (hhigh : i < 2 ^ 64) :
    ReadsAs (toString i).toList (.int i) := by
  intro rest hend
  have hread := @readNumber?_parts (i < 0) (Nat.toDigits 10 i.natAbs) [] rest rest none
    (List.length_pos_iff.mp Nat.length_toDigits_pos) (fun c hc => isDigit_of_mem_toDigits hc)
    (toDigits_lead _) (by simp) (fun c hc => ⟨(hend c hc).1, (hend c hc).2.1⟩)
    (readExponent?_none fun c hc => (hend c hc).2.2)
  rw [toList_toString_int, List.append_assoc]
  have hwhole : wholeNumber (i < 0) (Nat.toDigits 10 i.natAbs) = .int i := by
    have h63 : twoTo 63 = 2 ^ 63 := rfl
    have h64 : twoTo 64 = 2 ^ 64 := rfl
    obtain ⟨n, hn⟩ : ∃ n, i.natAbs = n := ⟨_, rfl⟩
    simp only [wholeNumber, digitsValue_toDigits, hn]
    by_cases hneg : i < 0
    · have hvalue : -(n : Int) = i := by omega
      have hfits : 0 < n ∧ n ≤ twoTo 63 := by omega
      simp [hneg, hfits, hvalue]
    · have hvalue : (n : Int) = i := by omega
      have hfits : n < twoTo 64 := by omega
      simp [hneg, hfits, hvalue]
  simpa [hwhole] using hread

/-! ## Doubles -/

/-- The digits before the point have no leading zero but the only one. -/
theorem positional_lead {n : Nat} (hn : n ≠ 0) {e : Int} {whole fraction : List Char}
    (h : positional (Nat.toDigits 10 n) e = (whole, fraction)) (hzero : whole.head? = some '0') :
    whole.length = 1 := by
  unfold positional at h
  split at h
  · cases h
    rfl
  · obtain ⟨rfl, -⟩ := Prod.mk.inj h
    have hhead := head_toDigits hn
    obtain ⟨c, cs, hds⟩ := List.exists_cons_of_ne_nil
      (List.length_pos_iff.mp (Nat.length_toDigits_pos (b := 10) (n := n)))
    obtain ⟨k, hk⟩ : ∃ k, e.toNat = k + 1 := ⟨e.toNat - 1, by omega⟩
    rw [hds] at hhead hzero
    simp only [hk, List.take_succ_cons, List.cons_append, List.head?_cons] at hzero
    exact absurd hzero hhead

theorem readsAs_fraction {negative : Bool} {whole fraction : List Char} (hne : whole ≠ [])
    (hw : ∀ c ∈ whole, isDigit c) (hlead : whole.head? = some '0' → whole.length = 1)
    (hf : ∀ c ∈ fraction, isDigit c) (hfraction : fraction ≠ []) :
    ReadsAs (signText negative ++ (whole ++ '.' :: fraction))
      (doubleOf negative whole fraction 0) := by
  intro rest hend
  have hread := @readNumber?_parts negative whole fraction rest rest none hne hw hlead hf
    (fun c hc => ⟨(hend c hc).1, (hend c hc).2.1⟩)
    (readExponent?_none fun c hc => (hend c hc).2.2)
  simpa [hfraction] using hread

section
variable {negative : Bool} {n : Nat} {e : Int}

theorem readsAs_zero : ∃ value, ReadsAs (Decimal.mk negative 0 e).exchange.toList value := by
  refine ⟨doubleOf negative ['0'] ['0'] 0, ?_⟩
  have hread := @readsAs_fraction negative ['0'] ['0'] (by simp)
    (fun c hc => isDigit_of_mem_zero hc) (by simp) (fun c hc => isDigit_of_mem_zero hc) (by simp)
  simpa [Decimal.exchange, Decimal.places] using hread

theorem readsAs_places (hn : n ≠ 0)
    (hplaces : -4 ≤ (Nat.toDigits 10 n).length + e ∧ (Nat.toDigits 10 n).length + e ≤ 16) :
    ∃ value, ReadsAs (Decimal.mk negative n e).exchange.toList value := by
  obtain ⟨⟨whole, fraction⟩, hpos⟩ :
      ∃ p, positional (Nat.toDigits 10 n) ((Nat.toDigits 10 n).length + e) = p := ⟨_, rfl⟩
  obtain ⟨hne, hw, hf, -, -⟩ := positional_spec n e hpos
  have hlead := positional_lead hn hpos
  cases fraction with
  -- A whole number gets a fraction of one zero.
  | nil =>
    have hread := @readsAs_fraction negative whole ['0'] hne hw hlead
      (fun c hc => isDigit_of_mem_zero hc) (by simp)
    exact ⟨_, by simpa [Decimal.exchange, Decimal.places, hn, hplaces, hpos] using hread⟩
  | cons c cs =>
    have hread := @readsAs_fraction negative whole (c :: cs) hne hw hlead hf (by simp)
    exact ⟨_, by simpa [Decimal.exchange, Decimal.places, hn, hplaces, hpos] using hread⟩

theorem readsAs_scientific (hn : n ≠ 0)
    (hplaces : ¬(-4 ≤ (Nat.toDigits 10 n).length + e ∧ (Nat.toDigits 10 n).length + e ≤ 16)) :
    ∃ value, ReadsAs (Decimal.mk negative n e).exchange.toList value := by
  have hdigits : ∀ c ∈ Nat.toDigits 10 n, isDigit c := fun c hc => isDigit_of_mem_toDigits hc
  obtain ⟨c, cs, hds⟩ := List.exists_cons_of_ne_nil
    (List.length_pos_iff.mp (@Nat.length_toDigits_pos 10 n))
  obtain ⟨power, hpower⟩ : ∃ power, power = ((Nat.toDigits 10 n).length : Int) + e - 1 := ⟨_, rfl⟩
  have hexchange : (Decimal.mk negative n e).exchange.toList = signText negative ++
      ([c] ++ ((if cs.isEmpty then [] else '.' :: cs) ++
        'e' :: (if power < 0 then '-' else '+') :: Nat.toDigits 10 power.natAbs)) := by
    simp only [Decimal.exchange, Decimal.places, hn, hplaces, if_false, ← hpower,
      String.toList_ofList]
    simp [hds]
  refine ⟨doubleOf negative [c] cs power, fun rest hend => ?_⟩
  have hread := @readNumber?_parts negative [c] cs
    ('e' :: (if power < 0 then '-' else '+') :: (Nat.toDigits 10 power.natAbs ++ rest)) rest
    (some power) (by simp) (by simpa [hds] using hdigits c (by simp [hds]))
    (by simp) (fun d hd => hdigits d (by simp [hds, hd]))
    (fun d hd => by obtain rfl := Option.some.inj hd; decide)
    (readExponent?_power power fun d hd => (hend d hd).1)
  rw [hexchange]
  simpa using hread

end

/-- What is written for a decimal is read as one value. -/
theorem readsAs_exchange (d : Decimal) : ∃ value, ReadsAs d.exchange.toList value := by
  obtain ⟨negative, n, e⟩ := d
  by_cases hn : n = 0
  · subst hn
    exact readsAs_zero
  by_cases hplaces : -4 ≤ (Nat.toDigits 10 n).length + e ∧ (Nat.toDigits 10 n).length + e ≤ 16
  · exact readsAs_places hn hplaces
  · exact readsAs_scientific hn hplaces

/-- What is written for a finite double is read as one value. -/
theorem readsAs_scalar {x : Float} (hx : x.isFinite) :
    ∃ value, ReadsAs (scalar (.float x)).toList value := by
  obtain ⟨p, hp⟩ := exists_parts_of_isFinite hx
  obtain ⟨d, hd⟩ : ∃ d, shortest? .even x = some d := by
    rw [shortest?, hp]
    exact ⟨_, rfl⟩
  have hscalar : scalar (.float x) = d.exchange := by
    rw [scalar, exchange?, hd]
    rfl
  rw [hscalar]
  exact readsAs_exchange d

end Json
end Tabular
