import Tabular.Command.Table
import Tabular.Proofs.Number.Places

/-!
# Printed numbers

A printed number is a numeral with at most six places and no zeros at the end of them, unless a
million times the number is past the largest double: scaling it up to cut off behind six places
then gives an infinity, which is what is printed (`printed_numeral_iff`).
-/
namespace Tabular.Command

/-- A minus or none and digits, and behind a point, if there is one, one to six digits that do not
end in a zero. -/
inductive Numeral : List Char → Prop
  | whole {negative ds} : ds ≠ [] → (∀ c ∈ ds, Number.isDigit c) →
      Numeral (Number.signText negative ++ ds)
  | point {negative ds fs} : ds ≠ [] → fs ≠ [] → fs.length ≤ 6 → fs.getLast? ≠ some '0' →
      (∀ c ∈ ds ++ fs, Number.isDigit c) →
      Numeral (Number.signText negative ++ (ds ++ '.' :: fs))

theorem Numeral.inPlaces {cs : List Char} (h : Numeral cs) : Number.InPlaces cs := by
  cases h with
  | whole hne hdigits => exact .whole hne hdigits
  | point hne hfraction _ _ hdigits => exact .point hne hfraction hdigits

/-- An infinity is not a numeral. -/
theorem not_numeral_infinite (negative : Bool) :
    ¬ Numeral (if negative then "-inf" else "inf").toList := by
  intro h
  have hmem : 'n' ∈ (if negative then "-inf" else "inf").toList := by
    cases negative <;> decide
  obtain hdigit | hother := h.inPlaces.mem hmem
  · exact absurd hdigit (by decide)
  · exact absurd hother (by decide)

/-! ## Trimming -/

section
variable {c d : Char} {cs before after : List Char}

/-- Trimming stops at any other character. -/
theorem trimEnd_append_cons (h : d ≠ c) (before after : List Char) :
    trimEnd c (before ++ d :: after) = before ++ d :: trimEnd c after := by
  have hstop : (d :: before.reverse).dropWhile (· == c) = d :: before.reverse :=
    List.dropWhile_cons_of_neg (by simpa using h)
  have hreverse : (before ++ d :: after).reverse = after.reverse ++ d :: before.reverse := by simp
  rw [trimEnd, trimEnd, hreverse, List.dropWhile_append, hstop]
  split
  · rename_i hempty
    rw [List.isEmpty_iff.mp hempty]
    simp
  · simp

theorem getLast?_trimEnd (c : Char) (cs : List Char) : (trimEnd c cs).getLast? ≠ some c := by
  rw [trimEnd, List.getLast?_reverse]
  intro h
  exact absurd (Text.head_dropWhile cs.reverse c h) (by simp)

theorem trimEnd_of_getLast? (h : cs.getLast? ≠ some c) : trimEnd c cs = cs := by
  rw [trimEnd, Text.dropWhile_eq_self, List.reverse_reverse]
  intro d hd
  rw [List.head?_reverse] at hd
  refine beq_false_of_ne ?_
  rintro rfl
  exact h hd

theorem trimEnd_concat (c : Char) (cs : List Char) : trimEnd c (cs ++ [c]) = trimEnd c cs := by
  simp [trimEnd]

theorem mem_of_mem_trimEnd (h : d ∈ trimEnd c cs) : d ∈ cs :=
  List.mem_reverse.mp ((List.dropWhile_sublist _).subset (List.mem_reverse.mp h))

theorem length_trimEnd_le (c : Char) (cs : List Char) : (trimEnd c cs).length ≤ cs.length := by
  rw [trimEnd, List.length_reverse]
  exact (List.dropWhile_sublist _).length_le.trans_eq List.length_reverse

end

/-! ## Six places -/

section
variable {x : Float} {negative : Bool} {whole fraction : List Char}

theorem trimEnd_point {before ds : List Char} (hne : ds ≠ []) (hds : ∀ c ∈ ds, Number.isDigit c) :
    trimEnd '.' (before ++ ds) = before ++ ds := by
  refine trimEnd_of_getLast? ?_
  rw [List.getLast?_append_of_ne_nil _ hne]
  intro h
  exact Number.ne_of_isDigit (hds _ (List.mem_of_getLast? h)) (by decide) rfl

/-- Zeros at the end of the places are cut off, and with them the point if nothing is left. -/
theorem numeral_trimEnd (hne : whole ≠ []) (hlength : fraction.length ≤ 6)
    (hdigits : ∀ c ∈ whole ++ fraction, Number.isDigit c) :
    Numeral (trimEnd '.'
      (trimEnd '0' (Number.signText negative ++ whole ++ '.' :: fraction))) := by
  rw [trimEnd_append_cons (by decide)]
  have hlast := getLast?_trimEnd '0' fraction
  have hshort := (length_trimEnd_le '0' fraction).trans hlength
  have hwhole : ∀ c ∈ whole, Number.isDigit c := fun c hc =>
    hdigits c (List.mem_append_left fraction hc)
  have hplaces : ∀ c ∈ trimEnd '0' fraction, Number.isDigit c := fun c hc =>
    hdigits c (List.mem_append_right whole (mem_of_mem_trimEnd hc))
  generalize trimEnd '0' fraction = places at hlast hshort hplaces ⊢
  by_cases hnone : places = []
  · rw [hnone, trimEnd_concat, trimEnd_point hne hwhole]
    exact .whole hne hwhole
  · rw [List.append_cons, trimEnd_point hnone hplaces, ← List.append_cons, List.append_assoc]
    exact .point hne hnone hshort hlast fun c hc =>
      (List.mem_append.mp hc).elim (hwhole c) (hplaces c)

theorem sixPlaces_of_isFinite (hx : x.isFinite) : ∃ negative whole fraction,
    (Number.sixPlaces x).toList = Number.signText negative ++ whole ++ '.' :: fraction ∧
    whole ≠ [] ∧ fraction.length = 6 ∧ ∀ c ∈ whole ++ fraction, Number.isDigit c := by
  obtain ⟨p, hp⟩ := Number.exists_parts_of_isFinite hx
  obtain ⟨digits, hdigits⟩ : ∃ digits, digits =
      Nat.toDigits 10 (Number.roundEven (p.num * Number.tenTo 6) p.den) := ⟨_, rfl⟩
  obtain ⟨padded, hpadded⟩ : ∃ padded, padded =
      List.replicate (7 - digits.length) '0' ++ digits := ⟨_, rfl⟩
  have hlength : 7 ≤ padded.length := by
    rw [hpadded, List.length_append, List.length_replicate]
    omega
  refine ⟨p.negative, padded.take (padded.length - 6), padded.drop (padded.length - 6), ?_, ?_,
    ?_, ?_⟩
  · rw [Number.sixPlaces, hp, hpadded, hdigits]
    exact String.toList_ofList
  · refine List.ne_nil_of_length_pos ?_
    rw [List.length_take]
    omega
  · rw [List.length_drop]
    omega
  · intro c hc
    rw [List.take_append_drop, hpadded, hdigits] at hc
    obtain hc | hc := List.mem_append.mp hc
    · exact Number.isDigit_of_mem_replicate hc
    · exact Number.isDigit_of_mem_toDigits hc

end

/-! ## Scaling -/

section
variable {x : Float}

theorem exact_million : (1e6 : Float).isFinite ∧ Number.exact 1e6 = 10 ^ 6 := by
  decide +kernel

/-- A million times the number is a finite double exactly below `overflow`. -/
theorem isFinite_scaled_iff (hx : x.isFinite) :
    (x * 1e6).isFinite ↔ |Number.exact x| * 10 ^ 6 < Number.overflow := by
  obtain ⟨hmillion, hexact⟩ := exact_million
  rw [(Number.isResult_mul hx hmillion).isFinite_iff_lt, hexact, abs_mul]
  norm_num

theorem isFinite_unscaled {y : Float} (hy : y.isFinite) : (y / 1e6).isFinite := by
  obtain ⟨hmillion, hexact⟩ := exact_million
  have hresult := Number.isResult_div hy hmillion (by rw [hexact]; norm_num)
  rw [hresult.isFinite_iff_lt, hexact, abs_div]
  refine lt_of_le_of_lt ?_ (Number.abs_exact_lt hy)
  exact div_le_self (abs_nonneg _) (by norm_num)

theorem numeral_of_scaled (h : (x * 1e6).isFinite) : Numeral (numberText x).toList := by
  obtain ⟨negative, whole, fraction, htext, hne, hlength, hdigits⟩ :=
    sixPlaces_of_isFinite (isFinite_unscaled (Number.isFinite_round h))
  rw [numberText, String.toList_ofList, htext]
  exact numeral_trimEnd hne hlength.le hdigits

theorem numberText_of_infinite {negative : Bool}
    (h : x * 1e6 = Number.ofMagnitude negative Number.infinityBits) :
    numberText x = if negative then "-inf" else "inf" := by
  rw [numberText, h]
  cases negative <;> decide +kernel

/-- Dividing an infinity by a million does not bring the number back. -/
theorem numberText_of_overflow (hx : x.isFinite)
    (h : Number.overflow ≤ |Number.exact x| * 10 ^ 6) :
    numberText x = if Number.exact x < 0 then "-inf" else "inf" := by
  obtain ⟨hmillion, hexact⟩ := exact_million
  have hresult := Number.isResult_mul hx hmillion
  rw [hexact] at hresult
  have hne : Number.exact x ≠ 0 := by
    intro hzero
    rw [hzero, abs_zero, zero_mul] at h
    exact absurd h (not_le.mpr Number.overflow_pos)
  have hscaled := hresult.resolve_right fun hzero => hne (by simpa using hzero.1)
  obtain ⟨negative, r, hr, hsign⟩ := Number.exists_withSign hne
  have hnegative : Number.exact x < 0 ↔ negative = true := by
    rw [hsign]
    cases negative with
    | false => exact iff_of_false (not_lt.mpr hr.le) Bool.false_ne_true
    | true => exact iff_of_true (neg_neg_of_pos hr) rfl
  rw [hsign, Number.abs_withSign, abs_of_pos hr] at h
  have hproduct : Number.exact x * 10 ^ 6 = Number.withSign negative (r * 10 ^ 6) := by
    rw [hsign]
    cases negative with
    | false => rfl
    | true => exact neg_mul r _
  rw [hproduct, Number.nearestTo_of_overflow h] at hscaled
  rw [numberText_of_infinite hscaled]
  exact if_congr hnegative.symm rfl rfl

end

/-- A finite number is printed as a numeral, in tables and in results, exactly if a million times
the number is not rounded to an infinity; else that infinity is printed. -/
theorem printed_numeral_iff {x : Float} (hx : x.isFinite) {text : String}
    (htext : text ∈ [numberText x, cellText (.number x), resultText (some x)]) :
    (Numeral text.toList ↔ |Number.exact x| * 10 ^ 6 < Number.overflow) ∧
    (Number.overflow ≤ |Number.exact x| * 10 ^ 6 →
      text = if Number.exact x < 0 then "-inf" else "inf") := by
  obtain rfl : text = numberText x := by
    obtain rfl | rfl | rfl : text = _ ∨ text = _ ∨ text = _ := by simpa using htext
    all_goals rfl
  have hoverflow := numberText_of_overflow hx
  refine ⟨⟨fun hnumeral => ?_, fun h => numeral_of_scaled ((isFinite_scaled_iff hx).mpr h)⟩,
    hoverflow⟩
  by_contra h
  rw [hoverflow (not_lt.mp h)] at hnumeral
  exact not_numeral_infinite (decide (Number.exact x < 0)) (by simpa using hnumeral)

/-- Between `1e302` and `1e303` the numbers grow too large to be printed. -/
theorem printed_numeral_iff_large : (1e302 : Float).isFinite ∧ (-1e303 : Float).isFinite ∧
    Numeral (cellText (.number 1e302)).toList ∧ resultText (some (-1e303)) = "-inf" := by
  have hsmall : (1e302 : Float).isFinite := by decide +kernel
  have hlarge : (-1e303 : Float).isFinite := by decide +kernel
  have hcell : cellText (.number 1e302) ∈
      [numberText 1e302, cellText (.number 1e302), resultText (some 1e302)] := by simp
  have hresult : resultText (some (-1e303)) ∈
      [numberText (-1e303), cellText (.number (-1e303)), resultText (some (-1e303))] := by simp
  refine ⟨hsmall, hlarge, (printed_numeral_iff hsmall hcell).1.mpr (by decide +kernel), ?_⟩
  have htext := (printed_numeral_iff hlarge hresult).2 (by decide +kernel)
  rwa [if_pos (by decide +kernel)] at htext

/-- So a finite number is printed as an infinity. -/
theorem numberText_of_huge : (1e303 : Float).isFinite ∧ numberText 1e303 = "inf" ∧
    ¬ Numeral (numberText 1e303).toList := by
  have htext : numberText 1e303 = "inf" := by decide +kernel
  refine ⟨by decide +kernel, htext, ?_⟩
  rw [htext]
  exact not_numeral_infinite false

end Tabular.Command
