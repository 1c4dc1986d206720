import Tabular.Proofs.Document.Codec
import Tabular.Proofs.Document.Numbers

/-!
# JSON text read back

A document without malformed parts, as JSON may hold it, is read back from its compact text if its
doubles are (`read_compact`). What is read of any text is a document that JSON may hold, malformed
parts included (`isJson_read`).
-/
namespace Tabular

namespace Json

/-! ## What is read -/

theorem isJson_doubleOf (negative : Bool) (whole fraction : List Char) (exponent : Int) :
    (doubleOf negative whole fraction exponent).IsJson := by
  simp only [doubleOf]
  split
  · split
    · rename_i x _ hx
      refine .float ?_
      cases negative with
      | false => exact hx
      | true => exact Number.isFinite_neg hx
    · exact .invalid
  · exact .invalid

theorem isJson_wholeNumber (negative : Bool) (digits : List Char) :
    (wholeNumber negative digits).IsJson := by
  have h63 : Number.twoTo 63 = 2 ^ 63 := rfl
  have h64 : Number.twoTo 64 = 2 ^ 64 := rfl
  unfold wholeNumber
  dsimp only
  split
  · rename_i h
    simp only [Bool.and_eq_true, decide_eq_true_eq] at h
    exact .int (by omega) (by omega)
  split
  · rename_i h
    simp only [Bool.and_eq_true, decide_eq_true_eq] at h
    exact .int (by omega) (by omega)
  · exact isJson_doubleOf _ _ _ _

theorem isJson_readNumber? {cs rest : List Char} {d : Document}
    (h : readNumber? cs = some (d, rest)) : d.IsJson := by
  unfold readNumber? at h
  split at h
  dsimp only at h
  split at h
  · cases h
  obtain ⟨⟨fraction, tail⟩, -, h⟩ := Option.bind_eq_some_iff.mp h
  obtain ⟨⟨exponent?, tail⟩, -, h⟩ := Option.bind_eq_some_iff.mp h
  dsimp only at h
  split at h
  · cases h
    exact isJson_wholeNumber _ _
  · cases h
    exact isJson_doubleOf _ _ _ _

theorem isJson_readWord? {word : String} {value d : Document} {cs rest : List Char}
    (hv : value.IsJson) (h : readWord? word value cs = some (d, rest)) : d.IsJson := by
  unfold readWord? at h
  split at h
  · cases h
    exact hv
  · cases h

theorem isJson_readScalar? {fuel : Nat} {cs rest : List Char} {d : Document}
    (h : readScalar? fuel cs = some (d, rest)) : d.IsJson := by
  unfold readScalar? at h
  split at h
  · obtain ⟨⟨s?, tail⟩, -, h⟩ := Option.map_eq_some_iff.mp h
    cases s? with
    | none =>
      cases h
      exact .invalid
    | some s =>
      cases h
      exact .text s
  · exact isJson_readWord? .null h
  · exact isJson_readWord? (.bool true) h
  · exact isJson_readWord? (.bool false) h
  · exact isJson_readNumber? h

/-- With so much fuel, whatever is read is what JSON may hold. -/
structure ReadsJson (fuel : Nat) : Prop where
  value : ∀ cs, (readValue fuel cs).1.IsJson
  items : ∀ cs, ∀ item ∈ (readItems fuel cs).1, item.IsJson
  fields : ∀ cs, ∀ field ∈ (readFields fuel cs).1, field.2.IsJson

namespace ReadsJson
variable {fuel : Nat}

theorem value_succ (h : ReadsJson fuel) (cs : List Char) :
    (readValue (fuel + 1) cs).1.IsJson := by
  unfold readValue
  split
  · split
    · exact .list (List.forall_mem_nil _)
    · exact .list (h.items _)
  · split
    · exact .record (List.forall_mem_nil _)
    · exact .record (h.fields _)
  · split
    · rename_i hread
      exact isJson_readScalar? hread
    · exact .cut

theorem items_succ (h : ReadsJson fuel) (cs : List Char) :
    ∀ item ∈ (readItems (fuel + 1) cs).1, item.IsJson := by
  have hread := h.value cs
  unfold readItems
  split
  · rename_i item heq
    rw [heq] at hread
    exact List.forall_mem_singleton.mpr hread
  · rename_i item rest heq
    rw [heq] at hread
    split
    · exact List.forall_mem_singleton.mpr hread
    · exact List.forall_mem_cons.mpr ⟨hread, h.items _⟩
    · exact List.forall_mem_cons.mpr ⟨hread, List.forall_mem_singleton.mpr .cut⟩

theorem fields_succ (h : ReadsJson fuel) (cs : List Char) :
    ∀ field ∈ (readFields (fuel + 1) cs).1, field.2.IsJson := by
  have hcut : ∀ name : String, ∀ field ∈ [(name, Document.cut)], field.2.IsJson :=
    fun name => List.forall_mem_singleton.mpr .cut
  unfold readFields
  split
  · split
    · exact hcut ""
    · exact hcut ""
    · rename_i name rest heq
      split
      · rename_i after hafter
        have hread := h.value after
        split
        · rename_i value heq
          rw [heq] at hread
          exact List.forall_mem_singleton.mpr hread
        · rename_i value tail heq
          rw [heq] at hread
          split
          · exact List.forall_mem_singleton.mpr hread
          · exact List.forall_mem_cons.mpr ⟨hread, h.fields _⟩
          · exact List.forall_mem_cons.mpr ⟨hread, hcut ""⟩
      · exact hcut name
  · exact hcut ""

end ReadsJson

theorem readsJson (fuel : Nat) : ReadsJson fuel := by
  induction fuel with
  | zero =>
    exact ⟨fun cs => .cut, fun cs => List.forall_mem_singleton.mpr .cut,
      fun cs => List.forall_mem_singleton.mpr .cut⟩
  | succ fuel ih => exact ⟨ih.value_succ, ih.items_succ, ih.fields_succ⟩

/-- Whatever a text holds is what JSON may hold. -/
theorem isJson_read (text : String) : (read text).IsJson := by
  have hread := (readsJson (2 * text.toList.length + 1)).value text.toList
  unfold read readHead
  split
  · rename_i document rest heq
    rw [heq] at hread
    split
    · exact hread
    · exact .cut
  · rename_i document heq
    rw [heq] at hread
    exact hread

/-! ## Quoted texts -/

theorem hexDigit?_hexChar : ∀ n < 16, hexDigit? (hexChar n) = some n := by decide

/-- A control character is read back from its number. -/
theorem readCodePoint?_control {c : Char} (hc : c.toNat < 32) (rest : List Char) :
    readCodePoint? ('0' :: '0' :: hexChar (c.toNat / 16) :: hexChar (c.toNat % 16) :: rest) =
      some (some c, rest) := by
  have hzero : hexDigit? '0' = some 0 := by decide
  have hhigh := hexDigit?_hexChar (c.toNat / 16) (by omega)
  have hlow := hexDigit?_hexChar (c.toNat % 16) (by omega)
  have hunit : 16 * (c.toNat / 16) + c.toNat % 16 = c.toNat := Nat.div_add_mod _ _
  have hsurrogate : ¬ 0xdc00 ≤ c.toNat ∧ ¬ 0xd800 ≤ c.toNat := by omega
  simp [readCodePoint?, readHex?, hzero, hhigh, hlow, hunit, hsurrogate]

theorem readChars?_cons {c : Char} (hquote : c ≠ '\x22') (hescape : c ≠ '\\')
    (hc : 32 ≤ c.toNat) {fuel : Nat} {tail rest : List Char} {cs : List (Option Char)}
    (h : readChars? fuel tail = some (cs, rest)) :
    readChars? (fuel + 1) (c :: tail) = some (some c :: cs, rest) := by
  have hplain : ¬ (c = '\\' ∨ c.toNat < 32) := by
    rintro (hb | hb)
    · exact hescape hb
    · omega
  rw [readChars?.eq_def]
  split
  · rename_i heq
    exact absurd (List.cons.inj heq).1 hquote
  · rename_i heq
    exact absurd (List.cons.inj heq).1 hescape
  · rename_i heq
    exact absurd (List.cons.inj heq).1 hescape
  · rename_i hfuel heq
    obtain ⟨rfl, rfl⟩ := List.cons.inj heq
    obtain rfl := Nat.succ.inj hfuel
    simp [hplain, h]
  · rename_i hnone
    exact absurd rfl (hnone _ _ _ rfl)

theorem readChars?_escaped {e c : Char} (he : escape? e = some c) {fuel : Nat}
    {tail rest : List Char} {cs : List (Option Char)}
    (h : readChars? fuel tail = some (cs, rest)) :
    readChars? (fuel + 1) ('\\' :: e :: tail) = some (some c :: cs, rest) := by
  have hunicode : e ≠ 'u' := by
    rintro rfl
    cases he
  simp [readChars?, he, h]

/-- These characters are written as a backslash and a letter that stands for them. -/
theorem quoteChar_escaped {c : Char}
    (h : c ∈ ['\x22', '\\', '\x08', '\t', '\n', '\x0c', '\r']) :
    ∃ e, escape? e = some c ∧ quoteChar c = ['\\', e] := by
  simp only [List.mem_cons, List.not_mem_nil, or_false] at h
  rcases h with rfl | rfl | rfl | rfl | rfl | rfl | rfl
  · exact ⟨'\x22', rfl, rfl⟩
  · exact ⟨'\\', rfl, rfl⟩
  · exact ⟨'b', rfl, rfl⟩
  · exact ⟨'t', rfl, rfl⟩
  · exact ⟨'n', rfl, rfl⟩
  · exact ⟨'f', rfl, rfl⟩
  · exact ⟨'r', rfl, rfl⟩

/-- A character is read back from what is written for it. -/
theorem readChars?_quoteChar (c : Char) {fuel : Nat} {tail rest : List Char}
    {cs : List (Option Char)} (h : readChars? fuel tail = some (cs, rest)) :
    readChars? (fuel + 1) (quoteChar c ++ tail) = some (some c :: cs, rest) := by
  by_cases hshort : c ∈ ['\x22', '\\', '\x08', '\t', '\n', '\x0c', '\r']
  · obtain ⟨e, he, hquote⟩ := quoteChar_escaped hshort
    rw [hquote]
    exact readChars?_escaped he h
  simp only [List.mem_cons, List.not_mem_nil, or_false, not_or] at hshort
  by_cases hc : c.toNat < 32
  · simp [quoteChar, hshort, hc, readChars?, readCodePoint?_control hc, h]
  · have hself : quoteChar c = [c] := by simp [quoteChar, hshort, hc]
    rw [hself]
    exact readChars?_cons hshort.1 hshort.2.1 (Nat.le_of_not_lt hc) h

theorem readChars?_quoted {cs : List Char} {fuel : Nat} (hfuel : cs.length ≤ fuel)
    (rest : List Char) :
    readChars? fuel (cs.flatMap quoteChar ++ '\x22' :: rest) = some (cs.map some, rest) := by
  induction cs generalizing fuel with
  | nil => cases fuel <;> simp [readChars?]
  | cons c cs ih =>
    obtain ⟨fuel, rfl⟩ := Nat.exists_eq_add_one_of_ne_zero (Nat.ne_of_gt (Nat.lt_of_lt_of_le
      (Nat.zero_lt_succ cs.length) hfuel))
    rw [List.flatMap_cons, List.append_assoc]
    exact readChars?_quoteChar c (ih (Nat.le_of_succ_le_succ hfuel))

theorem quoteChar_ne_nil (c : Char) : quoteChar c ≠ [] := by
  unfold quoteChar
  split_ifs <;> simp

theorem length_le_flatMap_quoteChar (cs : List Char) :
    cs.length ≤ (cs.flatMap quoteChar).length := by
  induction cs with
  | nil => exact Nat.le_refl _
  | cons c cs ih =>
    have hpos := List.length_pos_iff.mpr (quoteChar_ne_nil c)
    rw [List.flatMap_cons, List.length_append, List.length_cons]
    omega

theorem toList_quote (s : String) :
    (quote s).toList = '\x22' :: (s.toList.flatMap quoteChar ++ ['\x22']) := by
  simp [quote]

/-- A text is read back from between its quotes. -/
theorem readText?_quoted (s : String) {fuel : Nat} (hfuel : (quote s).toList.length ≤ fuel)
    (rest : List Char) :
    readText? fuel (s.toList.flatMap quoteChar ++ '\x22' :: rest) = some (some s, rest) := by
  have hlength := length_le_flatMap_quoteChar s.toList
  have hread := @readChars?_quoted s.toList fuel (by
    rw [toList_quote, List.length_cons, List.length_append] at hfuel
    omega) rest
  have hall : ∀ cs : List Char, (cs.map some).mapM id = some cs := by
    intro cs
    induction cs with
    | nil => rfl
    | cons c cs ih => simp [ih]
  simp [readText?, hread, hall, String.ofList_toList]

/-! ## Scalars -/

theorem head_of_readNumber? {cs : List Char} {r : Document × List Char}
    (h : readNumber? cs = some r) :
    ∃ c tail, cs = c :: tail ∧ (c = '-' ∨ Number.isDigit c) := by
  cases cs with
  | nil => cases h
  | cons c tail =>
    refine ⟨c, tail, rfl, ?_⟩
    by_contra hc
    obtain ⟨hminus, hdigit⟩ := not_or.mp hc
    unfold readNumber? at h
    split at h
    rename_i hsign
    split at hsign
    · rename_i heq
      exact absurd (List.cons.inj heq).1 hminus
    obtain ⟨rfl, rfl⟩ := Prod.mk.inj hsign
    simp [hdigit] at h

theorem head_of_readScalar? {fuel : Nat} {cs : List Char} {r : Document × List Char}
    (h : readScalar? fuel cs = some r) :
    ∃ c tail, cs = c :: tail ∧ isSpace c = false ∧ c ≠ '[' ∧ c ≠ ']' ∧ c ≠ '\x7b' := by
  unfold readScalar? at h
  split at h
  · exact ⟨_, _, rfl, by decide, by decide, by decide, by decide⟩
  · exact ⟨_, _, rfl, by decide, by decide, by decide, by decide⟩
  · exact ⟨_, _, rfl, by decide, by decide, by decide, by decide⟩
  · exact ⟨_, _, rfl, by decide, by decide, by decide, by decide⟩
  · obtain ⟨c, tail, rfl, rfl | hc⟩ := head_of_readNumber? h
    · exact ⟨_, _, rfl, by decide, by decide, by decide, by decide⟩
    · have hne : ∀ d, Number.isDigit d = false → c ≠ d := fun d hd => Number.ne_of_isDigit hc hd
      refine ⟨c, tail, rfl, ?_, hne _ (by decide), hne _ (by decide), hne _ (by decide)⟩
      simp [isSpace, hne ' ' (by decide), hne '\n' (by decide), hne '\t' (by decide),
        hne '\r' (by decide)]

theorem readScalar?_number {fuel : Nat} {cs : List Char} {r : Document × List Char}
    (h : readNumber? cs = some r) : readScalar? fuel cs = some r := by
  obtain ⟨c, tail, rfl, hc⟩ := head_of_readNumber? h
  have hne : ∀ d, d ≠ '-' → Number.isDigit d = false → c ≠ d := by
    intro d hminus hdigit
    rcases hc with rfl | hc
    · exact hminus.symm
    · exact Number.ne_of_isDigit hc hdigit
  unfold readScalar?
  split
  · exact absurd (List.cons.inj (by assumption)).1 (hne _ (by decide) (by decide))
  · exact absurd (List.cons.inj (by assumption)).1 (hne _ (by decide) (by decide))
  · exact absurd (List.cons.inj (by assumption)).1 (hne _ (by decide) (by decide))
  · exact absurd (List.cons.inj (by assumption)).1 (hne _ (by decide) (by decide))
  · exact h

/-! ## Documents read back -/

theorem skipSpace_cons {c : Char} (h : isSpace c = false) (cs : List Char) :
    skipSpace (c :: cs) = c :: cs := by
  simp [skipSpace, h]

theorem endsNumber_cons {c : Char} (h : Number.isDigit c = false ∧ c ≠ '.' ∧ c ≠ 'e' ∧ c ≠ 'E')
    (cs : List Char) : EndsNumber (c :: cs) := by
  intro d hd
  obtain rfl := Option.some.inj hd
  exact h

theorem readValue_scalar {fuel : Nat} {cs rest : List Char} {d : Document}
    (h : readScalar? fuel cs = some (d, rest)) : readValue (fuel + 1) cs = (d, some rest) := by
  obtain ⟨c, tail, rfl, hspace, hopen, -, hbrace⟩ := head_of_readScalar? h
  rw [readValue, skipSpace_cons hspace]
  split
  · rename_i heq
    exact absurd (List.cons.inj heq).1 hopen
  · rename_i heq
    exact absurd (List.cons.inj heq).1 hbrace
  · rw [h]

/-- A text that is a number and nothing else holds it. -/
theorem read_number {text : String} {d : Document} (h : readNumber? text.toList = some (d, [])) :
    read text = d := by
  unfold read readHead
  rw [readValue_scalar (readScalar?_number h)]
  rfl

/-- A document is read back from its compact text, with fuel for each character, if nothing
behind the text carries a number on. -/
structure ReadsBack (d : Document) : Prop where
  begins : ∃ c tail, (compact d).toList = c :: tail ∧ isSpace c = false ∧ c ≠ ']'
  reads : ∀ {fuel rest}, 2 * (compact d).toList.length ≤ fuel → EndsNumber rest →
    readValue fuel ((compact d).toList ++ rest) = (d, some rest)

theorem endsNumber_nil : EndsNumber [] := fun c hc => by cases hc

theorem readsBack_of_scalar {d : Document} (hcompact : compact d = scalar d)
    (h : ∀ {fuel rest}, (scalar d).toList.length ≤ fuel → EndsNumber rest →
      readScalar? fuel ((scalar d).toList ++ rest) = some (d, rest)) : ReadsBack d := by
  obtain ⟨c, tail, htext, hspace, -, hclose, -⟩ :=
    head_of_readScalar? (h (Nat.le_refl _) endsNumber_nil)
  rw [List.append_nil] at htext
  rw [← hcompact] at htext h
  refine ⟨⟨c, tail, htext, hspace, hclose⟩, fun {fuel rest} hfuel hend => ?_⟩
  obtain ⟨fuel, rfl⟩ : ∃ k, fuel = k + 1 := by
    rw [htext, List.length_cons] at hfuel
    exact ⟨fuel - 1, by omega⟩
  exact readValue_scalar (@h fuel rest (by omega) hend)

theorem readsBack_text (s : String) : ReadsBack (.text s) := by
  refine readsBack_of_scalar rfl fun {fuel rest} hfuel _ => ?_
  have hread := readText?_quoted s hfuel rest
  simp only [scalar, toList_quote, List.cons_append, List.append_assoc, List.nil_append,
    readScalar?, hread, Option.map_some]

theorem readsBack_int {i : Int} (hlow : -2 ^ 63 ≤ i) (hhigh : i < 2 ^ 64) :
    ReadsBack (.int i) :=
  readsBack_of_scalar rfl fun _ hend => readScalar?_number (readsAs_int hlow hhigh _ hend)

/-- A double that is read back alone is read back wherever it stands. -/
theorem readsBack_float {x : Float} (hx : x.isFinite)
    (hkept : read (compact (.float x)) = .float x) : ReadsBack (.float x) := by
  obtain ⟨value, hvalue⟩ := readsAs_scalar hx
  have halone := hvalue [] endsNumber_nil
  rw [List.append_nil] at halone
  obtain rfl : value = .float x := (read_number halone).symm.trans hkept
  exact readsBack_of_scalar rfl fun _ hend => readScalar?_number (hvalue _ hend)

theorem readsBack_word {d : Document} {word : String} (hcompact : compact d = scalar d)
    (hword : scalar d = word)
    (h : ∀ fuel rest, readScalar? fuel (word.toList ++ rest) =
      readWord? word d (word.toList ++ rest)) : ReadsBack d := by
  refine readsBack_of_scalar hcompact fun _ _ => ?_
  rw [hword, h, readWord?, if_pos (by simp), ← String.length_toList, List.drop_left]

/-! ## Lists -/

section
variable {fuel : Nat} {cs rest tail : List Char} {item : Document} {items : List Document}

theorem readItems_last (h : readValue fuel cs = (item, some (']' :: rest))) :
    readItems (fuel + 1) cs = ([item], some rest) := by
  rw [readItems, h]
  rfl

theorem readItems_comma (h : readValue fuel cs = (item, some (',' :: tail)))
    (hitems : readItems fuel tail = (items, some rest)) :
    readItems (fuel + 1) cs = (item :: items, some rest) := by
  rw [readItems, h]
  change (item :: (readItems fuel tail).1, (readItems fuel tail).2) = _
  rw [hitems]

theorem readValue_nil : readValue (fuel + 1) ('[' :: ']' :: rest) = (.list [], some rest) := by
  rw [readValue]
  rfl

theorem readValue_list {c : Char} (hspace : isSpace c = false) (hclose : c ≠ ']')
    (h : readItems fuel (c :: tail) = (items, some rest)) :
    readValue (fuel + 1) ('[' :: c :: tail) = (.list items, some rest) := by
  rw [readValue, skipSpace_cons (by decide)]
  split
  · rename_i heq
    obtain ⟨-, rfl⟩ := List.cons.inj heq
    rw [skipSpace_cons hspace]
    split
    · rename_i heq
      exact absurd (List.cons.inj heq).1 hclose
    · rw [h]
  · rename_i heq
    exact absurd (List.cons.inj heq).1 (by decide)
  · rename_i hopen _
    exact absurd rfl (hopen (c :: tail))

end

theorem readItems_compact {items : List Document} (hne : items ≠ [])
    (h : ∀ item ∈ items, ReadsBack item) {fuel : Nat}
    (hfuel : 2 * ((",".intercalate (compactItems items)).toList.length + 1) ≤ fuel)
    (rest : List Char) :
    readItems fuel ((",".intercalate (compactItems items)).toList ++ ']' :: rest) =
      (items, some rest) := by
  induction items generalizing fuel with
  | nil => exact absurd rfl hne
  | cons item items ih =>
    obtain ⟨fuel, rfl⟩ : ∃ k, fuel = k + 1 := ⟨fuel - 1, by omega⟩
    obtain ⟨hitem, hitems⟩ := List.forall_mem_cons.mp h
    cases items with
    | nil =>
      simp only [compactItems, String.intercalate_singleton] at hfuel ⊢
      exact readItems_last (hitem.reads (by omega) (endsNumber_cons (by decide) rest))
    | cons next others =>
      have hlater := @ih (by simp) hitems fuel
      have hcomma : ",".toList = [','] := rfl
      simp only [compactItems, String.intercalate_cons_cons, String.toList_append,
        List.length_append, List.append_assoc, hcomma, List.length_cons,
        List.singleton_append] at hfuel hlater ⊢
      exact readItems_comma (hitem.reads (by omega) (endsNumber_cons (by decide) _))
        (hlater (by omega))

theorem readsBack_list {items : List Document} (h : ∀ item ∈ items, ReadsBack item) :
    ReadsBack (.list items) := by
  have htext : (compact (.list items)).toList =
      '[' :: ((",".intercalate (compactItems items)).toList ++ [']']) := by
    simp [compact]
  refine ⟨⟨_, _, htext, by decide, by decide⟩, fun {fuel rest} hfuel _ => ?_⟩
  rw [htext, List.length_cons, List.length_append, List.length_singleton] at hfuel
  obtain ⟨fuel, rfl⟩ : ∃ k, fuel = k + 1 := ⟨fuel - 1, by omega⟩
  rw [htext, List.cons_append, List.append_assoc, List.singleton_append]
  cases items with
  | nil => exact readValue_nil
  | cons item others =>
    have hread := @readItems_compact (item :: others) (by simp) h fuel (by omega) rest
    obtain ⟨c, tail, hitem, hspace, hclose⟩ := (h item List.mem_cons_self).begins
    obtain ⟨tail, hbegin⟩ : ∃ tail, (",".intercalate (compactItems (item :: others))).toList =
        c :: tail := by
      cases others with
      | nil => exact ⟨tail, by simpa [compactItems] using hitem⟩
      | cons next others => simp [compactItems, String.intercalate_cons_cons, hitem]
    rw [hbegin, List.cons_append] at hread ⊢
    exact readValue_list hspace hclose hread

/-! ## Records -/

section
variable {fuel : Nat} {cs rest tail after : List Char} {name : String} {value : Document}
  {fields : List (String × Document)}

/-- A name and its value are read; what stands behind them says whether a field follows. -/
theorem readFields_field (hname : readText? fuel cs = some (some name, ':' :: tail))
    (h : readValue fuel tail = (value, some after)) :
    readFields (fuel + 1) ('\x22' :: cs) =
      match skipSpace after with
      | '\x7d' :: rest => ([(name, value)], some rest)
      | ',' :: rest =>
        let (fields, rest?) := readFields fuel rest
        ((name, value) :: fields, rest?)
      | _ => ([(name, value), ("", .cut)], none) := by
  rw [readFields, skipSpace_cons (by decide)]
  split
  · rename_i heq
    obtain ⟨-, rfl⟩ := List.cons.inj heq
    rw [hname]
    dsimp only
    rw [skipSpace_cons (by decide)]
    split
    · rename_i heq
      obtain ⟨-, rfl⟩ := List.cons.inj heq
      generalize readValue fuel tail = found at h ⊢
      subst h
      rfl
    · rename_i hcolon
      exact absurd rfl (hcolon tail)
  · rename_i hquote
    exact absurd rfl (hquote cs)

theorem readFields_last (hname : readText? fuel cs = some (some name, ':' :: tail))
    (h : readValue fuel tail = (value, some ('\x7d' :: rest))) :
    readFields (fuel + 1) ('\x22' :: cs) = ([(name, value)], some rest) := by
  rw [readFields_field hname h]
  rfl

theorem readFields_comma (hname : readText? fuel cs = some (some name, ':' :: tail))
    (h : readValue fuel tail = (value, some (',' :: after)))
    (hfields : readFields fuel after = (fields, some rest)) :
    readFields (fuel + 1) ('\x22' :: cs) = ((name, value) :: fields, some rest) := by
  rw [readFields_field hname h]
  change ((name, value) :: (readFields fuel after).1, (readFields fuel after).2) = _
  rw [hfields]

theorem readValue_empty :
    readValue (fuel + 1) ('\x7b' :: '\x7d' :: rest) = (.record [], some rest) := by
  rw [readValue]
  rfl

theorem readValue_record (h : readFields fuel ('\x22' :: tail) = (fields, some rest)) :
    readValue (fuel + 1) ('\x7b' :: '\x22' :: tail) = (.record fields, some rest) := by
  rw [readValue]
  change (Document.record (readFields fuel ('\x22' :: tail)).1,
    (readFields fuel ('\x22' :: tail)).2) = _
  rw [h]

end

/-- A field's text: a quote, the rest of the name, a colon and the value. -/
theorem toList_field (name : String) (value : Document) (rest : List Char) :
    (quote name ++ ":" ++ compact value).toList ++ rest =
      '\x22' :: (name.toList.flatMap quoteChar ++
        '\x22' :: ':' :: ((compact value).toList ++ rest)) := by
  simp [toList_quote]

theorem readFields_compact {fields : List (String × Document)} (hne : fields ≠ [])
    (h : ∀ field ∈ fields, ReadsBack field.2) {fuel : Nat}
    (hfuel : 2 * ((",".intercalate (compactFields fields)).toList.length + 1) ≤ fuel)
    (rest : List Char) :
    readFields fuel ((",".intercalate (compactFields fields)).toList ++ '\x7d' :: rest) =
      (fields, some rest) := by
  induction fields generalizing fuel with
  | nil => exact absurd rfl hne
  | cons field fields ih =>
    obtain ⟨name, value⟩ := field
    obtain ⟨fuel, rfl⟩ : ∃ k, fuel = k + 1 := ⟨fuel - 1, by omega⟩
    obtain ⟨hfield, hfields⟩ := List.forall_mem_cons.mp h
    have hvalue : ReadsBack value := hfield
    have hlength : (quote name ++ ":" ++ compact value).toList.length =
        (quote name).toList.length + 1 + (compact value).toList.length := by
      simp only [String.toList_append, List.length_append]
      rfl
    cases fields with
    | nil =>
      simp only [compactFields, String.intercalate_singleton] at hfuel ⊢
      rw [hlength] at hfuel
      rw [toList_field]
      exact readFields_last (readText?_quoted name (by omega) _)
        (hvalue.reads (by omega) (endsNumber_cons (by decide) rest))
    | cons next others =>
      have hlater := @ih (by simp) hfields fuel
      have hcomma : ",".toList = [','] := rfl
      obtain ⟨nextName, nextValue⟩ := next
      simp only [compactFields, String.intercalate_cons_cons] at hfuel hlater ⊢
      generalize ",".intercalate _ = later at hfuel hlater ⊢
      rw [String.toList_append, String.toList_append, List.length_append, List.length_append,
        hlength, hcomma, List.length_singleton] at hfuel
      rw [String.toList_append, String.toList_append, List.append_assoc, List.append_assoc,
        toList_field, hcomma, List.singleton_append]
      exact readFields_comma (readText?_quoted name (by omega) _)
        (hvalue.reads (by omega) (endsNumber_cons (by decide) _)) (hlater (by omega))

theorem readsBack_record {fields : List (String × Document)}
    (h : ∀ field ∈ fields, ReadsBack field.2) : ReadsBack (.record fields) := by
  have htext : (compact (.record fields)).toList =
      '\x7b' :: ((",".intercalate (compactFields fields)).toList ++ ['\x7d']) := by
    simp [compact]
  refine ⟨⟨_, _, htext, by decide, by decide⟩, fun {fuel rest} hfuel _ => ?_⟩
  rw [htext, List.length_cons, List.length_append, List.length_singleton] at hfuel
  obtain ⟨fuel, rfl⟩ : ∃ k, fuel = k + 1 := ⟨fuel - 1, by omega⟩
  rw [htext, List.cons_append, List.append_assoc, List.singleton_append]
  cases fields with
  | nil => exact readValue_empty
  | cons field others =>
    have hread := @readFields_compact (field :: others) (by simp) h fuel (by omega) rest
    obtain ⟨tail, hbegin⟩ : ∃ tail, (",".intercalate (compactFields (field :: others))).toList =
        '\x22' :: tail := by
      cases others with
      | nil => simp [compactFields, toList_quote]
      | cons next others =>
        simp [compactFields, String.intercalate_cons_cons, toList_quote]
    rw [hbegin, List.cons_append] at hread ⊢
    exact readValue_record hread

theorem readsBack {d : Document} (h : d.IsWritable)
    (hkept : ∀ x ∈ d.doubles, read (compact (.float x)) = .float x) : ReadsBack d := by
  induction h with
  | null => exact readsBack_word rfl rfl fun _ _ => rfl
  | bool b =>
    cases b with
    | false => exact readsBack_word rfl rfl fun _ _ => rfl
    | true => exact readsBack_word rfl rfl fun _ _ => rfl
  | int hlow hhigh => exact readsBack_int hlow hhigh
  | float hx => exact readsBack_float hx (hkept _ List.mem_cons_self)
  | text s => exact readsBack_text s
  | list _ ih =>
    exact readsBack_list fun item hi => ih item hi fun x hx =>
      hkept x (Document.mem_doublesOfItems.mpr ⟨item, hi, hx⟩)
  | record _ ih =>
    exact readsBack_record fun field hf => ih field hf fun x hx =>
      hkept x (Document.mem_doublesOfFields.mpr ⟨field, hf, hx⟩)

/-- A document is read back from its compact text if each of its doubles is. -/
theorem read_compact {d : Document} (h : d.IsWritable)
    (hkept : ∀ x ∈ d.doubles, read (compact (.float x)) = .float x) : read (compact d) = d := by
  have hread := (readsBack h hkept).reads (Nat.le_succ _) endsNumber_nil
  rw [List.append_nil] at hread
  simp only [read, readHead, hread]
  rfl

end Json
end Tabular
