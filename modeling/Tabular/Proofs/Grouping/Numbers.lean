import Tabular.Proofs.Amount
import Tabular.Proofs.Grouping.Pivot
import Tabular.Proofs.Number.Places

/-!
# Numbers that rows are grouped by

The text of a number cell denotes its number, so that different numbers have different texts and
the two zeros have one. A grouping key is made of such texts, and a pivot label joins them with
underscores, which they do not contain: groups and pivots tell finite numbers apart, and nothing
but numbers (`number_texts_faithful`).
-/
namespace Tabular

/-! ## Texts of numbers -/

section
variable {x y : Float}

theorem Cell.display_zero (h : x == 0.0) : (Cell.number x).display = "0" := if_pos h

theorem Cell.display_plain (h : ¬ x == 0.0) : (Cell.number x).display = Number.plain x := if_neg h

theorem Cell.display_inPlaces (hx : x.isFinite) :
    Number.InPlaces (Cell.number x).display.toList := by
  by_cases h : x == 0.0
  · rw [display_zero h]
    exact Number.Decimal.inPlaces_plain ⟨false, 0, 0⟩
  · rw [display_plain h]
    exact (Number.inPlaces_plain hx).1

theorem beq_zero_iff (hx : x.isFinite) : x == 0.0 ↔ Number.exact x = 0 := by
  rw [Number.beq_iff_exact_eq hx Number.isFinite_zero, Number.exact_zero]

/-- The text of a number is read as that number, and the text of a zero as the positive one. -/
theorem Cell.read?_display (hx : x.isFinite) :
    ∃ d, Number.Decimal.read? (Cell.number x).display.toList = some d ∧ d.toFloat.isFinite ∧
      Number.exact d.toFloat = Number.exact x ∧ (¬ x == 0.0 → d.toFloat = x) := by
  by_cases h : x == 0.0
  · rw [display_zero h, (beq_zero_iff hx).mp h]
    exact ⟨⟨false, 0, 0⟩, by decide, Number.isFinite_zero, Number.exact_zero, (absurd h ·)⟩
  · rw [display_plain h]
    obtain ⟨d, hread, hd⟩ := (Number.inPlaces_plain hx).2
    exact ⟨d, hread, hd ▸ hx, congrArg _ hd, fun _ => hd⟩

/-- A whole number below `10 ^ 15` shows as whole numbers do. -/
theorem Cell.display_whole (hx : x.isFinite) {z : ℤ} (h : Number.exact x = z)
    (hlt : |z| < 10 ^ 15) : (Cell.number x).display = toString z := by
  have hzero : x == 0.0 ↔ z = 0 := by
    rw [beq_zero_iff hx, h]
    exact Int.cast_eq_zero
  by_cases hz : z = 0
  · rw [display_zero (hzero.mpr hz), hz]
    rfl
  · rw [display_plain (mt hzero.mp hz)]
    exact Number.plain_whole hx h hz hlt

/-- Two finite numbers show the same text exactly if they are equal. -/
theorem Cell.display_number_eq_iff (hx : x.isFinite) (hy : y.isFinite) :
    (Cell.number x).display = (Cell.number y).display ↔ x == y := by
  rw [Number.beq_iff_exact_eq hx hy]
  constructor
  · intro h
    obtain ⟨d, hread, -, hd, -⟩ := read?_display hx
    obtain ⟨d', hread', -, hd', -⟩ := read?_display hy
    rw [h, hread', Option.some.injEq] at hread
    rw [← hd, ← hd', hread]
  · intro h
    by_cases hzero : x == 0.0
    · have hzero' : y == 0.0 := (beq_zero_iff hy).mpr (h ▸ (beq_zero_iff hx).mp hzero)
      rw [display_zero hzero, display_zero hzero']
    · have hpositive : ∀ {z : Float}, z.isFinite → Number.exact z = Number.exact x →
          ¬ Number.IsNegativeZero z := by
        intro z hz he hneg
        rw [Number.exact_of_isNegativeZero hneg] at he
        exact hzero ((beq_zero_iff hx).mpr he.symm)
      rw [Number.eq_of_exact_eq hx hy (hpositive hx rfl) (hpositive hy h.symm) h]

/-! ## Texts of numbers as amounts -/

/-- A literal in plain places has no decoration. -/
theorem Amount.not_isDecoration_of_inPlaces {cs : List Char} (h : Number.InPlaces cs) :
    ∀ c ∈ cs, isDecoration c = false := by
  intro c hc
  rcases h.mem hc with hdigit | rfl | rfl
  · have hother : ['$', '€', '£', '¥', '₹', ',', '%', ' ', '\u00a0'].all
        (fun c => !Number.isDigit c) := rfl
    rw [Bool.eq_false_iff]
    intro hdecoration
    have hnone := List.all_eq_true.mp hother c (List.contains_iff_mem.mp hdecoration)
    rw [hdigit] at hnone
    cases hnone
  · rfl
  · rfl

/-- A literal in plain places is an amount, unless it is too large. -/
theorem Amount.read?_inPlaces {text : String} {d : Number.Decimal}
    (h : Number.InPlaces text.toList) (hread : Number.Decimal.read? text.toList = some d) :
    Amount.read? text = if d.toFloat.abs ≤ Limits.amount then some d.toFloat else none := by
  have hbare : undecorated text.toList = text.toList := List.filter_eq_self.mpr fun c hc => by
    rw [not_isDecoration_of_inPlaces h c hc]
    rfl
  have hspells : Number.Spells (undecorated text.toList) d :=
    hbare.symm ▸ Number.Decimal.read?_eq_some_iff.mp hread
  have hnone : ∀ c ∈ ([] : List Char), Text.isBlank c := List.forall_mem_nil _
  obtain ⟨inner, hbears, hinner⟩ := exists_bears hnone hnone hspells
  rw [List.nil_append, List.append_nil, String.ofList_toList] at hbears
  rw [read?_of_bears hbears, hinner, hbare, hread]
  rfl

/-- A number up to `10 ^ 15` is read from its own text, and a larger one is not. -/
theorem Amount.read?_display (hx : x.isFinite) :
    (|Number.exact x| ≤ 10 ^ 15 → ∃ y, Amount.read? (Cell.number x).display = some y ∧ y == x) ∧
    (10 ^ 15 < |Number.exact x| → Amount.read? (Cell.number x).display = none) := by
  obtain ⟨d, hread, hfinite, hexact, -⟩ := Cell.read?_display hx
  have hsmall : d.toFloat.abs ≤ Limits.amount ↔ |Number.exact x| ≤ 10 ^ 15 := by
    rw [abs_le_amount_iff, hexact]
    exact and_iff_right hfinite
  rw [Amount.read?_inPlaces (Cell.display_inPlaces hx) hread]
  constructor
  · intro hle
    exact ⟨_, if_pos (hsmall.mpr hle), (Number.beq_iff_exact_eq hfinite hx).mpr hexact⟩
  · exact fun hlt => if_neg fun h => absurd (hsmall.mp h) (not_le.mpr hlt)

end

/-! ## Keys -/

/-- Two cells hold equal numbers, or the same. -/
inductive Cell.Agree : Cell → Cell → Prop
  | same (cell) : Agree cell cell
  | numbers {x y} : x == y → Agree (.number x) (.number y)

/-- Two cells hold finite numbers, or the same. -/
inductive Cell.Comparable : Cell → Cell → Prop
  | same (cell) : Comparable cell cell
  | numbers {x y} : x.isFinite → y.isFinite → Comparable (.number x) (.number y)

/-- Two rows have equal numbers or the same cells under all of the columns. -/
def Row.Agree (columns : List String) (a b : Row) : Prop :=
  ∀ c ∈ columns, (a.cell c).Agree (b.cell c)

/-- Wherever two rows differ under the columns both have finite numbers. -/
def Row.Comparable (columns : List String) (a b : Row) : Prop :=
  ∀ c ∈ columns, (a.cell c).Comparable (b.cell c)

theorem Cell.agree_numbers_iff {x y : Float} (hx : x.isFinite) :
    (Cell.number x).Agree (.number y) ↔ x == y := by
  constructor
  · intro h
    cases h with
    | same => exact (Number.beq_iff_exact_eq hx hx).mpr rfl
    | numbers h => exact h
  · exact .numbers

theorem Cell.Comparable.key?_eq_iff {a b : Cell} (h : a.Comparable b) :
    a.key? = b.key? ↔ a.Agree b := by
  cases h with
  | same => exact iff_of_true rfl (.same a)
  | numbers hx hy =>
    rw [agree_numbers_iff hx, ← display_number_eq_iff hx hy]
    exact Option.some_inj

section
variable {columns : List String} {a b : Row}

theorem Row.Comparable.groupKey_eq_iff (h : a.Comparable columns b) :
    a.groupKey columns = b.groupKey columns ↔ a.Agree columns b := by
  rw [Row.groupKey, Row.groupKey, List.map_inj_left]
  exact forall₂_congr fun c hc => (h c hc).key?_eq_iff

end

/-! ## Labels -/

/-- Texts that are joined are the same one by one, if wherever they may differ neither contains
the separator. -/
theorem intercalate_map_eq_iff {α : Type} {items : List α} {f g : α → String}
    (h : ∀ a ∈ items, f a = g a ∨ ('_' ∉ (f a).toList ∧ '_' ∉ (g a).toList)) :
    "_".intercalate (items.map f) = "_".intercalate (items.map g) ↔ ∀ a ∈ items, f a = g a := by
  refine ⟨fun he => ?_, fun hall => congrArg _ (List.map_congr_left hall)⟩
  induction items with
  | nil => exact List.forall_mem_nil _
  | cons a rest ih =>
    obtain ⟨ha, hrest⟩ := List.forall_mem_cons.mp h
    cases rest with
    | nil =>
      refine List.forall_mem_singleton.mpr ?_
      simpa only [List.map_cons, List.map_nil, String.intercalate_singleton] using he
    | cons b others =>
      simp only [List.map_cons, String.intercalate_cons_cons] at he ih
      obtain ⟨hfirst, hothers⟩ : f a = g a ∧
          "_".intercalate (f b :: others.map f) = "_".intercalate (g b :: others.map g) := by
        rcases ha with ha | ⟨hf, hg⟩
        · rw [ha] at he
          exact ⟨ha, (String.append_right_inj _).mp he⟩
        · have hlist := congrArg String.toList he
          simp only [String.toList_append, List.append_assoc] at hlist
          obtain ⟨hsame, hbehind⟩ := Text.append_separator_inj hf hg hlist
          exact ⟨String.toList_inj.mp hsame, String.toList_inj.mp hbehind⟩
      exact List.forall_mem_cons.mpr ⟨hfirst, ih hrest hothers⟩

theorem Number.InPlaces.not_mem_underscore {cs : List Char} (h : Number.InPlaces cs) :
    '_' ∉ cs := by
  intro hmem
  rcases h.mem hmem with h | h | h
  · cases h
  · cases h
  · cases h

theorem Cell.Comparable.labelText {a b : Cell} (h : a.Comparable b) :
    (a.key?.getD "" = b.key?.getD "" ↔ a.Agree b) ∧ (a.key?.getD "" = b.key?.getD "" ∨
      ('_' ∉ (a.key?.getD "").toList ∧ '_' ∉ (b.key?.getD "").toList)) := by
  cases h with
  | same => exact ⟨iff_of_true rfl (.same a), .inl rfl⟩
  | numbers hx hy =>
    refine ⟨(display_number_eq_iff hx hy).trans (agree_numbers_iff hx).symm, .inr ⟨?_, ?_⟩⟩
    · exact (display_inPlaces hx).not_mem_underscore
    · exact (display_inPlaces hy).not_mem_underscore

section
variable {columns : List String} {a b : Row}

theorem Row.Comparable.labelUnder_eq_iff (h : a.Comparable columns b) :
    a.labelUnder columns = b.labelUnder columns ↔ a.Agree columns b := by
  have htexts := intercalate_map_eq_iff (f := fun c => (a.key? c).getD "")
    (g := fun c => (b.key? c).getD "") fun c hc => (h c hc).labelText.2
  exact htexts.trans (forall₂_congr fun c hc => (h c hc).labelText.1)

/-! ## Groups and pivots -/

variable {rows : Dataset}

theorem mem_rows_iff {g : Group} (hg : g ∈ partition rows columns) :
    a ∈ g.rows ↔ a ∈ rows ∧ a.groupKey columns = g.first.groupKey columns := by
  rw [← rows_of_mem_partition hg, List.mem_filter, beq_iff_eq]

theorem PivotConfig.mem_crossing {config : PivotConfig} {key : GroupKey} {label : String} :
    a ∈ config.crossing rows key label ↔ a ∈ rows ∧ a.groupKey config.indexColumns = key ∧
      a.labelUnder config.pivotColumns = label := by
  rw [crossing, List.mem_filter, Bool.and_eq_true, beq_iff_eq, beq_iff_eq]

end

/-- The text that a finite number cell shows is a literal without an exponent that denotes the
number: of a whole number below `10 ^ 15` the one of that number, and `0` of both zeros. It has
the number as its amount, unless that is past `10 ^ 15`. So two number cells have one key exactly
if they are equal. Groups and the cells of a pivot are made of the rows that have equal numbers,
where other cells do not tell them apart. -/
theorem number_texts_faithful :
    (∀ x : Float, x.isFinite →
      Number.InPlaces (Cell.number x).display.toList ∧
      (∃ d, Number.Decimal.read? (Cell.number x).display.toList = some d ∧ d.toFloat == x ∧
        (¬ x == 0.0 → d.toFloat = x)) ∧
      (x == 0.0 → (Cell.number x).display = "0") ∧
      (∀ z : ℤ, Number.exact x = z → |z| < 10 ^ 15 → (Cell.number x).display = toString z) ∧
      (|Number.exact x| ≤ 10 ^ 15 →
        ∃ y, Amount.read? (Cell.number x).display = some y ∧ y == x) ∧
      (10 ^ 15 < |Number.exact x| → Amount.read? (Cell.number x).display = none)) ∧
    (∀ x y : Float, x.isFinite → y.isFinite →
      ((Cell.number x).key? = (Cell.number y).key? ↔ x == y)) ∧
    (∀ (columns : List String) (a b : Row), a.Comparable columns b →
      (a.groupKey columns = b.groupKey columns ↔ a.Agree columns b) ∧
      (a.labelUnder columns = b.labelUnder columns ↔ a.Agree columns b)) ∧
    (∀ (rows : Dataset) (columns : List String), ∀ g ∈ partition rows columns, ∀ a ∈ g.rows,
      ∀ b ∈ rows, a.Comparable columns b → (b ∈ g.rows ↔ a.Agree columns b)) ∧
    ∀ (rows : Dataset) (config : PivotConfig), ∀ g ∈ partition rows config.indexColumns,
      ∀ label, config.cell g label = config.crossValue
          (config.crossing rows (g.first.groupKey config.indexColumns) label) ∧
        ∀ a ∈ config.crossing rows (g.first.groupKey config.indexColumns) label, ∀ b ∈ rows,
          a.Comparable config.indexColumns b → a.Comparable config.pivotColumns b →
          (b ∈ config.crossing rows (g.first.groupKey config.indexColumns) label ↔
            a.Agree config.indexColumns b ∧ a.Agree config.pivotColumns b) := by
  refine ⟨fun x hx => ⟨?_, ?_, ?_, ?_, ?_⟩, fun x y hx hy => ?_, ?_, ?_, ?_⟩
  · exact Cell.display_inPlaces hx
  · obtain ⟨d, hread, hfinite, hexact, hsame⟩ := Cell.read?_display hx
    exact ⟨d, hread, (Number.beq_iff_exact_eq hfinite hx).mpr hexact, hsame⟩
  · exact Cell.display_zero
  · exact fun z => Cell.display_whole hx
  · exact Amount.read?_display hx
  · rw [← Cell.display_number_eq_iff hx hy]
    exact Option.some_inj
  · intro columns a b h
    exact ⟨h.groupKey_eq_iff, h.labelUnder_eq_iff⟩
  · intro rows columns g hg a ha b hb h
    rw [mem_rows_iff hg, and_iff_right hb, ← ((mem_rows_iff hg).mp ha).2, ← h.groupKey_eq_iff]
    exact eq_comm
  · intro rows config g hg label
    refine ⟨PivotConfig.cell_eq hg, fun a ha b hb hindex hpivot => ?_⟩
    obtain ⟨-, hkey, hlabel⟩ := PivotConfig.mem_crossing.mp ha
    rw [PivotConfig.mem_crossing, and_iff_right hb, ← hindex.groupKey_eq_iff,
      ← hpivot.labelUnder_eq_iff, hkey, hlabel]
    exact and_congr eq_comm eq_comm

/-- Two zeros under one key, two numbers that are almost the same under two, and the largest
amount. -/
theorem number_texts_faithful_zeros :
    let positive := Row.ofList [("Rate", .number 0.0), ("Region", .text "East")]
    let negative := Row.ofList [("Rate", .number (-0.0)), ("Region", .text "East")]
    positive.groupKey ["Region", "Rate"] = negative.groupKey ["Region", "Rate"] ∧
    positive.labelUnder ["Region", "Rate"] = negative.labelUnder ["Region", "Rate"] ∧
    (Cell.number (0.1 + 0.2)).key? ≠ (Cell.number 0.3).key? ∧
    ∃ y, Amount.read? (Cell.number 1e15).display = some y ∧ y == 1e15 := by
  intro positive negative
  obtain ⟨htexts, hkeys, hrows, -⟩ := number_texts_faithful
  have hrates : (positive.cell "Rate").Agree (negative.cell "Rate") := .numbers (by decide +kernel)
  have hregions : positive.cell "Region" = negative.cell "Region" := rfl
  have hcomparable : positive.Comparable ["Region", "Rate"] negative := by
    intro c hc
    rcases List.mem_pair.mp hc with rfl | rfl
    · exact hregions ▸ .same _
    · exact .numbers rfl rfl
  have hagree : positive.Agree ["Region", "Rate"] negative := by
    intro c hc
    rcases List.mem_pair.mp hc with rfl | rfl
    · exact hregions ▸ .same _
    · exact hrates
  obtain ⟨hkey, hlabel⟩ := hrows _ positive negative hcomparable
  refine ⟨hkey.mpr hagree, hlabel.mpr hagree, ?_, ?_⟩
  · exact mt (hkeys (0.1 + 0.2) 0.3 rfl rfl).mp (by decide +kernel)
  · obtain ⟨-, -, -, -, hamount, -⟩ := htexts 1e15 rfl
    have hlimit : Number.exact 1e15 = 10 ^ 15 := Amount.exact_amount
    refine hamount ?_
    rw [hlimit, abs_of_nonneg (by positivity)]

end Tabular
