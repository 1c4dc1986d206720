import Tabular.Proofs.Chart.Limit
import Tabular.Proofs.Reference.Reordering

/-!
# Charts of reordered rows

Reordering rows reorders their columns. What formulas and mappings refer to is the same
afterwards, unless two columns differ in letter case alone: references are resolved among the
same columns at every stage of a chart, so that it is drawn by the same plan
(`references_survive_reordering`).
-/
namespace Tabular

/-! ## The same columns -/

theorem Row.mem_names_insert {row : Row} {name other : String} {cell : Cell} :
    other ∈ (row.insert name cell).names ↔ other ∈ row.names ∨ other = name := by
  rw [mem_names_iff, mem_names_iff]
  by_cases h : other = name
  · subst h
    simp [get?_insert_self]
  · simp [get?_insert_of_ne _ _ h, h]

theorem Row.mem_names_foldl_insert {α : Type} {items : List α} {name : α → String}
    {cell : α → Cell} {row : Row} {other : String} :
    other ∈ (items.foldl (fun row item => row.insert (name item) (cell item)) row).names ↔
      other ∈ row.names ∨ ∃ item ∈ items, other = name item := by
  induction items generalizing row with
  | nil => simp
  | cons item rest ih => simp [ih, mem_names_insert, or_assoc]

/-- Two datasets have the same columns, and one has rows if the other does. -/
structure SameColumns (rows rows' : Dataset) : Prop where
  empty : rows = [] ↔ rows' = []
  names : ∀ name, name ∈ columns rows ↔ name ∈ columns rows'

section
variable {rows rows' out out' : Dataset} {written : List String} {name : String}

theorem sameColumns_of_perm (h : rows.Perm rows') : SameColumns rows rows' where
  empty := by rw [← List.length_eq_zero_iff, h.length_eq, List.length_eq_zero_iff]
  names _ := (columns_perm h).mem_iff

/-- References mean the same among the same columns, if these have names of a sort that letter
case tells apart. -/
theorem SameColumns.resolve_eq (h : SameColumns rows rows') {P : String → Prop}
    (hP : ApartInCase P) (hrows : NamesAre P rows) (reference : String) :
    resolve reference (columns rows) = resolve reference (columns rows') :=
  resolve_congr h.names (hP.mono fun _ hn => hrows.columns hn) reference

/-- A row that is extended stays in its place. -/
theorem Extends.exists_row (h : Extends rows written out) {old : Row} (hold : old ∈ rows) :
    ∃ new ∈ out, (∀ c, c ∉ written → new.get? c = old.get? c) ∧
      ∀ c ∈ written, ∃ cell, new.get? c = some cell := by
  obtain ⟨i, hi, rfl⟩ := List.mem_iff_getElem.mp hold
  have hi' : i < out.length := h.rowCount ▸ hi
  obtain ⟨old, hat, hnew⟩ := h.rows i out[i] (List.getElem?_eq_getElem hi')
  rw [List.getElem?_eq_getElem hi] at hat
  cases hat
  exact ⟨out[i], List.getElem_mem hi', hnew⟩

theorem Extends.mem_columns (h : Extends rows written out) :
    name ∈ columns out ↔ name ∈ columns rows ∨ rows ≠ [] ∧ name ∈ written := by
  simp only [Tabular.mem_columns, Row.mem_names_iff]
  constructor
  · rintro ⟨new, hnew, hcell⟩
    obtain ⟨i, hi⟩ := List.mem_iff_getElem?.mp hnew
    obtain ⟨old, hold, hkept, -⟩ := h.rows i new hi
    have hmem : old ∈ rows := List.mem_of_getElem? hold
    by_cases hw : name ∈ written
    · exact .inr ⟨List.ne_nil_of_mem hmem, hw⟩
    · exact .inl ⟨old, hmem, hkept name hw ▸ hcell⟩
  · rintro (⟨old, hold, hcell⟩ | ⟨hrows, hw⟩)
    · obtain ⟨new, hnew, hkept, hwritten⟩ := h.exists_row hold
      by_cases hw : name ∈ written
      · exact ⟨new, hnew, hwritten name hw⟩
      · exact ⟨new, hnew, (hkept name hw).symm ▸ hcell⟩
    · obtain ⟨old, hold⟩ := List.exists_mem_of_ne_nil rows hrows
      obtain ⟨new, hnew, -, hwritten⟩ := h.exists_row hold
      exact ⟨new, hnew, hwritten name hw⟩

/-- Writing the same columns leaves the columns the same. -/
theorem SameColumns.extends (h : SameColumns rows rows') (he : Extends rows written out)
    (he' : Extends rows' written out') : SameColumns out out' where
  empty := by
    rw [← List.length_eq_zero_iff, he.rowCount, ← List.length_eq_zero_iff (l := out'),
      he'.rowCount, List.length_eq_zero_iff, List.length_eq_zero_iff]
    exact h.empty
  names name := by rw [he.mem_columns, he'.mem_columns, h.names, ne_eq, ne_eq, h.empty]

theorem Formula.evaluate_sameColumns {formula output : String} {mode : Mode}
    (h : SameColumns rows rows') (ho : evaluate rows formula output mode = .ok out)
    (ho' : evaluate rows' formula output mode = .ok out') : SameColumns out out' := by
  cases mode with
  | rowWise =>
    obtain ⟨f, values, -, -, hw⟩ := evaluate_writes ho
    obtain ⟨f', values', -, -, hw'⟩ := evaluate_writes ho'
    exact h.extends hw.extends hw'.extends
  | datasetWise =>
    unfold evaluate at ho ho'
    obtain ⟨f, -, ho⟩ := bind_eq_ok.mp ho
    obtain ⟨value, -, ho⟩ := bind_eq_ok.mp ho
    obtain ⟨f', -, ho'⟩ := bind_eq_ok.mp ho'
    obtain ⟨value', -, ho'⟩ := bind_eq_ok.mp ho'
    cases ho
    cases ho'
    refine ⟨by simp, fun name => ?_⟩
    simp only [Tabular.mem_columns, List.mem_singleton, exists_eq_left, Row.mem_names_insert]

theorem partition_eq_nil {groups : List String} : partition rows groups = [] ↔ rows = [] := by
  constructor
  · intro h
    have hkeys := map_key_partitionBy (·.groupKey groups) rows
    rw [← partition, h, List.map_nil] at hkeys
    refine List.eq_nil_iff_forall_not_mem.mpr fun row hrow => ?_
    have hkey := List.mem_eraseDups.mpr (List.mem_map_of_mem (f := (·.groupKey groups)) hrow)
    exact absurd (hkeys ▸ hkey) List.not_mem_nil
  · rintro rfl
    rfl

/-- Groups have the group columns and those of the aggregates, whatever rows there are. -/
theorem mem_columns_groupBy {config : GroupConfig} (hkeep : config.keepOthers = false) :
    name ∈ columns (groupBy rows config) ↔ ¬ rows = [] ∧
      (name ∈ config.groupColumns ∨ ∃ a ∈ config.aggregates, name = a.outputColumn) := by
  have hrow : ∀ g, name ∈ (config.row g).names ↔
      name ∈ config.groupColumns ∨ ∃ a ∈ config.aggregates, name = a.outputColumn := by
    intro g
    unfold GroupConfig.row Row.withAggregates Row.copy
    rw [hkeep, Row.mem_names_foldl_insert, Row.mem_names_foldl_insert]
    simp [Row.names, Row.empty]
  have hempty : partition rows config.groupColumns = [] ↔ rows = [] := partition_eq_nil
  rw [mem_columns, groupBy, ← hempty]
  constructor
  · rintro ⟨row, hmem, hname⟩
    obtain ⟨g, hg, rfl⟩ := List.mem_map.mp hmem
    exact ⟨List.ne_nil_of_mem hg, (hrow g).mp hname⟩
  · rintro ⟨hgroups, hname⟩
    obtain ⟨g, hg⟩ := List.exists_mem_of_ne_nil _ hgroups
    exact ⟨_, List.mem_map_of_mem hg, (hrow g).mpr hname⟩

theorem SameColumns.groupBy (h : SameColumns rows rows') {config : GroupConfig}
    (hkeep : config.keepOthers = false) :
    SameColumns (groupBy rows config) (groupBy rows' config) where
  empty := by
    rw [Tabular.groupBy, Tabular.groupBy, List.map_eq_nil_iff, List.map_eq_nil_iff,
      partition_eq_nil, partition_eq_nil]
    exact h.empty
  names name := by
    rw [mem_columns_groupBy hkeep, mem_columns_groupBy hkeep, h.empty]

end

namespace Chart

/-! ## Plans -/

/-- How rows are grouped: by which columns, which ones are aggregated, and how. -/
structure Grouping where
  groups : List String
  values : List String
  kind : AggregateKind

/-- What a chart does to its prepared rows, once all references are resolved. -/
structure Plan where
  grouping? : Option Grouping
  column? : Option String
  order : SortOrder

def Grouping.run (mapping : ChartMapping) (prepared : Progress) : Option Grouping → Progress
  | none => prepared
  | some g => aggregateGroups prepared g.groups g.values g.kind mapping.percentile?

/-- Rows sorted by a column, if there is one, and cut to the limit of a mapping. -/
def sortedAndCut [Calendar] (mapping : ChartMapping) (column? : Option String) (order : SortOrder)
    (rows : Dataset) : Dataset :=
  let sorted := match column? with
    | some column => Dataset.sort rows column order
    | none => rows
  match mapping.limit? with
  | some limit => sorted.take limit
  | none => sorted

/-- The rows of a chart: the prepared ones, grouped, sorted and cut. -/
def Plan.run [Calendar] (plan : Plan) (mapping : ChartMapping) (prepared : Progress) : Progress :=
  let progress := Grouping.run mapping prepared plan.grouping?
  { progress with rows := sortedAndCut mapping plan.column? plan.order progress.rows }

/-- Two charts are drawn alike: by one plan, each from what is computed of its dataset. -/
def DrawnAlike [Calendar] (rows rows' : Dataset) (mapping : ChartMapping)
    (done done' : Progress) : Prop :=
  ∃ (plan : Plan) (prepared prepared' : Progress), withComputed rows mapping = .ok prepared ∧
    withComputed rows' mapping = .ok prepared' ∧ done = plan.run mapping prepared ∧
    done' = plan.run mapping prepared'

/-! ## Stages of a chart -/

section
variable {rows rows' : Dataset} {mapping : ChartMapping} {P : String → Prop}
  {progress progress' done done' : Progress}

theorem withComputed_sameColumns (h : SameColumns rows rows')
    (hp : withComputed rows mapping = .ok progress)
    (hp' : withComputed rows' mapping = .ok progress') :
    SameColumns progress.rows progress'.rows := by
  unfold withComputed at hp hp'
  dsimp only at hp hp'
  cases hf : mapping.activeFormula? with
  | some formula =>
    simp only [hf] at hp hp'
    obtain ⟨calculated, hc, hp⟩ := bind_eq_ok.mp hp
    obtain ⟨derived, hd, hp⟩ := bind_eq_ok.mp hp
    obtain ⟨calculated', hc', hp'⟩ := bind_eq_ok.mp hp'
    obtain ⟨derived', hd', hp'⟩ := bind_eq_ok.mp hp'
    cases hp
    cases hp'
    exact (Formula.evaluate_sameColumns h hc hc').extends (Metric.applyAll_extends hd)
      (Metric.applyAll_extends hd')
  | none =>
    simp only [hf, pure_bind] at hp hp'
    obtain ⟨derived, hd, hp⟩ := bind_eq_ok.mp hp
    obtain ⟨derived', hd', hp'⟩ := bind_eq_ok.mp hp'
    cases hp
    cases hp'
    exact h.extends (Metric.applyAll_extends hd) (Metric.applyAll_extends hd')

/-- Rows on their way to two charts have the same columns, whose names are of a sort. -/
structure Progress.Alike (P : String → Prop) (progress progress' : Progress) : Prop where
  columns : SameColumns progress.rows progress'.rows
  names : Tabular.NamesAre P progress.rows

variable (hP : ApartInCase P) (h : progress.Alike P progress')
include hP h

theorem Progress.Alike.resolve_eq (reference : String) :
    resolve reference (Tabular.columns progress.rows) =
      resolve reference (Tabular.columns progress'.rows) :=
  h.columns.resolve_eq hP h.names reference

theorem resolveEach_alike {references found found' : List String}
    (hf : resolveEach (columns progress.rows) references = .ok found)
    (hf' : resolveEach (columns progress'.rows) references = .ok found') : found = found' := by
  rw [resolveEach_eq_ok hf, resolveEach_eq_ok hf']
  simp only [h.resolve_eq hP]

theorem resolveOption_alike {reference? found? found'? : Option String}
    (hf : resolveOption (columns progress.rows) reference? = .ok found?)
    (hf' : resolveOption (columns progress'.rows) reference? = .ok found'?) :
    found? = found'? := by
  rw [resolveOption_eq_ok hf, resolveOption_eq_ok hf']
  simp only [h.resolve_eq hP]

theorem lineGroups_alike {groups groups' : List String}
    (hg : lineGroups (columns progress.rows) mapping = .ok groups)
    (hg' : lineGroups (columns progress'.rows) mapping = .ok groups') : groups = groups' := by
  unfold lineGroups at hg hg'
  by_cases hgroup : !mapping.groupBy.isEmpty
  · rw [if_pos hgroup] at hg hg'
    exact resolveEach_alike hP h hg hg'
  rw [if_neg hgroup] at hg hg'
  by_cases haggregation : mapping.aggregation?.isSome
  · rw [if_pos haggregation] at hg hg'
    exact resolveEach_alike hP h hg hg'
  · rw [if_neg haggregation] at hg hg'
    exact Except.ok.inj (hg.symm.trans hg')

/-- Rows are sorted by the column that the mapping's reference means, which is the same one. -/
theorem arrange_alike [Calendar] {column? : Option String} {order : SortOrder}
    (ha : arrange mapping column? order progress = .ok done)
    (ha' : arrange mapping column? order progress' = .ok done') : ∃ column? order,
      done = { progress with rows := sortedAndCut mapping column? order progress.rows } ∧
      done' = { progress' with rows := sortedAndCut mapping column? order progress'.rows } := by
  unfold arrange sortAndCut at ha ha'
  cases hsort : mapping.sortBy? with
  | some reference =>
    simp only [hsort, bind_assoc] at ha ha'
    obtain ⟨found, hf, ha⟩ := bind_eq_ok.mp ha
    obtain ⟨found', hf', ha'⟩ := bind_eq_ok.mp ha'
    obtain rfl := resolveOption_alike hP h hf hf'
    cases ha
    cases ha'
    exact ⟨found, _, rfl, rfl⟩
  | none =>
    simp only [hsort] at ha ha'
    cases ha
    cases ha'
    exact ⟨column?, _, rfl, rfl⟩

omit hP in
theorem aggregateGroups_alike {groups values : List String} {kind : AggregateKind}
    {percentile? : Option Float} (hgroups : ∀ name ∈ groups, P name)
    (hvalues : ∀ name ∈ values, P name) :
    (aggregateGroups progress groups values kind percentile?).Alike P
      (aggregateGroups progress' groups values kind percentile?) where
  columns := h.columns.groupBy rfl
  names := (aggregateGroups_names hgroups hvalues).rows

end

/-! ## One chart after the other -/

section
variable {rows rows' : Dataset} {mapping : ChartMapping} {prepared prepared' done done' : Progress}
  (hP : ApartInCase (Known rows mapping)) (hrows : SameColumns rows rows')
include hP hrows

omit hP in
theorem prepared_alike (hp : withComputed rows mapping = .ok prepared)
    (hp' : withComputed rows' mapping = .ok prepared') :
    prepared.Alike (Known rows mapping) prepared' :=
  ⟨withComputed_sameColumns hrows hp hp', (withComputed_names hp).rows⟩

theorem drawnAlike_of_arrange [Calendar] (hp : withComputed rows mapping = .ok prepared)
    (hp' : withComputed rows' mapping = .ok prepared') {column? : Option String}
    {order : SortOrder} (h : arrange mapping column? order prepared = .ok done)
    (h' : arrange mapping column? order prepared' = .ok done') :
    DrawnAlike rows rows' mapping done done' := by
  obtain ⟨column?, order, hdone, hdone'⟩ :=
    arrange_alike hP (prepared_alike hrows hp hp') h h'
  exact ⟨⟨none, column?, order⟩, prepared, prepared', hp, hp', hdone, hdone'⟩

theorem drawnAlike_of_groups [Calendar] (hp : withComputed rows mapping = .ok prepared)
    (hp' : withComputed rows' mapping = .ok prepared') {column? : Option String}
    {order : SortOrder} {groups values : List String} {kind : AggregateKind}
    (hgroups : ∀ name ∈ groups, Known rows mapping name)
    (hvalues : ∀ name ∈ values, Known rows mapping name)
    (h : arrange mapping column? order
      (aggregateGroups prepared groups values kind mapping.percentile?) = .ok done)
    (h' : arrange mapping column? order
      (aggregateGroups prepared' groups values kind mapping.percentile?) = .ok done') :
    DrawnAlike rows rows' mapping done done' := by
  obtain ⟨column?, order, hdone, hdone'⟩ := arrange_alike hP
    (aggregateGroups_alike (prepared_alike hrows hp hp') hgroups hvalues) h h'
  exact ⟨⟨some ⟨groups, values, kind⟩, column?, order⟩, prepared, prepared', hp, hp',
    hdone, hdone'⟩

theorem bars_alike [Calendar] (h : bars rows mapping = .ok done)
    (h' : bars rows' mapping = .ok done') :
    DrawnAlike rows rows' mapping done done' := by
  unfold bars at h h'
  obtain ⟨prepared, hp, h⟩ := bind_eq_ok.mp h
  obtain ⟨prepared', hp', h'⟩ := bind_eq_ok.mp h'
  obtain ⟨categories, hc, h⟩ := bind_eq_ok.mp h
  obtain ⟨categories', hc', h'⟩ := bind_eq_ok.mp h'
  have halike := prepared_alike hrows hp hp'
  obtain rfl := resolveEach_alike hP halike hc hc'
  have hcategories := resolveEach_names halike.names hc
  by_cases hempty : categories.isEmpty
  · rw [if_pos hempty] at h h'
    exact drawnAlike_of_arrange hP hrows hp hp' h h'
  rw [if_neg hempty] at h h'
  by_cases hy : !mapping.yAxis.isEmpty
  · rw [if_pos hy] at h h'
    obtain ⟨values, hv, h⟩ := bind_eq_ok.mp h
    obtain ⟨values', hv', h'⟩ := bind_eq_ok.mp h'
    obtain rfl := resolveEach_alike hP halike hv hv'
    exact drawnAlike_of_groups hP hrows hp hp' hcategories (resolveEach_names halike.names hv) h h'
  rw [if_neg hy] at h h'
  cases hvalue : mapping.value? with
  | some reference =>
    simp only [hvalue] at h h'
    obtain ⟨values, hv, h⟩ := bind_eq_ok.mp h
    obtain ⟨values', hv', h'⟩ := bind_eq_ok.mp h'
    obtain rfl := resolveEach_alike hP halike hv hv'
    exact drawnAlike_of_groups hP hrows hp hp' hcategories (resolveEach_names halike.names hv) h h'
  | none =>
    simp only [hvalue] at h h'
    refine drawnAlike_of_groups hP hrows hp hp' hcategories (fun name hn => ?_) h h'
    exact formulaColumn?_known (Option.mem_toList.mp hn)

theorem lines_alike [Calendar] (h : lines rows mapping = .ok done)
    (h' : lines rows' mapping = .ok done') :
    DrawnAlike rows rows' mapping done done' := by
  unfold lines at h h'
  obtain ⟨prepared, hp, h⟩ := bind_eq_ok.mp h
  obtain ⟨prepared', hp', h'⟩ := bind_eq_ok.mp h'
  obtain ⟨groups, hg, h⟩ := bind_eq_ok.mp h
  obtain ⟨groups', hg', h'⟩ := bind_eq_ok.mp h'
  have halike := prepared_alike hrows hp hp'
  obtain rfl := lineGroups_alike hP halike hg hg'
  have hgroups := lineGroups_names halike.names hg
  by_cases hempty : groups.isEmpty
  · rw [if_pos hempty] at h h'
    exact drawnAlike_of_arrange hP hrows hp hp' h h'
  rw [if_neg hempty] at h h'
  obtain ⟨axes, ha, h⟩ := bind_eq_ok.mp h
  obtain ⟨axes', ha', h'⟩ := bind_eq_ok.mp h'
  obtain rfl := resolveEach_alike hP halike ha ha'
  have hknown : ∀ {values : List String}, (∀ name ∈ values, Known rows mapping name) →
      ∀ name ∈ (match formulaColumn? mapping with
        | some column => Formula.appendNew column values
        | none => values), Known rows mapping name := by
    intro values hv name hn
    rcases (mem_appendOption _ values name).mp hn with hn | hn
    · exact hv name hn
    · exact formulaColumn?_known hn
  by_cases haxes : axes.isEmpty
  · rw [if_pos haxes] at h h'
    obtain ⟨values, hv, h⟩ := bind_eq_ok.mp h
    obtain ⟨values', hv', h'⟩ := bind_eq_ok.mp h'
    obtain rfl := resolveEach_alike hP halike hv hv'
    exact drawnAlike_of_groups hP hrows hp hp' hgroups
      (hknown (resolveEach_names halike.names hv)) h h'
  · rw [if_neg haxes] at h h'
    exact drawnAlike_of_groups hP hrows hp hp' hgroups
      (hknown (resolveEach_names halike.names ha)) h h'

theorem points_alike [Calendar] (h : points rows mapping = .ok done)
    (h' : points rows' mapping = .ok done') : DrawnAlike rows rows' mapping done done' := by
  unfold points at h h'
  obtain ⟨prepared, hp, h⟩ := bind_eq_ok.mp h
  obtain ⟨prepared', hp', h'⟩ := bind_eq_ok.mp h'
  have halike := prepared_alike hrows hp hp'
  by_cases hgroup : mapping.groupBy.isEmpty
  · rw [if_pos hgroup] at h h'
    exact drawnAlike_of_arrange hP hrows hp hp' h h'
  rw [if_neg hgroup] at h h'
  obtain ⟨groups, hg, h⟩ := bind_eq_ok.mp h
  obtain ⟨groups', hg', h'⟩ := bind_eq_ok.mp h'
  obtain ⟨x, hx, h⟩ := bind_eq_ok.mp h
  obtain ⟨x', hx', h'⟩ := bind_eq_ok.mp h'
  obtain ⟨ys, hy, h⟩ := bind_eq_ok.mp h
  obtain ⟨ys', hy', h'⟩ := bind_eq_ok.mp h'
  obtain rfl := resolveEach_alike hP halike hg hg'
  obtain rfl := resolveEach_alike hP halike hx hx'
  obtain rfl := resolveEach_alike hP halike hy hy'
  refine drawnAlike_of_groups hP hrows hp hp' (resolveEach_names halike.names hg)
    (fun name hn => ?_) h h'
  rcases Formula.mem_foldl_appendNew.mp hn with hn | ⟨y, hmem, rfl⟩
  · exact resolveEach_names halike.names hx name hn
  · exact resolveEach_names halike.names hy _ hmem

theorem slices_alike [Calendar] (h : slices rows mapping = .ok done)
    (h' : slices rows' mapping = .ok done') : DrawnAlike rows rows' mapping done done' := by
  unfold slices at h h'
  obtain ⟨prepared, hp, h⟩ := bind_eq_ok.mp h
  obtain ⟨prepared', hp', h'⟩ := bind_eq_ok.mp h'
  obtain ⟨categories, hc, h⟩ := bind_eq_ok.mp h
  obtain ⟨categories', hc', h'⟩ := bind_eq_ok.mp h'
  have halike := prepared_alike hrows hp hp'
  obtain rfl := resolveEach_alike hP halike hc hc'
  have hcategories := resolveEach_names halike.names hc
  have hdrawn : ∀ {value?}, (∀ value ∈ value?, Known rows mapping value) →
      (match value? with
        | none => arrange mapping none .desc prepared
        | some value => if categories.isEmpty then arrange mapping none .desc prepared
          else arrange mapping (some value) .desc (aggregateGroups prepared categories [value]
            (mapping.aggregation?.getD .sum) mapping.percentile?)) = .ok done →
      (match value? with
        | none => arrange mapping none .desc prepared'
        | some value => if categories.isEmpty then arrange mapping none .desc prepared'
          else arrange mapping (some value) .desc (aggregateGroups prepared' categories [value]
            (mapping.aggregation?.getD .sum) mapping.percentile?)) = .ok done' →
      DrawnAlike rows rows' mapping done done' := by
    intro value? hvalue h h'
    cases value? with
    | none => exact drawnAlike_of_arrange hP hrows hp hp' h h'
    | some value =>
      dsimp only at h h'
      by_cases hempty : categories.isEmpty
      · rw [if_pos hempty] at h h'
        exact drawnAlike_of_arrange hP hrows hp hp' h h'
      · rw [if_neg hempty] at h h'
        refine drawnAlike_of_groups hP hrows hp hp' hcategories (fun name hn => ?_) h h'
        exact hvalue name (List.mem_singleton.mp hn ▸ rfl)
  -- The value is resolved, or it is the formula's column.
  cases href : mapping.value?.or mapping.yAxis.head? with
  | some reference =>
    simp only [href] at h h'
    obtain ⟨value?, hv, h⟩ := bind_eq_ok.mp h
    obtain ⟨value'?, hv', h'⟩ := bind_eq_ok.mp h'
    obtain rfl := resolveOption_alike hP halike hv hv'
    refine hdrawn (fun value hvalue => ?_) h h'
    exact halike.names.columns (mem_of_resolve ((resolveOption_eq_ok hv).symm.trans hvalue))
  | none =>
    simp only [href] at h h'
    exact hdrawn (fun value hvalue => formulaColumn?_known hvalue) h h'

theorem compute_alike [Calendar] {chartType : ChartType} (hchart : chartType ∈ arranged)
    (h : compute rows mapping chartType = .ok done)
    (h' : compute rows' mapping chartType = .ok done') :
    DrawnAlike rows rows' mapping done done' := by
  cases chartType with
  | scorecard => exact absurd hchart (by decide)
  | bar => exact bars_alike hP hrows h h'
  | column => exact bars_alike hP hrows h h'
  | line => exact lines_alike hP hrows h h'
  | area => exact lines_alike hP hrows h h'
  | scatter => exact points_alike hP hrows h h'
  | pie => exact slices_alike hP hrows h h'
  | donut => exact slices_alike hP hrows h h'
  | unsupported name => simp [arranged] at hchart

end
end Chart

/-- What a reference means does not depend on the order of columns that stay apart in lower
case. So reordering rows reorders their columns and, unless two of them differ in letter case
alone, leaves what formulas refer to, and what mappings refer to among the columns that they
compute as well: charts of reordered rows are drawn by the same plan. -/
theorem references_survive_reordering [Calendar] :
    (∀ (available available' : List String) (reference : String),
      (available.map Text.lower).Nodup → available.Perm available' →
      resolve reference available = resolve reference available') ∧
    ∀ rows rows' : Dataset, rows.Perm rows' →
      (columns rows).Perm (columns rows') ∧
      (ApartInCase (· ∈ columns rows) →
        (∀ reference, resolve reference (columns rows) = resolve reference (columns rows')) ∧
        ∀ formula,
          (Formula.validate formula (columns rows)).toOption =
            (Formula.validate formula (columns rows')).toOption ∧
          ((∃ e e', Formula.Compiled.compile formula rows = .error e ∧
            Formula.Compiled.compile formula rows' = .error e' ∧
            Formula.SameRefusal rows rows' e e') ∨
          ∃ f f', Formula.Compiled.compile formula rows = .ok f ∧
            Formula.Compiled.compile formula rows' = .ok f' ∧ f.SameReferences f')) ∧
      ∀ mapping, ApartInCase (Chart.Known rows mapping) →
        (∀ prepared prepared', Chart.withComputed rows mapping = .ok prepared →
          Chart.withComputed rows' mapping = .ok prepared' → ∀ reference,
          resolve reference (columns prepared.rows) =
            resolve reference (columns prepared'.rows)) ∧
        ∀ chartType ∈ Chart.arranged, ∀ data data', rows ≠ [] →
          Chart.process rows chartType mapping = .ok data →
          Chart.process rows' chartType mapping = .ok data' → ∃ done done',
            data = done.chart rows chartType ∧ data' = done'.chart rows' chartType ∧
            Chart.DrawnAlike rows rows' mapping done done' := by
  refine ⟨?_, fun rows rows' hperm => ?_⟩
  · intro available available' reference hnodup hperm
    exact resolve_congr (fun _ => hperm.mem_iff) (apartInCase_of_nodup hnodup) reference
  have hrows := sameColumns_of_perm hperm
  refine ⟨columns_perm hperm, fun hcase => ?_, fun mapping hcase => ⟨?_, ?_⟩⟩
  · have hresolve := resolve_congr hrows.names hcase
    exact ⟨hresolve, fun formula =>
      ⟨Formula.validate_congr hresolve formula, Formula.compile_alike hresolve formula⟩⟩
  · intro prepared prepared' hp hp'
    exact (Chart.prepared_alike hrows hp hp').resolve_eq hcase
  · intro chartType hchart data data' hne h h'
    have hne' : rows' ≠ [] := fun he => hne (hrows.empty.mpr he)
    rw [Chart.process_eq, if_neg (by simpa using hne)] at h
    rw [Chart.process_eq, if_neg (by simpa using hne')] at h'
    obtain ⟨done, hdone, rfl⟩ := map_eq_ok.mp h
    obtain ⟨done', hdone', rfl⟩ := map_eq_ok.mp h'
    exact ⟨done, done', rfl, rfl, Chart.compute_alike hcase hrows hchart hdone hdone'⟩

/-- Two rows that swap their places, and with them the columns that only one of them has. -/
theorem references_survive_swapped_rows :
    let east := Row.ofList [("Region", .text "East"), ("Revenue", .number 3.0)]
    let west := Row.ofList [("Cost", .number 2.0), ("Region", .text "West")]
    let mapping : ChartMapping :=
      { category := ["region"], yAxis := ["twice"], formula? := some "REVENUE * 2",
        formulaAlias? := some "Twice" }
    resolve "REVENUE" (columns [east, west]) = resolve "REVENUE" (columns [west, east]) ∧
    ∃ data data' done done', Chart.process [east, west] .bar mapping = .ok data ∧
      Chart.process [west, east] .bar mapping = .ok data' ∧
      data = done.chart [east, west] .bar ∧ data' = done'.chart [west, east] .bar ∧
      Chart.DrawnAlike [east, west] [west, east] mapping done done' := by
  intro east west mapping
  have hcolumns : columns [east, west] = ["Region", "Revenue", "Cost"] := by decide +kernel
  have hknown : ∀ name, Chart.Known [east, west] mapping name →
      name ∈ ["Region", "Revenue", "Cost", "Twice"] := by
    rintro name (h | ⟨-, rfl⟩ | ⟨config, hconfig, -⟩)
    · rw [hcolumns] at h
      exact List.mem_append_left ["Twice"] h
    · exact List.mem_append_right ["Region", "Revenue", "Cost"] List.mem_cons_self
    · exact absurd hconfig List.not_mem_nil
  have hcase : ApartInCase (Chart.Known [east, west] mapping) :=
    (apartInCase_of_nodup (by decide +kernel)).mono hknown
  obtain ⟨-, hreordered⟩ := references_survive_reordering
  obtain ⟨-, hreferences, hcharts⟩ := hreordered _ _ (List.Perm.swap west east [])
  obtain ⟨data, hdata⟩ : ∃ data, Chart.process [east, west] .bar mapping = .ok data :=
    exists_eq_ok (by decide +kernel)
  obtain ⟨data', hdata'⟩ : ∃ data', Chart.process [west, east] .bar mapping = .ok data' :=
    exists_eq_ok (by decide +kernel)
  obtain ⟨done, done', hdone, hdone', halike⟩ :=
    (hcharts mapping hcase).2 .bar (by decide) data data' (List.cons_ne_nil _ _) hdata hdata'
  have hresolve := (hreferences (hcase.mono fun _ hn => .inl hn)).1 "REVENUE"
  exact ⟨hresolve, data, data', done, done', hdata, hdata', hdone, hdone', halike⟩

end Tabular
