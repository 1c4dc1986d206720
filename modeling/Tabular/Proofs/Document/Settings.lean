import Tabular.Proofs.Document.Decoder
import Tabular.Proofs.Document.Table

/-!
# Settings written and read again

What a JSON text is read as, a mapping, a request or a configuration, is read again from the
text that is written for it (`settings_roundTrip`), however the first text spelled it. That needs
a lawful codec, and that the doubles that are written are read back.
-/
namespace Tabular
open Decoder

/-- A type that is not supported keeps the name that it was read from, and any other is read
from its own. -/
theorem ChartType.ofName_name (text : String) : ofName (ofName text).name = ofName text := by
  have hsupported : ∀ t ∈ supported, ofName t.name = t := by decide +kernel
  cases hfound : supported.find? (fun t => t.spellings.contains (Text.lower (Text.trim text))) with
  | none =>
    have hkept : ofName text = .unsupported text := by simp only [ofName, hfound, Option.getD_none]
    rw [hkept]
    exact hkept
  | some t =>
    have hmeant : ofName text = t := by simp only [ofName, hfound, Option.getD_some]
    rw [hmeant]
    exact hsupported t (List.mem_of_find?_eq_some hfound)

/-- A whole number is made an integer and then written, which is to write it. -/
theorem map_int (n? : Option Nat) :
    Option.map (fun i : Int => Document.int i) (n? >>= fun n => pure (n : Int)) =
      n?.map fun n : Nat => Document.int n := by
  cases n? <;> rfl

section
variable [Codec] [Codec.IsLawful]

/-! ## Kinds -/

theorem AggregateKind.faithful : Faithful ofDocument toDocument fun _ => True :=
  .named fun kind => by cases kind <;> decide +kernel

theorem MetricKind.faithful : Faithful ofDocument toDocument fun _ => True :=
  .word fun kind => by cases kind <;> decide +kernel

theorem SortOrder.faithful : Faithful ofDocument toDocument fun _ => True :=
  .word fun order => by cases order <;> decide

theorem Formula.Mode.faithful : Faithful ofDocument toDocument fun _ => True :=
  .word fun mode => by cases mode <;> decide

theorem ChartType.faithful : Faithful ofDocument toDocument fun t => ofName t.name = t where
  yields _ h := by
    obtain ⟨s, -, rfl⟩ := map_eq_ok.mp h
    exact ofName_name s
  writable _ := .text _
  reads ht := map_eq_ok.mpr ⟨_, (Codec.IsLawful.text_eq_ok (.text _)).mpr rfl, ht⟩

/-! ## Configurations -/

/-- The double in the configuration is finite. -/
structure AggregateConfig.IsWritable (c : AggregateConfig) : Prop where
  percentile : ∀ p ∈ c.percentile?, p.isFinite

theorem AggregateConfig.faithful : Faithful ofDocument toDocument IsWritable := by
  refine .record ⟨by simp [fields], by simp [fields]⟩ ⟨fun p hp => (by cases hp)⟩ ?_
    fun {c} hc => ?_
  · simp only [fields, List.forall_mem_cons]
    exact ⟨Field.keeps_required .text fun h _ => { h with },
      Field.keeps_required AggregateKind.faithful fun h _ => { h with },
      Field.keeps_option .text fun h _ => { h with },
      Field.keeps_option .float fun _ hp => ⟨hp⟩, List.forall_mem_nil _⟩
  · refine ⟨_, congrArg Document.record (List.append_nil _).symm, ?_⟩
    simp only [List.append_assoc, List.cons_append, List.nil_append]
    exact .required .text trivial <| .required AggregateKind.faithful trivial <|
      .option .text (fun _ h => by cases h) (fun _ _ => trivial) rfl <|
      .option .float (fun _ h => by cases h) hc.percentile rfl .done

structure GroupConfig.IsWritable (c : GroupConfig) : Prop where
  aggregates : ∀ a ∈ c.aggregates, a.IsWritable

theorem GroupConfig.faithful : Faithful ofDocument toDocument IsWritable := by
  refine .record ⟨by simp [fields], by simp [fields]⟩ ⟨List.forall_mem_nil _⟩ ?_ fun {c} hc => ?_
  · simp only [fields, List.forall_mem_cons]
    exact ⟨Field.keeps_required Faithful.text.list fun h _ => { h with },
      Field.keeps_optional AggregateConfig.faithful.list fun _ ha => ⟨ha⟩,
      Field.keeps_optional .bool fun h _ => { h with }, List.forall_mem_nil _⟩
  · exact ⟨_, rfl, .required Faithful.text.list (fun _ _ => trivial) <|
      .optional AggregateConfig.faithful.list hc.aggregates <| .optional .bool trivial .done⟩

structure PivotConfig.IsWritable (c : PivotConfig) : Prop where
  fill : c.fill.IsWritable

theorem PivotConfig.faithful : Faithful ofDocument toDocument IsWritable := by
  refine .record ⟨by simp [fields], by simp [fields]⟩ ⟨trivial⟩ ?_ fun {c} hc => ?_
  · simp only [fields, List.forall_mem_cons]
    exact ⟨Field.keeps_required Faithful.text.list fun h _ => { h with },
      Field.keeps_required Faithful.text.list fun h _ => { h with },
      Field.keeps_required .text fun h _ => { h with },
      Field.keeps_optional AggregateKind.faithful fun h _ => { h with },
      Field.keeps_optional Cell.faithful fun _ hfill => ⟨hfill⟩, List.forall_mem_nil _⟩
  · exact ⟨_, rfl, .required Faithful.text.list (fun _ _ => trivial) <|
      .required Faithful.text.list (fun _ _ => trivial) <| .required .text trivial <|
      .optional AggregateKind.faithful trivial <| .optional Cell.faithful hc.fill .done⟩

/-- A whole number in the configuration has 64 bits. -/
structure MetricConfig.IsWritable (c : MetricConfig) : Prop where
  window : ∀ n ∈ c.window?, n < 2 ^ 64
  periods : ∀ n ∈ c.periods?, n < 2 ^ 64

theorem MetricConfig.faithful : Faithful ofDocument toDocument IsWritable := by
  refine .record ⟨by simp [fields], by simp [fields]⟩
    ⟨fun n hn => (by cases hn), fun n hn => (by cases hn)⟩ ?_ fun {c} hc => ?_
  · simp only [fields, List.forall_mem_cons]
    exact ⟨Field.keeps_required MetricKind.faithful fun h _ => { h with },
      Field.keeps_required .text fun h _ => { h with },
      Field.keeps_option .text fun h _ => { h with },
      Field.keeps_option .text fun h _ => { h with },
      Field.keeps_option .text fun h _ => { h with },
      Field.keeps_option .nat fun h hn => { h with window := hn },
      Field.keeps_option .nat fun h hn => { h with periods := hn }, List.forall_mem_nil _⟩
  · refine ⟨_, congrArg Document.record (List.append_nil _).symm, ?_⟩
    simp only [List.append_assoc, List.cons_append, List.nil_append, map_int]
    exact .required MetricKind.faithful trivial <| .required .text trivial <|
      .option .text (fun _ h => by cases h) (fun _ _ => trivial) rfl <|
      .option .text (fun _ h => by cases h) (fun _ _ => trivial) rfl <|
      .option .text (fun _ h => by cases h) (fun _ _ => trivial) rfl <|
      .option .nat (fun _ h => by cases h) hc.window rfl <|
      .option .nat (fun _ h => by cases h) hc.periods rfl .done

/-! ## Mappings and requests -/

theorem ChartMapping.oneOrMany_list (texts : List String) :
    oneOrMany (.list (texts.map .text)) = .ok texts := by
  have hlist : (Document.list (texts.map .text)).IsWritable :=
    Faithful.text.list.writable fun _ _ => trivial
  refine Faithful.firstOf_tail hlist.isJson (map_ne_ok fun s hs => ?_) <|
    Faithful.firstOf_head hlist (Faithful.text.list.reads fun _ _ => trivial)
  cases (Codec.IsLawful.text_eq_ok hlist.isJson).mp hs

/-- References that are not blank are read again, and blank ones are never read. -/
theorem ChartMapping.faithful_references :
    Faithful references (fun texts => .list (texts.map .text))
      fun texts => ∀ s ∈ texts, Text.isBlankText s = false where
  yields _ h := by
    obtain ⟨texts, -, rfl⟩ := map_eq_ok.mp h
    intro s hs
    simpa using (List.mem_filter.mp hs).2
  writable _ := Faithful.text.list.writable fun _ _ => trivial
  reads {texts} htexts := by
    have hlist : (Document.list (texts.map .text)).IsWritable :=
      Faithful.text.list.writable fun _ _ => trivial
    refine map_eq_ok.mpr ⟨some texts, ?_, ?_⟩
    · rw [Codec.IsLawful.option_of_ne hlist.isJson (by simp), oneOrMany_list]
      rfl
    · refine List.filter_eq_self.mpr fun s hs => ?_
      simpa using htexts s hs

structure ChartMapping.IsWritable (m : ChartMapping) : Prop where
  yAxis : ∀ s ∈ m.yAxis, Text.isBlankText s = false
  category : ∀ s ∈ m.category, Text.isBlankText s = false
  groupBy : ∀ s ∈ m.groupBy, Text.isBlankText s = false
  limit : ∀ n ∈ m.limit?, n < 2 ^ 64
  percentile : ∀ p ∈ m.percentile?, p.isFinite
  derivedMetrics : ∀ c ∈ m.derivedMetrics, c.IsWritable

omit [Codec] [Codec.IsLawful] in
theorem ChartMapping.isWritable_default : IsWritable {} where
  yAxis := List.forall_mem_nil _
  category := List.forall_mem_nil _
  groupBy := List.forall_mem_nil _
  limit n hn := by cases hn
  percentile p hp := by cases hp
  derivedMetrics := List.forall_mem_nil _

theorem ChartMapping.faithful : Faithful ofDocument toDocument IsWritable := by
  refine .record ⟨by simp [fields], by simp [fields]⟩ isWritable_default ?_ fun {m} hm => ?_
  · simp only [fields, List.forall_mem_cons]
    exact ⟨Field.keeps_option .text fun h _ => { h with },
      Field.keeps_optional faithful_references fun h hs => { h with yAxis := hs },
      Field.keeps_optional faithful_references fun h hs => { h with category := hs },
      Field.keeps_option .text fun h _ => { h with },
      Field.keeps_option .text fun h _ => { h with },
      Field.keeps_option AggregateKind.faithful fun h _ => { h with },
      Field.keeps_optional faithful_references fun h hs => { h with groupBy := hs },
      Field.keeps_option .text fun h _ => { h with },
      Field.keeps_option .text fun h _ => { h with },
      Field.keeps_option Formula.Mode.faithful fun h _ => { h with },
      Field.keeps_option .text fun h _ => { h with },
      Field.keeps_option SortOrder.faithful fun h _ => { h with },
      Field.keeps_option .nat fun h hn => { h with limit := hn },
      Field.keeps_option .float fun h hp => { h with percentile := hp },
      Field.keeps_optional MetricConfig.faithful.list fun h hc => { h with derivedMetrics := hc },
      List.forall_mem_nil _⟩
  · refine ⟨_, congrArg Document.record (List.append_nil _).symm, ?_⟩
    simp only [List.append_assoc, referenceField, map_int]
    exact .option .text (fun _ h => by cases h) (fun _ _ => trivial) rfl <|
      .list faithful_references hm.yAxis rfl <|
      .list faithful_references hm.category rfl <|
      .option .text (fun _ h => by cases h) (fun _ _ => trivial) rfl <|
      .option .text (fun _ h => by cases h) (fun _ _ => trivial) rfl <|
      .option AggregateKind.faithful (fun _ h => by cases h) (fun _ _ => trivial) rfl <|
      .list faithful_references hm.groupBy rfl <|
      .option .text (fun _ h => by cases h) (fun _ _ => trivial) rfl <|
      .option .text (fun _ h => by cases h) (fun _ _ => trivial) rfl <|
      .option Formula.Mode.faithful (fun _ h => by cases h) (fun _ _ => trivial) rfl <|
      .option .text (fun _ h => by cases h) (fun _ _ => trivial) rfl <|
      .option SortOrder.faithful (fun _ h => by cases h) (fun _ _ => trivial) rfl <|
      .option .nat (fun _ h => by cases h) hm.limit rfl <|
      .option .float (fun _ h => by cases h) hm.percentile rfl <|
      .list MetricConfig.faithful.list hm.derivedMetrics rfl .done

structure ChartRequest.IsWritable (r : ChartRequest) : Prop where
  chartType : ChartType.ofName r.chartType.name = r.chartType
  mapping : r.mapping.IsWritable
  data : ∀ rows ∈ r.data?, ∀ row ∈ rows, ∀ e ∈ row.entries, e.2.IsWritable

theorem ChartRequest.faithful : Faithful ofDocument toDocument IsWritable := by
  refine .record ⟨by simp [fields], by simp [fields]⟩
    ⟨by decide +kernel, ChartMapping.isWritable_default, fun rows hr => (by cases hr)⟩ ?_
    fun {r} hr => ?_
  · simp only [fields, List.forall_mem_cons]
    exact ⟨Field.keeps_required ChartType.faithful fun h ht => { h with chartType := ht },
      Field.keeps_optional ChartMapping.faithful fun h hm => { h with mapping := hm },
      Field.keeps_option Dataset.faithful fun h hd => { h with data := hd },
      Field.keeps_option .text fun h _ => { h with }, List.forall_mem_nil _⟩
  · refine ⟨_, congrArg Document.record (List.append_nil _).symm, ?_⟩
    simp only [List.append_assoc, List.cons_append, List.nil_append]
    exact .required ChartType.faithful hr.chartType <|
      .optional ChartMapping.faithful hr.mapping <|
      .option Dataset.faithful (fun _ h => by cases h) hr.data rfl <|
      .option .text (fun _ h => by cases h) (fun _ _ => trivial) rfl .done

end

/-! ## Levels -/

section
variable {n : Nat}
open Document (within_record forall_mem_optional_map forall_mem_optionalList)

theorem AggregateConfig.within_toDocument (c : AggregateConfig) : c.toDocument.Within (n + 1) := by
  simp only [toDocument, within_record, List.forall_mem_append, List.forall_mem_cons,
    forall_mem_optional_map]
  simp [AggregateKind.toDocument]

theorem GroupConfig.within_toDocument (c : GroupConfig) : c.toDocument.Within (n + 3) := by
  simp [toDocument, Document.texts, AggregateConfig.within_toDocument]

theorem Cell.within_toDocument (cell : Cell) : cell.toDocument.Within n := by
  cases cell <;> simp [toDocument]

theorem PivotConfig.within_toDocument (c : PivotConfig) : c.toDocument.Within (n + 2) := by
  simp [toDocument, AggregateKind.toDocument, Document.texts, Cell.within_toDocument]

theorem MetricConfig.within_toDocument (c : MetricConfig) : c.toDocument.Within (n + 1) := by
  simp only [toDocument, within_record, List.forall_mem_append, List.forall_mem_cons,
    forall_mem_optional_map, map_int]
  simp [MetricKind.toDocument]

theorem ChartMapping.within_toDocument (m : ChartMapping) : m.toDocument.Within (n + 3) := by
  simp only [toDocument, within_record, List.forall_mem_append, forall_mem_optional_map, map_int,
    referenceField, forall_mem_optionalList]
  simp [AggregateKind.toDocument, Formula.Mode.toDocument, SortOrder.toDocument,
    MetricConfig.within_toDocument]

theorem Row.within_toDocument (row : Row) : row.toDocument.Within (n + 1) := by
  refine within_record.mpr fun field hfield => ?_
  obtain ⟨e, -, rfl⟩ := List.mem_map.mp hfield
  exact e.2.within_toDocument

theorem Dataset.within_toDocument (rows : Dataset) : (toDocument rows).Within (n + 2) := by
  simp [toDocument, Row.within_toDocument]

theorem ChartRequest.within_toDocument (r : ChartRequest) : r.toDocument.Within (n + 4) := by
  simp only [toDocument, within_record, List.forall_mem_append, List.forall_mem_cons,
    forall_mem_optional_map]
  simp [ChartType.toDocument, ChartMapping.within_toDocument, Dataset.within_toDocument]

end

/-- Mappings, requests and configurations round-trip through JSON, with any codec that is
lawful. -/
theorem settings_roundTrip [Codec] [Codec.IsLawful] :
    RoundTrips ChartMapping.ofDocument ChartMapping.toDocument ∧
      RoundTrips ChartRequest.ofDocument ChartRequest.toDocument ∧
      RoundTrips GroupConfig.ofDocument GroupConfig.toDocument ∧
      RoundTrips PivotConfig.ofDocument PivotConfig.toDocument ∧
      RoundTrips MetricConfig.ofDocument MetricConfig.toDocument ∧
      RoundTrips AggregateConfig.ofDocument AggregateConfig.toDocument :=
  ⟨ChartMapping.faithful.roundTrips fun m => m.within_toDocument,
    ChartRequest.faithful.roundTrips fun r => r.within_toDocument,
    GroupConfig.faithful.roundTrips fun c => c.within_toDocument,
    PivotConfig.faithful.roundTrips fun c => c.within_toDocument,
    MetricConfig.faithful.roundTrips fun c => c.within_toDocument,
    AggregateConfig.faithful.roundTrips fun c => c.within_toDocument⟩

theorem settings_roundTrip_respelled :
    let metric : MetricConfig :=
      { kind := .movingAverage, output := "trend", column? := some "Sales", window? := some 3 }
    let aggregate : AggregateConfig :=
      { column := "Sales", kind := .percentile, percentile? := some 95.5 }
    let mapping : ChartMapping :=
      { yAxis := ["Sales"], category := ["Region", "City"], aggregation? := some .avg,
        formulaMode? := some .rowWise, sortOrder? := some .asc, derivedMetrics := [metric] }
    let request : ChartRequest :=
      { chartType := .scorecard, mapping := { xAxis? := some "Region", yAxis := ["Sales"] },
        data? := some [.ofList [("Note", .null), ("Sales", .number 2)]] }
    let group : GroupConfig := { groupColumns := ["Region"], aggregates := [aggregate] }
    let pivot : PivotConfig :=
      { indexColumns := ["Region"], pivotColumns := [], valueColumn := "Sales",
        kind := .distinct, fill := .number 0 }
    (Format.json.decode ChartMapping.ofDocument
          ("\x7b\"xAxis\": null, \"yAxis\": \"Sales\"," ++
            "\"category\": [\"Region\", \" \", \"City\"], \"aggregation\": \" AVERAGE \"," ++
            "\"formulaMode\": \"row\", \"sortOrder\": \"ascending\"," ++
            "\"derivedMetrics\": [[\"moving_average\", \"trend\", null, null, \"Sales\", 3]]\x7d") =
        .ok mapping ∧ IsReadAgain ChartMapping.ofDocument ChartMapping.toDocument mapping) ∧
      (Format.json.decode ChartRequest.ofDocument
          ("\x7b\"chart\": \" KPI \", \"mapping\": [\"Region\", [\"Sales\"]], \"id\": 7," ++
            "\"data\": [\x7b\"Sales\": 1e1, \"Note\": null, \"Sales\": 2\x7d]\x7d") =
        .ok request ∧ IsReadAgain ChartRequest.ofDocument ChartRequest.toDocument request) ∧
      (Format.json.decode GroupConfig.ofDocument
          "[[\"Region\"], [[\"Sales\", \" Percentile \", null, 95.5]]]" =
        .ok group ∧ IsReadAgain GroupConfig.ofDocument GroupConfig.toDocument group) ∧
      (Format.json.decode PivotConfig.ofDocument
          "[[\"Region\"], [], \"Sales\", \"Count_Distinct\", 0]" =
        .ok pivot ∧ IsReadAgain PivotConfig.ofDocument PivotConfig.toDocument pivot) ∧
      (Format.json.decode MetricConfig.ofDocument
          ("\x7b\"window\": 3, \"type\": \"moving_average\", \"numerator\": null," ++
            "\"column\": \"Sales\", \"alias\": \"trend\"\x7d") =
        .ok metric ∧ IsReadAgain MetricConfig.ofDocument MetricConfig.toDocument metric) ∧
      (Format.json.decode AggregateConfig.ofDocument
          "\x7b\"percentile\": 9.55E+1, \"kind\": \"PERCENTILE\", \"column\": \"Sales\"\x7d" =
        .ok aggregate ∧
        IsReadAgain AggregateConfig.ofDocument AggregateConfig.toDocument aggregate) := by
  obtain ⟨hmapping, hrequest, hgroup, hpivot, hmetric, haggregate⟩ := settings_roundTrip
  exact ⟨hmapping.of_text (by decide +kernel) (by decide +kernel),
    hrequest.of_text (by decide +kernel) (by decide +kernel),
    hgroup.of_text (by decide +kernel) (by decide +kernel),
    hpivot.of_text (by decide +kernel) (by decide +kernel),
    hmetric.of_text (by decide +kernel) (by decide +kernel),
    haggregate.of_text (by decide +kernel) (by decide +kernel)⟩

end Tabular
