import Tabular.Proofs.Grouping.Partition

/-!
# Grouped rows

A grouped row is written in three layers: the first row of its group if other columns are
kept, the group columns, and the aggregates over them. Outputs that are distinct and no
group columns leave each layer as it was written (`groupBy_partitions`).
-/
namespace Tabular

section
variable {config : GroupConfig} {g : Group} {c : String}

/-- Columns that no aggregate is written under are those below the aggregates. -/
theorem GroupConfig.get?_row_of_ne (h : ∀ a ∈ config.aggregates, a.outputColumn ≠ c) :
    (config.row g).get? c =
      ((if config.keepOthers then g.first else Row.empty).copy g.first
        config.groupColumns).get? c :=
  Row.get?_foldl_insert_of_ne AggregateConfig.outputColumn _ h _

/-- Aggregates of one output agree if they are the same. -/
theorem GroupConfig.get?_row_output {a : AggregateConfig} (ha : a ∈ config.aggregates)
    (h : ∀ b ∈ config.aggregates, b.outputColumn = a.outputColumn → b = a) :
    (config.row g).get? a.outputColumn = some (.ofValue (a.evaluate g.rows)) :=
  Row.get?_foldl_insert AggregateConfig.outputColumn (fun a => .ofValue (a.evaluate g.rows)) ha
    (fun b hb he => by rw [h b hb he]) _

/-- Group columns are kept where no aggregate is written. -/
theorem GroupConfig.get?_row_group (hc : c ∈ config.groupColumns)
    (h : ∀ a ∈ config.aggregates, a.outputColumn ≠ c) :
    (config.row g).get? c = some (g.first.cell c) := by
  rw [get?_row_of_ne h]
  exact Row.carries_copy _ g.first config.groupColumns c hc

theorem GroupConfig.carries_row
    (hfree : ∀ a ∈ config.aggregates, a.outputColumn ∉ config.groupColumns) :
    (config.row g).Carries g.first config.groupColumns := by
  intro c hc
  refine get?_row_group hc fun a ha he => ?_
  exact hfree a ha (he ▸ hc)

theorem GroupConfig.get?_row_other (hc : c ∉ config.groupColumns)
    (h : ∀ a ∈ config.aggregates, a.outputColumn ≠ c) :
    (config.row g).get? c = if config.keepOthers then g.first.get? c else none := by
  rw [get?_row_of_ne h, Row.get?_copy_of_not_mem hc]
  split
  · rfl
  · rfl

end

/-- Grouping has one row for each key of the rows, in the order in which the keys first
occur. Under the group columns it has the cells of the first row with that key, under each
output the aggregate over all rows with that key in order, and of other columns those of
the first row if they are kept, and none else. -/
theorem groupBy_partitions (rows : Dataset) (config : GroupConfig)
    (houtputs : (config.aggregates.map AggregateConfig.outputColumn).Nodup)
    (hfree : ∀ a ∈ config.aggregates, a.outputColumn ∉ config.groupColumns) :
    (∀ a b : Row, a.groupKey config.groupColumns = b.groupKey config.groupColumns ↔
      a.SameKey config.groupColumns b) ∧
    FirstOccurrences (rows.map (·.groupKey config.groupColumns))
      ((groupBy rows config).map (·.groupKey config.groupColumns)) ∧
    ∀ out ∈ groupBy rows config, ∃ first others,
      rows.filter (fun row => row.groupKey config.groupColumns ==
        out.groupKey config.groupColumns) = first :: others ∧
      out.Carries first config.groupColumns ∧
      (∀ a ∈ config.aggregates, out.get? a.outputColumn =
        some (.ofValue (Aggregate.ofRows (first :: others) a.column a.kind a.percentile?))) ∧
      ∀ c, c ∉ config.groupColumns → (∀ a ∈ config.aggregates, a.outputColumn ≠ c) →
        out.get? c = if config.keepOthers then first.get? c else none := by
  refine ⟨fun _ _ => groupKey_eq_iff, ?_, ?_⟩
  · exact firstOccurrences_groups fun g _ => GroupConfig.carries_row hfree
  · intro out hout
    obtain ⟨g, hg, rfl⟩ := List.mem_map.mp hout
    have hcarries := GroupConfig.carries_row (g := g) hfree
    have hsame : ∀ a ∈ config.aggregates, ∀ b ∈ config.aggregates,
        b.outputColumn = a.outputColumn → b = a := fun a ha b hb he =>
      List.inj_on_of_nodup_map houtputs hb ha he
    refine ⟨g.first, g.others, ?_, hcarries, ?_, ?_⟩
    · rw [hcarries.groupKey]
      exact rows_of_mem_partition hg
    · intro a ha
      exact GroupConfig.get?_row_output ha (hsame a ha)
    · intro c hc hother
      exact GroupConfig.get?_row_other hc hother

/-- A null and a missing group cell make one group, and an empty text makes another. -/
theorem groupBy_null_and_blank :
    let rows := [Row.ofList [("Region", .null), ("v", .number 1.0)],
      Row.ofList [("v", .number 2.0)], Row.ofList [("Region", .text ""), ("v", .number 4.0)]]
    let config : GroupConfig := { groupColumns := ["Region"], aggregates := [⟨"v", .sum, none, none⟩] }
    (config.aggregates.map AggregateConfig.outputColumn).Nodup ∧
    (∀ a ∈ config.aggregates, a.outputColumn ∉ config.groupColumns) ∧
    FirstOccurrences [[none], [none], [some ""]]
      ((groupBy rows config).map (·.groupKey ["Region"])) := by
  intro rows config
  have houtputs : (config.aggregates.map AggregateConfig.outputColumn).Nodup := by decide
  have hfree : ∀ a ∈ config.aggregates, a.outputColumn ∉ config.groupColumns := by decide
  have hkeys : rows.map (·.groupKey ["Region"]) = [[none], [none], [some ""]] := by decide
  exact ⟨houtputs, hfree, hkeys ▸ (groupBy_partitions rows config houtputs hfree).2.1⟩

end Tabular
