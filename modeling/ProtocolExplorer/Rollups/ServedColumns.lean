import ProtocolExplorer.Lib.CountedOnce
import ProtocolExplorer.Rollups.Incremental
import ProtocolExplorer.Rollups.Writers

/-!
# Sums over the daily tables

The API adds up a column of a daily table over the keys a query selects.  In a complete table the
sum is that of the source rows under these keys, stored key by key.

* `servedColumn_of_rebuilt`, `servedColumn_of_complete` — **what a query adds up**;
* `complete_rebuildAll` — rebuilding every key completes a table.
-/

set_option autoImplicit false

namespace ProtocolExplorer.Rollups

open ProtocolExplorer.Lib
open ProtocolExplorer.Store

namespace DailyRollup

variable {Row Key Label Sums Stored : Type} [AddCommMonoid Sums] [AddCommMonoid Stored]
  [DecidableEq Key] (r : DailyRollup Row Key Label Sums Stored) (includeTentative : Bool)

/-- `SELECT SUM(column) … WHERE …` on the table. -/
def servedColumn {B : Type} [AddCommMonoid B] (column : Stored → B) (reads : Key → Bool) (db : Db) :
    B :=
  ∑ key ∈ (r.table db).keys.filter fun key => reads key = true,
    (((r.table db).lookup key).map fun stored => column stored.sums).getD 0

/-- The source rows under the keys of a query. -/
def servedRows (reads : Key → Bool) (tables : SourceTables) : List Row :=
  (r.sourceRows includeTentative tables).filter fun row => reads (r.keyOf row)

/-- A column of a summed row is the sum of the column. -/
theorem map_servedColumn {B C : Type} [AddCommMonoid B] [AddCommMonoid C] (part : B →+ C)
    (column : Stored → B) (reads : Key → Bool) (db : Db) :
    part (r.servedColumn column reads db) =
      r.servedColumn (fun stored => part (column stored)) reads db := by
  rw [servedColumn, map_sum]
  refine Finset.sum_congr rfl fun key _ => ?_
  cases (r.table db).lookup key with
  | none => exact map_zero part
  | some stored => rfl

variable [DecidableEq Label]

/-- The rows of the entries of a rebuild. -/
theorem map_fst_markFirst {prior : Row → Label → Bool} (labelsOf : Row → List Label)
    (seen : List Label) (rows : List Row) :
    (markFirst labelsOf prior seen rows).map Prod.fst = rows := by
  induction rows generalizing seen with
  | nil => rfl
  | cons row rest inductionHypothesis =>
      rw [markFirst, List.map_cons, inductionHypothesis]

variable {r includeTentative} {A B : Type} [AddCommMonoid A] [AddCommMonoid B] {db : Db}

/-- A summed column of a rebuilt key. -/
theorem column_rebuild {tables : SourceTables} (column : Sums →+ A) {share : Row → A}
    (shares : ∀ row new, column (r.sums tables row new) = share row) {rows : List Row} {key : Key}
    {sum : Total Sums} (rebuilt : rebuild key (r.rebuildEntries tables rows) = some sum) :
    column sum.sums = shareOfKey r.keyOf share rows key := by
  unfold rebuild at rebuilt
  split at rebuilt
  · cases rebuilt
  · cases rebuilt
    have again : (markFirst r.labelsOf (fun _ _ => false) [] rows).map Prod.fst = rows :=
      map_fst_markFirst ..
    rw [map_total_sums, shareOfKey]
    conv_rhs => rw [← again]
    rw [List.filter_map, List.map_map, entriesOf, rebuildEntries, entries, List.filter_map,
      List.map_map]
    exact congrArg List.sum (List.map_congr_left fun marked _ => shares marked.1 marked.2)

/-- A key is rebuilt exactly if it has rows. -/
theorem rebuild_eq_none_iff {tables : SourceTables} {rows : List Row} {key : Key} :
    rebuild key (r.rebuildEntries tables rows) = none ↔ ∀ row ∈ rows, r.keyOf row ≠ key := by
  have keys : (r.rebuildEntries tables rows).map Entry.key = rows.map r.keyOf := by
    have again : (markFirst r.labelsOf (fun _ _ => false) [] rows).map Prod.fst = rows :=
      map_fst_markFirst ..
    conv_rhs => rw [← again]
    rw [rebuildEntries, entries, List.map_map, List.map_map]
    rfl
  have listed : key ∈ keysOf (r.rebuildEntries tables rows) ↔ ∃ row ∈ rows, r.keyOf row = key := by
    rw [keysOf, List.mem_dedup, keys, List.mem_map]
  unfold rebuild
  rw [mem_keysOf] at listed
  split
  · next empty =>
      refine iff_of_true rfl fun row member same => ?_
      exact listed.mpr ⟨row, member, same⟩ empty
  · next nonempty =>
      refine iff_of_false (fun absurd => by cases absurd) fun none => ?_
      obtain ⟨row, member, same⟩ := listed.mp nonempty
      exact none row member same

/-- A key that holds the fold of some rows is stored exactly if it has some. -/
theorem mem_keys_of_rebuilt {tables : SourceTables} {rows : List Row} {key : Key}
    (rebuilt : (r.table db).lookup key =
      (rebuild key (r.rebuildEntries tables rows)).map (Total.map r.store)) :
    key ∈ (r.table db).keys ↔ ∃ row ∈ rows, r.keyOf row = key := by
  rw [Finmap.mem_keys, ← not_iff_not, ← Finmap.lookup_eq_none, rebuilt, Option.map_eq_none_iff,
    rebuild_eq_none_iff]
  push_neg
  rfl

/-- **The sum of a column over keys that hold the fold of some rows is that of these rows**,
converted key by key. -/
theorem servedColumn_of_rebuilt {rows : List Row} {reads : Key → Bool}
    (rebuilt : ∀ key, reads key = true → (r.table db).lookup key =
      (rebuild key (r.rebuildEntries db.sourceTables rows)).map (Total.map r.store))
    (column : Sums →+ A) (storedColumn : Stored → B) (convert : A → B) (zero : convert 0 = 0)
    (stores : ∀ sums, storedColumn (r.store sums) = convert (column sums)) {share : Row → A}
    (shares : ∀ row new, column (r.sums db.sourceTables row new) = share row) :
    r.servedColumn storedColumn reads db =
      keyedSum convert r.keyOf share (rows.filter fun row => reads (r.keyOf row)) := by
  have known : ∀ row ∈ rows.filter fun row => reads (r.keyOf row),
      r.keyOf row ∈ (r.table db).keys.filter fun key => reads key = true := by
    intro row member
    obtain ⟨source, read⟩ := List.mem_filter.mp member
    exact Finset.mem_filter.mpr
      ⟨(mem_keys_of_rebuilt (rebuilt (r.keyOf row) read)).mpr ⟨row, source, rfl⟩, read⟩
  rw [keyedSum_eq_sum zero known]
  refine Finset.sum_congr rfl fun key selected => ?_
  obtain ⟨stored, read⟩ := Finset.mem_filter.mp selected
  obtain ⟨sum, found⟩ := Finmap.mem_iff.mp (Finmap.mem_keys.mp stored)
  have folded := rebuilt key read
  rw [found] at folded
  obtain ⟨exactly, aggregated, rfl⟩ := Option.map_eq_some_iff.mp folded.symm
  have own : shareOfKey r.keyOf share (rows.filter fun row => reads (r.keyOf row)) key =
      shareOfKey r.keyOf share rows key := by
    unfold shareOfKey
    rw [List.filter_filter]
    refine congrArg (fun rows => (rows.map share).sum) (List.filter_congr fun row _ => ?_)
    by_cases same : r.keyOf row = key
    · rw [same, read, Bool.and_true]
    · simp [same]
  rw [found, Option.map_some, Option.getD_some, own, ← column_rebuild column shares aggregated]
  exact stores exactly.sums

/-- **The sum of a column over a complete table is that of the source rows**, converted key by
key. -/
theorem servedColumn_of_complete (complete : r.Complete includeTentative db) (column : Sums →+ A)
    (storedColumn : Stored → B) (convert : A → B) (zero : convert 0 = 0)
    (stores : ∀ sums, storedColumn (r.store sums) = convert (column sums)) {share : Row → A}
    (shares : ∀ row new, column (r.sums db.sourceTables row new) = share row)
    (reads : Key → Bool) :
    r.servedColumn storedColumn reads db =
      keyedSum convert r.keyOf share (r.servedRows includeTentative reads db.sourceTables) :=
  servedColumn_of_rebuilt (fun key _ => by rw [complete key, rebuildAggregateForKey_eq]) column
    storedColumn convert zero stores shares

/-- A key is rebuilt exactly if it has source rows. -/
theorem rebuildAggregateForKey_eq_none {tables : SourceTables} {key : Key} :
    r.rebuildAggregateForKey includeTentative tables key = none ↔
      ∀ row ∈ r.sourceRows includeTentative tables, r.keyOf row ≠ key := by
  rw [rebuildAggregateForKey_eq, rebuild_eq_none_iff]

/-- Every key of the source rows, rebuilt into an empty table. -/
def rebuildAll (r : DailyRollup Row Key Label Sums Stored) (includeTentative : Bool) (db : Db) :
    Db :=
  r.rebuildKeys includeTentative
    ((r.sourceRows includeTentative db.sourceTables).map r.keyOf).toFinset (r.withTable ∅ db)

/-- **A table of which every key has been rebuilt is complete.** -/
theorem complete_rebuildAll (db : Db) :
    r.Complete includeTentative (r.rebuildAll includeTentative db) := by
  intro key
  have tables : (r.rebuildAll includeTentative db).sourceTables = db.sourceTables := by
    rw [rebuildAll, rebuildKeys, r.sourceTables_withTable, r.sourceTables_withTable]
  rw [tables, rebuildAll, rebuildKeys, r.table_withTable, Table.lookup_rewriteKeys,
    r.sourceTables_withTable, r.table_withTable]
  split
  · rfl
  · next absent =>
      have none : r.rebuildAggregateForKey includeTentative db.sourceTables key = none := by
        refine rebuildAggregateForKey_eq_none.mpr fun row source same => absent ?_
        exact List.mem_toFinset.mpr (List.mem_map.mpr ⟨row, source, same⟩)
      rw [none]
      rfl

end DailyRollup

end ProtocolExplorer.Rollups
