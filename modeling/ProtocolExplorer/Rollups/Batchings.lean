import ProtocolExplorer.Lib.RoundedSums
import ProtocolExplorer.Rollups.BatchBoundary

/-!
# Batchings of a list of rows

The writes of a rollup, given the batches that its rows come in, and what they leave in a column
that is added up exactly within a batch and rounded when it is written.

* `table_iterate_runOnce` — calls of `run_once` write the batches they fetch;
* `MoneyColumn.cell_foldBatches` — what a column holds after some batches.
-/

set_option autoImplicit false

namespace ProtocolExplorer.Rollups

open ProtocolExplorer.Lib
open ProtocolExplorer.Store

namespace DailyRollup

variable {Row Key Label Sums Stored : Type} [AddCommMonoid Sums] [AddCommMonoid Stored]
  [DecidableEq Label] [DecidableEq Key] (r : DailyRollup Row Key Label Sums Stored)
  (includeTentative : Bool) (limit : ℕ)

/-- `upsert_aggregate` for the keys of a batch. -/
def writeBatch (tables : SourceTables) (table : Table Key (Total Stored)) (rows : List Row) :
    Table Key (Total Stored) :=
  addTotals (fun key => (total (entriesOf key (r.batchEntries tables rows))).map r.store)
    (keysOf (r.batchEntries tables rows)) table

/-- The writes of some batches, one after the other. -/
def foldBatches (tables : SourceTables) (batches : List (List Row))
    (start : Table Key (Total Stored)) : Table Key (Total Stored) :=
  batches.foldl (r.writeBatch tables) start

/-- The batches that some calls of `run_once` fetch. -/
def batchesBy : ℕ → Db → List (List Row)
  | 0, _ => []
  | calls + 1, db =>
      r.fetchRows includeTentative limit (r.processReorgMutations includeTentative db) ::
        batchesBy calls (r.runOnce includeTentative limit db)

variable {r includeTentative limit} {db : Db}

theorem flatten_batchesBy (calls : ℕ) (db : Db) :
    (r.batchesBy includeTentative limit calls db).flatten =
      r.foldedBy includeTentative limit calls db := by
  induction calls generalizing db with
  | zero => rfl
  | succ calls inductionHypothesis =>
      rw [batchesBy, foldedBy, List.flatten_cons, inductionHypothesis]

theorem table_foldBatch (limit : ℕ) (db : Db) :
    r.table (r.foldBatch includeTentative limit db) =
      r.writeBatch db.sourceTables (r.table db) (r.fetchRows includeTentative limit db) := by
  rw [foldBatch_eq, Db.advanceCheckpoint, r.table_congr, upsertBatch, r.table_withTable]
  rfl

/-- Calls write the batches they fetch. -/
theorem table_iterate_runOnce (calls : ℕ) (done : r.pendingMutations db = []) :
    r.table ((r.runOnce includeTentative limit)^[calls] db) =
      r.foldBatches db.sourceTables (r.batchesBy includeTentative limit calls db) (r.table db) := by
  induction calls generalizing db with
  | zero => rfl
  | succ calls inductionHypothesis =>
      have after : r.pendingMutations (r.runOnce includeTentative limit db) = [] := by
        rw [runOnce, pendingMutations_foldBatch]
        exact r.pendingMutations_processReorgMutations ..
      rw [Function.iterate_succ_apply, inductionHypothesis after, sourceTables_runOnce, batchesBy,
        foldBatches, foldBatches, List.foldl_cons, runOnce, r.processReorgMutations_of_none _ done,
        table_foldBatch]

end DailyRollup

/-! ## Columns of money -/

/-- A column of a daily table that adds up an amount of each row. -/
structure MoneyColumn {Row Key Label Sums Stored : Type} [AddCommMonoid Sums]
    [AddCommMonoid Stored] (r : DailyRollup Row Key Label Sums Stored) where
  stored : Stored →+ Numeric
  exact : Sums →+ ℚ
  value : SourceTables → Row → ℚ
  /-- It is rounded when it is written, -/
  stored_store : ∀ sums, stored (r.store sums) = Decimal.ofRat (exact sums)
  /-- and the amount of a row does not depend on what the row counts for the first time. -/
  exact_sums : ∀ tables row new, exact (r.sums tables row new) = value tables row

namespace MoneyColumn

variable {Row Key Label Sums Stored : Type} [AddCommMonoid Sums] [AddCommMonoid Stored]
  [DecidableEq Label] [DecidableEq Key] {r : DailyRollup Row Key Label Sums Stored}
  (column : MoneyColumn r) (tables : SourceTables)

/-- The column under a key. -/
def cell (table : Table Key (Total Stored)) (key : Key) : Option Numeric :=
  (table.lookup key).map fun stored => column.stored stored.sums

/-- The amount of a row under a key. -/
def valueUnder (key : Key) (row : Row) : ℚ :=
  if r.keyOf row = key then column.value tables row else 0

/-- Some row of a batch has the key. -/
def Touches (r : DailyRollup Row Key Label Sums Stored) (rows : List Row) (key : Key) : Prop :=
  ∃ row ∈ rows, r.keyOf row = key

instance (rows : List Row) (key : Key) : Decidable (Touches r rows key) :=
  inferInstanceAs (Decidable (∃ row ∈ rows, r.keyOf row = key))

variable {column tables}

omit [DecidableEq Label] in
theorem sum_valueUnder_of_not_touches {rows : List Row} {key : Key}
    (untouched : ¬ Touches r rows key) : (rows.map (column.valueUnder tables key)).sum = 0 := by
  refine List.sum_eq_zero fun amount member => ?_
  obtain ⟨row, inside, rfl⟩ := List.mem_map.mp member
  exact if_neg fun same => untouched ⟨row, inside, same⟩

omit [DecidableEq Label] in
/-- The exact total of a key. -/
theorem exact_total (marked : List (Row × List Label)) (key : Key) :
    column.exact (total (entriesOf key (r.entries tables marked))).sums =
      ((marked.map Prod.fst).map (column.valueUnder tables key)).sum := by
  rw [total_sums, map_list_sum]
  induction marked with
  | nil => rfl
  | cons first rest inductionHypothesis =>
      simp only [DailyRollup.entries, List.map_cons, entriesOf, List.filter_cons,
        decide_eq_true_eq, List.sum_cons] at inductionHypothesis ⊢
      rw [← inductionHypothesis, valueUnder]
      split_ifs with same
      · rw [List.map_cons, List.map_cons, List.sum_cons, column.exact_sums]
      · rw [zero_add]

omit [DecidableEq Label] in
theorem storeBatches_of_not_touches {batches : List (List Row)} {key : Key}
    (untouched : ¬ Touches r batches.flatten key) :
    storeBatches (column.valueUnder tables key) 18 batches = 0 := by
  refine List.sum_eq_zero fun amount member => ?_
  obtain ⟨batch, inside, rfl⟩ := List.mem_map.mp member
  have absent : ¬ Touches r batch key := fun touched => untouched <| by
    obtain ⟨row, present, same⟩ := touched
    exact ⟨row, List.mem_flatten.mpr ⟨batch, inside, present⟩, same⟩
  rw [sum_valueUnder_of_not_touches absent, Decimal.ofRat_zero]

theorem mem_keysOf_batchEntries {rows : List Row} {key : Key} :
    key ∈ keysOf (r.batchEntries tables rows) ↔ Touches r rows key := by
  rw [mem_keysOf, ← List.length_pos_iff, DailyRollup.batchEntries, DailyRollup.length_entriesOf,
    DailyRollup.map_fst_markFirst, DailyRollup.rowCount, List.countP_pos_iff, Touches]
  simp only [decide_eq_true_eq]

/-- What a write adds to the column. -/
theorem cell_writeBatch (table : Table Key (Total Stored)) (rows : List Row) (key : Key) :
    column.cell (r.writeBatch tables table rows) key =
      Option.merge (· + ·) (column.cell table key)
        (if Touches r rows key then
          some (Decimal.ofRat (rows.map (column.valueUnder tables key)).sum)
        else none) := by
  have additive : ∀ a b : Total Stored, column.stored (a + b).sums =
      column.stored a.sums + column.stored b.sums := fun a b => map_add column.stored _ _
  have distinct : (keysOf (r.batchEntries tables rows)).Nodup := List.nodup_dedup _
  rw [cell, DailyRollup.writeBatch, lookup_addTotals _ distinct, map_merge_add additive]
  simp only [mem_keysOf_batchEntries]
  split_ifs with touched
  · rw [Option.map_some, Total.map, column.stored_store, DailyRollup.batchEntries, exact_total,
      DailyRollup.map_fst_markFirst]
    rfl
  · rfl

/-- What some writes add to the column. -/
theorem cell_foldBatches (batches : List (List Row)) (start : Table Key (Total Stored)) (key : Key) :
    column.cell (r.foldBatches tables batches start) key =
      Option.merge (· + ·) (column.cell start key)
        (if Touches r batches.flatten key then
          some (storeBatches (column.valueUnder tables key) 18 batches)
        else none) := by
  induction batches generalizing start with
  | nil =>
      rw [if_neg (by simp [Touches])]
      simp [DailyRollup.foldBatches]
  | cons rows rest inductionHypothesis =>
      have whole : Touches r (rows :: rest).flatten key ↔
          Touches r rows key ∨ Touches r rest.flatten key := by
        simp only [Touches, List.flatten_cons, List.mem_append, or_and_right, exists_or]
      rw [DailyRollup.foldBatches, List.foldl_cons, ← DailyRollup.foldBatches, inductionHypothesis,
        cell_writeBatch]
      refine (Std.Associative.assoc ..).trans (congrArg _ ?_)
      by_cases first : Touches r rows key <;> by_cases later : Touches r rest.flatten key
      · rw [if_pos first, if_pos later, if_pos (whole.mpr (Or.inl first)), storeBatches_cons]
        rfl
      · rw [if_pos first, if_neg later, if_pos (whole.mpr (Or.inl first)), storeBatches_cons,
          storeBatches_of_not_touches later, add_zero]
        rfl
      · rw [if_neg first, if_pos later, if_pos (whole.mpr (Or.inr later)), storeBatches_cons,
          sum_valueUnder_of_not_touches first, Decimal.ofRat_zero, zero_add]
        rfl
      · rw [if_neg first, if_neg later, if_neg fun touched => (whole.mp touched).elim first later]
        rfl

/-- What some writes leave in an empty table. -/
theorem cell_foldBatches_empty (batches : List (List Row)) (key : Key) :
    column.cell (r.foldBatches tables batches ∅) key =
      if Touches r batches.flatten key then
        some (storeBatches (column.valueUnder tables key) 18 batches)
      else none := by
  have fresh : column.cell ∅ key = none := by
    rw [cell, Finmap.lookup_empty, Option.map_none]
  rw [cell_foldBatches, fresh]
  split_ifs <;> rfl

end MoneyColumn

end ProtocolExplorer.Rollups
