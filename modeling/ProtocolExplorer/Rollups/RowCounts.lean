import ProtocolExplorer.Rollups.CrashSafety
import ProtocolExplorer.Rollups.ServedColumns

/-!
# The count column of a daily table

Every daily table counts its source rows.  The counts of a caught-up table are those of the rows
under a query, without a condition on what else a row adds up.

* `countsFolded_foldBatch` — a batch that cuts no event in two counts every row once;
* `servedColumn_of_countsFolded` — **what a query counts in a caught-up table**;
* `mem_table_of_countsFolded` — the keys of a caught-up table are those of its source rows.
-/

set_option autoImplicit false

namespace ProtocolExplorer.Rollups

open ProtocolExplorer.Lib
open ProtocolExplorer.Store

/-- The count under a key, absent if it has no row. -/
def countOf (n : ℕ) : Option ℤ := if n = 0 then none else some n

theorem merge_countOf (a b : ℕ) :
    Option.merge (· + ·) (countOf a) (countOf b) = countOf (a + b) := by
  unfold countOf
  by_cases noA : a = 0
  · subst noA
    simp
  · by_cases noB : b = 0
    · subst noB
      simp
    · rw [if_neg noA, if_neg noB, if_neg (by omega), Nat.cast_add]
      rfl

/-- An additive function commutes with merging. -/
theorem map_merge_add {A B : Type} [Add A] [Add B] {f : A → B} (additive : ∀ a b, f (a + b) = f a + f b)
    (a b : Option A) :
    (Option.merge (· + ·) a b).map f = Option.merge (· + ·) (a.map f) (b.map f) := by
  cases a <;> cases b <;> simp [additive]

/-- The counts under some keys add up to the rows with one of these keys. -/
theorem sum_countP_eq {Row Key : Type} [DecidableEq Key] (keyOf : Row → Key) (keys : Finset Key)
    (rows : List Row) :
    ∑ key ∈ keys, rows.countP (fun row => decide (keyOf row = key)) =
      rows.countP fun row => decide (keyOf row ∈ keys) := by
  induction rows with
  | nil => simp
  | cons row rest inductionHypothesis =>
      simp only [List.countP_cons, Finset.sum_add_distrib, inductionHypothesis,
        decide_eq_true_eq, Finset.sum_ite_eq]

namespace DailyRollup

variable {Row Key Label Sums Stored : Type} [AddCommMonoid Sums] [AddCommMonoid Stored]
  [DecidableEq Key] (r : DailyRollup Row Key Label Sums Stored) (includeTentative : Bool)

/-- The rows under a key. -/
def rowCount (rows : List Row) (key : Key) : ℕ := rows.countP fun row => decide (r.keyOf row = key)

/-- The count column under a key. -/
def storedRowCount (db : Db) (key : Key) : Option ℤ :=
  ((r.table db).lookup key).map fun stored => r.storedCount stored.sums

/-- Every key counts its rows up to the checkpoint. -/
def CountsFolded (db : Db) : Prop :=
  ∀ key, r.storedRowCount db key =
    countOf (r.rowCount (r.foldedRows includeTentative db) key)

variable {r includeTentative} {db db' : Db} {limit : ℕ}

/-- A step that changes nothing up to the checkpoint keeps the counts. -/
theorem CountsFolded.of_unchanged (counts : r.CountsFolded includeTentative db)
    (table : r.table db' = r.table db)
    (rows : r.foldedRows includeTentative db' = r.foldedRows includeTentative db) :
    r.CountsFolded includeTentative db' := by
  intro key
  rw [storedRowCount, table, rows]
  exact counts key

theorem rowCount_append (first second : List Row) (key : Key) :
    r.rowCount (first ++ second) key = r.rowCount first key + r.rowCount second key :=
  List.countP_append

theorem length_entriesOf (tables : SourceTables) (marked : List (Row × List Label)) (key : Key) :
    (entriesOf key (r.entries tables marked)).length =
      r.rowCount (marked.map Prod.fst) key := by
  rw [entriesOf, ← List.countP_eq_length_filter, entries, List.countP_map, rowCount,
    List.countP_map]
  rfl

/-- What entries count under a key. -/
theorem count_rebuild (tables : SourceTables) (marked : List (Row × List Label)) (key : Key) :
    ((rebuild key (r.entries tables marked)).map (Total.map r.store)).map
        (fun stored => r.storedCount stored.sums) =
      countOf (r.rowCount (marked.map Prod.fst) key) := by
  unfold rebuild countOf
  rw [← length_entriesOf tables marked key]
  by_cases nothing : entriesOf key (r.entries tables marked) = []
  · rw [if_pos nothing, if_pos (List.length_eq_zero_iff.mpr nothing)]
    rfl
  · rw [if_neg nothing, if_neg (mt List.length_eq_zero_iff.mp nothing)]
    exact congrArg some ((r.storedCount_store _).trans (count_total_entriesOf ..))

section Batches

variable [DecidableEq Label]

/-- What a batch counts under a key, -/
theorem count_batchEntries (tables : SourceTables) (rows : List Row) (key : Key) :
    ((rebuild key (r.batchEntries tables rows)).map (Total.map r.store)).map
        (fun stored => r.storedCount stored.sums) = countOf (r.rowCount rows key) := by
  rw [batchEntries, count_rebuild, map_fst_markFirst]

/-- and what a rebuild counts. -/
theorem count_rebuildEntries (tables : SourceTables) (rows : List Row) (key : Key) :
    ((rebuild key (r.rebuildEntries tables rows)).map (Total.map r.store)).map
        (fun stored => r.storedCount stored.sums) = countOf (r.rowCount rows key) := by
  rw [rebuildEntries, count_rebuild, map_fst_markFirst]

/-- A batch adds its rows to the counts. -/
theorem storedRowCount_foldBatch (limit : ℕ) (db : Db) (key : Key) :
    r.storedRowCount (r.foldBatch includeTentative limit db) key =
      Option.merge (· + ·) (r.storedRowCount db key)
        (countOf (r.rowCount (r.fetchRows includeTentative limit db) key)) := by
  have additive : ∀ a b : Total Stored, r.storedCount (a + b).sums =
      r.storedCount a.sums + r.storedCount b.sums := fun a b => map_add r.storedCount _ _
  rw [storedRowCount, lookup_foldBatch, map_merge_add additive, count_batchEntries]
  rfl

/-- **A batch that cuts no event in two counts every row once.** -/
theorem countsFolded_foldBatch (counts : r.CountsFolded includeTentative db)
    (whole : r.EndsBetweenEvents includeTentative limit db)
    (positive : ∀ row ∈ r.sourceRows includeTentative db.sourceTables, 0 < r.eventId row) :
    r.CountsFolded includeTentative (r.foldBatch includeTentative limit db) := by
  intro key
  rw [storedRowCount_foldBatch, foldedRows_foldBatch whole positive, rowCount_append,
    ← merge_countOf, ← counts key]

end Batches

/-! ## Caught-up tables -/

section CaughtUp

theorem countsFolded_caughtUp (counts : r.CountsFolded includeTentative db)
    (caughtUp : r.CaughtUp includeTentative db) (key : Key) : r.storedRowCount db key =
      countOf (r.rowCount (r.sourceRows includeTentative db.sourceTables) key) := by
  rw [CaughtUp] at caughtUp
  rw [counts key, ← foldedRows_append_pendingRows, caughtUp, List.append_nil]

/-- **The keys of a caught-up table are those of its source rows.** -/
theorem mem_table_of_countsFolded (counts : r.CountsFolded includeTentative db)
    (caughtUp : r.CaughtUp includeTentative db) {key : Key} : key ∈ r.table db ↔
      ∃ row ∈ r.sourceRows includeTentative db.sourceTables, r.keyOf row = key := by
  have counted := countsFolded_caughtUp counts caughtUp key
  have some_row : (∃ row ∈ r.sourceRows includeTentative db.sourceTables, r.keyOf row = key) ↔
      r.rowCount (r.sourceRows includeTentative db.sourceTables) key ≠ 0 := by
    rw [rowCount, ← Nat.pos_iff_ne_zero, List.countP_pos_iff]
    simp only [decide_eq_true_eq]
  rw [some_row, ← Finmap.lookup_isSome, ← Option.isSome_map, ← storedRowCount, counted, countOf]
  split
  · next zero => simp [zero]
  · next nonzero => simp [nonzero]

/-- **What a query counts in a caught-up table.** -/
theorem servedColumn_of_countsFolded (counts : r.CountsFolded includeTentative db)
    (caughtUp : r.CaughtUp includeTentative db) (reads : Key → Bool) :
    r.servedColumn r.storedCount reads db =
      (r.servedRows includeTentative reads db.sourceTables).length := by
  have cells : ∀ key ∈ (r.table db).keys.filter fun key => reads key = true,
      (((r.table db).lookup key).map fun stored => r.storedCount stored.sums).getD 0 =
        (r.rowCount (r.sourceRows includeTentative db.sourceTables) key : ℤ) := by
    intro key _
    have counted := countsFolded_caughtUp counts caughtUp key
    rw [storedRowCount] at counted
    rw [counted, countOf]
    split
    · next zero => rw [zero, Option.getD_none, Nat.cast_zero]
    · rfl
  rw [servedColumn, Finset.sum_congr rfl cells, ← Nat.cast_sum]
  unfold rowCount
  rw [sum_countP_eq, servedRows, ← List.countP_eq_length_filter]
  refine congrArg Nat.cast (List.countP_congr fun row source => ?_)
  have stored : r.keyOf row ∈ r.table db :=
    (mem_table_of_countsFolded counts caughtUp).mpr ⟨row, source, rfl⟩
  simp [Finmap.mem_keys.mpr stored]

end CaughtUp

end DailyRollup

end ProtocolExplorer.Rollups
