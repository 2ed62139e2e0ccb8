import ProtocolExplorer.Rollups.Completeness

/-!
# Stopping a rollup between two statements

`run_once` commits each of its statements: the rewrites of the reorg part, one additive
upsert for each key of a batch, in hash order, and the checkpoint.  It may stop between any
two of them; the next call starts from what the database holds.

* `processReorgMutations_rebuildKeys` — a stop among the rewrites is harmless, they are
  repeated;
* `AheadBy.foldBatch` — what a stop among the upserts has written stays in the table, on
  top of everything that is folded later;
* `exactlyOnce_iff_cutsNoBatch` — **for each of the four rollups, calls that stop anywhere
  and then catch up end in the table of calls that never stop if and only if no call stopped
  after the first upsert of a batch and before its checkpoint**;
* `restart_counts_twice` — a ticket that is counted twice.
-/

set_option autoImplicit false

namespace ProtocolExplorer.Rollups

open ProtocolExplorer.Lib
open ProtocolExplorer.Store

/-- How a call of `run_once` ends: it returns, or it stops with some keys rewritten or some
keys upserted and the checkpoint of that part not yet written. -/
inductive Attempt (Key : Type) where
  | returns
  | stopsRebuilding (rebuilt : Finset Key)
  | stopsUpserting (upserted : List Key)

/-- Stopped after the first upsert of a batch and before its checkpoint. -/
def Attempt.cutsBatch {Key : Type} : Attempt Key → Bool
  | .stopsUpserting (_ :: _) => true
  | _ => false

namespace DailyRollup

variable {Row Key Label Sums Stored : Type} [AddCommMonoid Sums] [AddCommMonoid Stored]

theorem pendingMutations_congr {r : DailyRollup Row Key Label Sums Stored} {db db' : Db}
    (mutations : db'.reorgMutations = db.reorgMutations)
    (sources : db'.sourceTables = db.sourceTables)
    (unmoved : db'.loadCheckpoint (.rollupReorg r.name) =
      db.loadCheckpoint (.rollupReorg r.name)) :
    r.pendingMutations db' = r.pendingMutations db := by
  have events : db'.rawProtocolEvents = db.rawProtocolEvents :=
    congrArg SourceTables.rawProtocolEvents sources
  rw [pendingMutations, pendingMutations, mutations, events, unmoved]

variable [DecidableEq Label] [DecidableEq Key] (r : DailyRollup Row Key Label Sums Stored)
  (includeTentative : Bool) (limit : ℕ)

/-- One call of `run_once`. -/
def attempt (db : Db) : Attempt Key → Option Db
  | .returns => some (r.runOnce includeTentative limit db)
  | .stopsRebuilding rebuilt =>
      if rebuilt ⊆ r.affectedKeys includeTentative db then
        some (r.rebuildKeys includeTentative rebuilt db)
      else none
  | .stopsUpserting upserted =>
      let db := r.processReorgMutations includeTentative db
      let rows := r.fetchRows includeTentative limit db
      if upserted.Nodup ∧ ∀ key ∈ upserted, key ∈ r.batchKeys rows db then
        some (r.upsertBatch rows upserted db)
      else none

/-- Call `run_once` once more than there are source rows. -/
def catchUp (db : Db) : Db :=
  (r.runOnce includeTentative limit)^[(r.sourceRows includeTentative db.sourceTables).length + 1]
    db

/-! ## Stopping among the rewrites -/

variable {r includeTentative limit} {db : Db}

theorem loadCheckpoint_rebuildKeys (keys : Finset Key) (db : Db) (name : CheckpointName) :
    (r.rebuildKeys includeTentative keys db).loadCheckpoint name = db.loadCheckpoint name :=
  congrArg (fun checkpoints => Finmap.lookup name checkpoints) (r.checkpoints_withTable _ db)

theorem sourceTables_rebuildKeys (keys : Finset Key) (db : Db) :
    (r.rebuildKeys includeTentative keys db).sourceTables = db.sourceTables :=
  r.sourceTables_withTable _ db

theorem pendingMutations_rebuildKeys (keys : Finset Key) (db : Db) :
    r.pendingMutations (r.rebuildKeys includeTentative keys db) = r.pendingMutations db :=
  pendingMutations_congr (r.mutations_withTable _ db) (sourceTables_rebuildKeys keys db)
    (loadCheckpoint_rebuildKeys keys db _)

theorem lookup_rebuildKeys (keys : Finset Key) (db : Db) (key : Key) :
    (r.table (r.rebuildKeys includeTentative keys db)).lookup key =
      if key ∈ keys then
        (r.rebuildAggregateForKey includeTentative db.sourceTables key).map (Total.map r.store)
      else (r.table db).lookup key := by
  rw [rebuildKeys, r.table_withTable, Table.lookup_rewriteKeys]

/-- Two rounds of rewrites are one. -/
theorem rebuildKeys_rebuildKeys (first second : Finset Key) (db : Db) :
    r.rebuildKeys includeTentative second (r.rebuildKeys includeTentative first db) =
      r.rebuildKeys includeTentative (first ∪ second) db := by
  rw [rebuildKeys, sourceTables_rebuildKeys, rebuildKeys, r.withTable_withTable,
    r.table_withTable]
  refine congrArg (fun rows => r.withTable rows db) (Finmap.ext_lookup fun key => ?_)
  simp only [Table.lookup_rewriteKeys, Finset.mem_union]
  by_cases earlier : key ∈ first <;> simp [earlier]

/-- A key that has not been rewritten is as affected as before. -/
theorem mem_affectedKeys_rebuildKeys {keys : Finset Key} {key : Key} (untouched : key ∉ keys) :
    key ∈ r.affectedKeys includeTentative (r.rebuildKeys includeTentative keys db) ↔
      key ∈ r.affectedKeys includeTentative db := by
  have stored : (r.table (r.rebuildKeys includeTentative keys db)).lookup key =
      (r.table db).lookup key := by rw [lookup_rebuildKeys, if_neg untouched]
  simp only [affectedKeys, Finset.mem_union, Finset.mem_filter, Finmap.mem_keys,
    ← Finmap.lookup_isSome, stored, pendingMutations_rebuildKeys, sourceTables_rebuildKeys]

/-- **Rewrites are repeated.** -/
theorem processReorgMutations_rebuildKeys {keys : Finset Key}
    (affected : keys ⊆ r.affectedKeys includeTentative db) :
    r.processReorgMutations includeTentative (r.rebuildKeys includeTentative keys db) =
      r.processReorgMutations includeTentative db := by
  unfold processReorgMutations
  rw [pendingMutations_rebuildKeys]
  cases nothing : (r.pendingMutations db).isEmpty with
  | true =>
      -- no key is affected, so none has been rewritten
      have pending : r.pendingMutations db = [] := List.isEmpty_iff.mp nothing
      have none_rewritten : keys = ∅ := by
        refine Finset.subset_empty.mp (affected.trans_eq ?_)
        simp [affectedKeys, pending]
      rw [if_pos rfl, if_pos rfl, none_rewritten]
      exact r.withTable_table db
  | false =>
      have all : keys ∪ r.affectedKeys includeTentative (r.rebuildKeys includeTentative keys db) =
          r.affectedKeys includeTentative db := by
        ext key
        rw [Finset.mem_union]
        by_cases rewritten : key ∈ keys
        · exact iff_of_true (Or.inl rewritten) (affected rewritten)
        · rw [mem_affectedKeys_rebuildKeys rewritten, or_iff_right rewritten]
      have unmoved : r.maxMutationId (r.rebuildKeys includeTentative keys db) =
          r.maxMutationId db := by
        rw [maxMutationId, pendingMutations_rebuildKeys, loadCheckpoint_rebuildKeys]
        rfl
      rw [if_neg Bool.false_ne_true, if_neg Bool.false_ne_true, rebuildKeys_rebuildKeys, all,
        unmoved]

/-- The reorg part leaves no mutation pending. -/
theorem pendingMutations_processReorgMutations (r : DailyRollup Row Key Label Sums Stored)
    (includeTentative : Bool) (db : Db) :
    r.pendingMutations (r.processReorgMutations includeTentative db) = [] := by
  unfold processReorgMutations
  cases nothing : (r.pendingMutations db).isEmpty with
  | true => exact List.isEmpty_iff.mp nothing
  | false =>
      rw [if_neg Bool.false_ne_true]
      refine List.eq_nil_iff_forall_not_mem.mpr fun p pending => ?_
      obtain ⟨start, seen⟩ := foldl_max_le_iff.mp (le_refl (r.maxMutationId db))
      obtain ⟨m, late, joined⟩ := List.mem_flatMap.mp pending
      obtain ⟨stored, past⟩ := List.mem_filter.mp late
      have checkpoint : r.maxMutationId db < m.id := by
        refine lt_of_le_of_lt ?_ (of_decide_eq_true past)
        rw [Db.loadCheckpoint_advanceCheckpoint_self, loadCheckpoint_rebuildKeys, Option.getD_some]
        cases db.loadCheckpoint (.rollupReorg r.name) with
        | none => exact le_refl _
        | some previous => exact le_max_right _ _
      -- then it was pending before and went into the maximum
      have before : p ∈ r.pendingMutations db := by
        have mutations : (r.rebuildKeys includeTentative (r.affectedKeys includeTentative db)
            db).reorgMutations = db.reorgMutations := r.mutations_withTable _ db
        have events : (r.rebuildKeys includeTentative (r.affectedKeys includeTentative db)
            db).rawProtocolEvents = db.rawProtocolEvents :=
          congrArg SourceTables.rawProtocolEvents (r.sourceTables_withTable _ db)
        refine List.mem_flatMap.mpr ⟨m, List.mem_filter.mpr ⟨mutations ▸ stored, ?_⟩, ?_⟩
        · exact decide_eq_true (lt_of_le_of_lt start checkpoint)
        · rw [← events]
          exact joined
      obtain ⟨e, _, rfl⟩ := List.mem_map.mp joined
      exact absurd (seen m.id (List.mem_map.mpr ⟨_, before, rfl⟩)) (not_le.mpr checkpoint)

theorem processReorgMutations_self (db : Db) :
    r.processReorgMutations includeTentative (r.processReorgMutations includeTentative db) =
      r.processReorgMutations includeTentative db :=
  r.processReorgMutations_of_none _ (r.pendingMutations_processReorgMutations _ db)

theorem processReorgMutations_sourceTables (r : DailyRollup Row Key Label Sums Stored)
    (includeTentative : Bool) (db : Db) :
    (r.processReorgMutations includeTentative db).sourceTables = db.sourceTables := by
  unfold processReorgMutations
  split
  · rfl
  · exact r.sourceTables_withTable _ db

/-- The reorg part has a checkpoint of its own. -/
theorem checkpoint_processReorgMutations (db : Db) :
    r.checkpoint (r.processReorgMutations includeTentative db) = r.checkpoint db := by
  unfold processReorgMutations
  split
  · rfl
  · rw [checkpoint, Db.loadCheckpoint_advanceCheckpoint_of_ne _ _ (by simp),
      loadCheckpoint_rebuildKeys]
    rfl

theorem pendingRows_processReorgMutations (db : Db) :
    r.pendingRows includeTentative (r.processReorgMutations includeTentative db) =
      r.pendingRows includeTentative db := by
  rw [pendingRows, checkpoint_processReorgMutations, r.processReorgMutations_sourceTables]
  rfl

theorem sourceTables_runOnce (limit : ℕ) (db : Db) :
    (r.runOnce includeTentative limit db).sourceTables = db.sourceTables :=
  (r.foldBatch_sourceTables ..).trans (r.processReorgMutations_sourceTables _ db)

/-! ## Catching up -/

theorem pendingMutations_foldBatch (limit : ℕ) (db : Db) :
    r.pendingMutations (r.foldBatch includeTentative limit db) = r.pendingMutations db :=
  pendingMutations_congr (r.foldBatch_reorgMutations ..) (r.foldBatch_sourceTables ..)
    (r.loadCheckpoint_foldBatch_of_ne _ (by simp) ..)

theorem iterate_runOnce (done : r.pendingMutations db = []) (n : ℕ) :
    (r.runOnce includeTentative limit)^[n] db = (r.foldBatch includeTentative limit)^[n] db := by
  induction n generalizing db with
  | zero => rfl
  | succ n inductionHypothesis =>
      rw [Function.iterate_succ_apply, Function.iterate_succ_apply, runOnce,
        r.processReorgMutations_of_none _ done]
      exact inductionHypothesis ((pendingMutations_foldBatch ..).trans done)

/-- The mutations first, then batch after batch. -/
theorem catchUp_eq (db : Db) :
    r.catchUp includeTentative limit db =
      (r.foldBatch includeTentative limit)^[(r.sourceRows includeTentative
        db.sourceTables).length + 1] (r.processReorgMutations includeTentative db) := by
  rw [catchUp, Function.iterate_succ_apply, Function.iterate_succ_apply, runOnce]
  exact iterate_runOnce ((pendingMutations_foldBatch ..).trans
    (r.pendingMutations_processReorgMutations _ db)) _

theorem catchUp_processReorgMutations (db : Db) :
    r.catchUp includeTentative limit (r.processReorgMutations includeTentative db) =
      r.catchUp includeTentative limit db := by
  rw [catchUp_eq, catchUp_eq, processReorgMutations_self, r.processReorgMutations_sourceTables]

/-- A batch takes its rows, and what shares its last event, out of the pending ones. -/
theorem pendingRows_foldBatch (limit : ℕ) (db : Db) :
    r.pendingRows includeTentative (r.foldBatch includeTentative limit db) =
      (r.pendingRows includeTentative db).filter fun row =>
        decide (r.maxEventId (r.fetchRows includeTentative limit db) db < r.eventId row) := by
  have start := r.maxEventId_le_iff.mp
    (le_refl (r.maxEventId (r.fetchRows includeTentative limit db) db))
  unfold pendingRows
  rw [checkpoint_foldBatch, foldBatch_sourceTables, List.filter_filter]
  refine List.filter_congr fun row _ => ?_
  rw [Option.all_some]
  cases stored : r.checkpoint db with
  | none => simp
  | some seen =>
      have above : seen ≤ r.maxEventId (r.fetchRows includeTentative limit db) db := by
        simpa [stored] using start.1
      by_cases past : r.maxEventId (r.fetchRows includeTentative limit db) db < r.eventId row
      · simp [past, lt_of_le_of_lt above past]
      · simp [past]

theorem length_pendingRows_foldBatch_lt (some_row : r.fetchRows includeTentative limit db ≠ []) :
    (r.pendingRows includeTentative (r.foldBatch includeTentative limit db)).length <
      (r.pendingRows includeTentative db).length := by
  obtain ⟨row, fetched⟩ := List.exists_mem_of_ne_nil _ some_row
  rw [pendingRows_foldBatch]
  refine List.length_filter_lt_length_iff_exists.mpr ⟨row, List.mem_of_mem_take fetched, ?_⟩
  simpa using (r.maxEventId_le_iff.mp (le_refl _)).2 row fetched

theorem fetchRows_foldBatch_of_nil (nothing : r.fetchRows includeTentative limit db = []) :
    r.fetchRows includeTentative limit (r.foldBatch includeTentative limit db) = [] := by
  rw [fetchRows, List.take_eq_nil_iff] at nothing ⊢
  refine nothing.imp_right fun none_pending => ?_
  rw [pendingRows_foldBatch, none_pending, List.filter_nil]

theorem fetchRows_iterate_of_nil (nothing : r.fetchRows includeTentative limit db = []) (n : ℕ) :
    r.fetchRows includeTentative limit ((r.foldBatch includeTentative limit)^[n] db) = [] := by
  induction n with
  | zero => exact nothing
  | succ n inductionHypothesis =>
      rw [Function.iterate_succ_apply']
      exact fetchRows_foldBatch_of_nil inductionHypothesis

/-- As many batches as there are pending rows leave nothing to fetch. -/
theorem fetchRows_iterate_foldBatch {n : ℕ}
    (enough : (r.pendingRows includeTentative db).length ≤ n) :
    r.fetchRows includeTentative limit ((r.foldBatch includeTentative limit)^[n] db) = [] := by
  induction n generalizing db with
  | zero => simp [fetchRows, List.length_eq_zero_iff.mp (Nat.le_zero.mp enough)]
  | succ n inductionHypothesis =>
      by_cases nothing : r.fetchRows includeTentative limit db = []
      · exact fetchRows_iterate_of_nil nothing _
      · exact inductionHypothesis
          (Nat.le_of_lt_succ (lt_of_lt_of_le (length_pendingRows_foldBatch_lt nothing) enough))

/-- Catching up ends with nothing to fetch, -/
theorem fetchRows_catchUp (limit : ℕ) (db : Db) :
    r.fetchRows includeTentative limit (r.catchUp includeTentative limit db) = [] := by
  rw [catchUp_eq]
  refine fetchRows_iterate_foldBatch (Nat.le_succ_of_le ?_)
  have same := r.processReorgMutations_sourceTables includeTentative db
  rw [← same]
  exact List.length_filter_le ..

/-- which is to be caught up, -/
theorem caughtUp_catchUp (positive : 0 < limit) (db : Db) :
    r.CaughtUp includeTentative (r.catchUp includeTentative limit db) :=
  (List.take_eq_nil_iff.mp (fetchRows_catchUp limit db)).resolve_left positive.ne'

/-- and no mutation is pending. -/
theorem pendingMutations_catchUp (limit : ℕ) (db : Db) :
    r.pendingMutations (r.catchUp includeTentative limit db) = [] := by
  rw [catchUp, Function.iterate_succ_apply', runOnce, pendingMutations_foldBatch]
  exact r.pendingMutations_processReorgMutations ..

/-- A call that returns is the first step of catching up. -/
theorem table_catchUp_runOnce (db : Db) :
    r.table (r.catchUp includeTentative limit (r.runOnce includeTentative limit db)) =
      r.table (r.catchUp includeTentative limit db) := by
  have sources : (r.runOnce includeTentative limit db).sourceTables = db.sourceTables :=
    (r.foldBatch_sourceTables ..).trans (r.processReorgMutations_sourceTables _ db)
  have onceMore : r.catchUp includeTentative limit (r.runOnce includeTentative limit db) =
      r.runOnce includeTentative limit (r.catchUp includeTentative limit db) := by
    rw [catchUp, sources, ← Function.iterate_succ_apply, Function.iterate_succ_apply']
    rfl
  rw [onceMore, runOnce, r.processReorgMutations_of_none _ (pendingMutations_catchUp limit db), foldBatch,
    fetchRows_catchUp]
  exact r.table_congr ..

/-! ## Stopping among the upserts -/

/-- The same state but for what has been added to the table. -/
structure AheadBy (r : DailyRollup Row Key Label Sums Stored) (extra : Key → Option (Total Stored))
    (db db' : Db) : Prop where
  sources : db'.sourceTables = db.sourceTables
  checkpoint : r.checkpoint db' = r.checkpoint db
  table : ∀ key, (r.table db').lookup key =
    Option.merge (· + ·) ((r.table db).lookup key) (extra key)

variable {extra : Key → Option (Total Stored)} {db' : Db}

/-- **What has been added stays on top of a batch.** -/
theorem AheadBy.foldBatch (ahead : r.AheadBy extra db db') :
    r.AheadBy extra (r.foldBatch includeTentative limit db)
      (r.foldBatch includeTentative limit db') := by
  have same : r.fetchRows includeTentative limit db' = r.fetchRows includeTentative limit db := by
    rw [fetchRows, fetchRows, pendingRows, pendingRows, ahead.sources, ahead.checkpoint]
  refine ⟨?_, ?_, fun key => ?_⟩
  · rw [r.foldBatch_sourceTables, r.foldBatch_sourceTables, ahead.sources]
  · rw [r.checkpoint_foldBatch, r.checkpoint_foldBatch, same, maxEventId, maxEventId,
      ahead.checkpoint]
  · rw [r.lookup_foldBatch, r.lookup_foldBatch, same, ahead.sources, ahead.table]
    ac_rfl

theorem AheadBy.catchUp (ahead : r.AheadBy extra db db') (includeTentative : Bool) (limit : ℕ)
    (done : r.pendingMutations db = [])
    (done' : r.pendingMutations db' = []) :
    r.AheadBy extra (r.catchUp includeTentative limit db)
      (r.catchUp includeTentative limit db') := by
  have everywhere : ∀ n, r.AheadBy extra ((r.foldBatch includeTentative limit)^[n] db)
      ((r.foldBatch includeTentative limit)^[n] db') := by
    intro n
    induction n with
    | zero => exact ahead
    | succ n inductionHypothesis =>
        rw [Function.iterate_succ_apply', Function.iterate_succ_apply']
        exact inductionHypothesis.foldBatch
  rw [r.catchUp_eq, r.catchUp_eq, r.processReorgMutations_of_none _ done,
    r.processReorgMutations_of_none _ done', ahead.sources]
  exact everywhere _

/-- What the upserts of some keys add. -/
def upserted (r : DailyRollup Row Key Label Sums Stored) (includeTentative : Bool) (limit : ℕ)
    (keys : List Key) (db : Db) (key : Key) : Option (Total Stored) :=
  if key ∈ keys then
    some ((total (entriesOf key (r.batchEntries db.sourceTables
      (r.fetchRows includeTentative limit db)))).map r.store)
  else none

theorem aheadBy_upsertBatch (r : DailyRollup Row Key Label Sums Stored) (includeTentative : Bool)
    (limit : ℕ) {keys : List Key} (distinct : keys.Nodup) (db : Db) :
    r.AheadBy (r.upserted includeTentative limit keys db) db
      (r.upsertBatch (r.fetchRows includeTentative limit db) keys db) where
  sources := r.upsertBatch_sourceTables ..
  checkpoint := congrArg (fun checkpoints => Finmap.lookup _ checkpoints)
    (r.upsertBatch_indexerCheckpoints ..)
  table := r.lookup_upsertBatch distinct _ db

omit [DecidableEq Label] in
/-- Every row counts one. -/
theorem count_total_entriesOf (tables : SourceTables) (marked : List (Row × List Label))
    (key : Key) :
    r.count (total (entriesOf key (r.entries tables marked))).sums =
      (entriesOf key (r.entries tables marked)).length := by
  have one : ∀ entry ∈ entriesOf key (r.entries tables marked),
      (r.count ∘ Entry.sums) entry = 1 := by
    intro entry own
    obtain ⟨pair, _, rfl⟩ := List.mem_map.mp (List.mem_filter.mp own).1
    exact r.count_sums ..
  rw [total_sums, map_list_sum, List.map_map, List.map_congr_left (g := fun _ => 1) one]
  simp

/-- An upsert of a batch raises its row's count. -/
theorem pos_of_mem_upserted {keys : List Key} {key : Key} {gained : Total Stored}
    (ofBatch : ∀ key ∈ keys, key ∈ r.batchKeys (r.fetchRows includeTentative limit db) db)
    (added : gained ∈ r.upserted includeTentative limit keys db key) :
    0 < r.storedCount gained.sums := by
  unfold upserted at added
  split at added
  · next written =>
      cases added
      have entries := List.length_pos_of_ne_nil (mem_keysOf.mp (ofBatch key written))
      rw [Total.map, r.storedCount_store, batchEntries, count_total_entriesOf]
      exact_mod_cast entries
  · cases added

/-! ## Calls that stop anywhere -/

/-- Catching up from `db'` ends in the table that catching up from `db` ends in, with rows of
positive counts added. -/
structure Gained (r : DailyRollup Row Key Label Sums Stored) (includeTentative : Bool)
    (limit : ℕ) (extra : Key → Option (Total Stored)) (db db' : Db) : Prop where
  positive : ∀ key, ∀ gained ∈ extra key, 0 < r.storedCount gained.sums
  table : ∀ key, (r.table (r.catchUp includeTentative limit db')).lookup key =
    Option.merge (· + ·) ((r.table (r.catchUp includeTentative limit db)).lookup key) (extra key)

theorem gained_nothing (same : r.table (r.catchUp includeTentative limit db') =
    r.table (r.catchUp includeTentative limit db)) :
    r.Gained includeTentative limit (fun _ => none) db db' where
  positive _ _ added := by cases added
  table key := by rw [same, Option.merge_none_right]

theorem Gained.trans {later : Key → Option (Total Stored)} {db'' : Db}
    (one : r.Gained includeTentative limit extra db db')
    (two : r.Gained includeTentative limit later db' db'') :
    r.Gained includeTentative limit (fun key => Option.merge (· + ·) (extra key) (later key))
      db db'' where
  positive key gained added := by
    rcases Option.merge_eq_some_iff.mp added with ⟨first, _⟩ | ⟨_, second⟩ | ⟨x, y, first, second, rfl⟩
    · exact one.positive key gained first
    · exact two.positive key gained second
    · rw [Total.add_sums, map_add]
      exact add_pos (one.positive key x first) (two.positive key y second)
  table key := by
    rw [two.table, one.table]
    exact Std.Associative.assoc ..

/-- Rows with positive counts are seen in the table. -/
theorem Gained.table_eq_iff (gained : r.Gained includeTentative limit extra db db') :
    r.table (r.catchUp includeTentative limit db') =
      r.table (r.catchUp includeTentative limit db) ↔ ∀ key, extra key = none := by
  constructor
  · intro same key
    have row := gained.table key
    rw [same] at row
    cases added : extra key with
    | none => rfl
    | some more =>
        have positive := gained.positive key more added
        rw [added] at row
        cases stored : (r.table (r.catchUp includeTentative limit db)).lookup key with
        | none => simp [stored] at row
        | some before =>
            rw [stored, Option.merge_some_some, Option.some.injEq] at row
            have count := congrArg (fun sum : Total Stored => r.storedCount sum.sums) row
            simp only [Total.add_sums, map_add] at count
            omega
  · intro nothing
    refine Finmap.ext_lookup fun key => ?_
    rw [gained.table, nothing, Option.merge_none_right]

/-- **One call gains nothing, unless it cuts a batch.** -/
theorem exists_gained_of_attempt {a : Attempt Key}
    (attempted : r.attempt includeTentative limit db a = some db') :
    ∃ extra, r.Gained includeTentative limit extra db db' ∧
      ((∀ key, extra key = none) ↔ a.cutsBatch = false) := by
  cases a with
  | returns =>
      cases attempted
      exact ⟨_, gained_nothing (table_catchUp_runOnce db), by simp [Attempt.cutsBatch]⟩
  | stopsRebuilding rebuilt =>
      simp only [attempt, Option.ite_none_right_eq_some, Option.some.injEq] at attempted
      obtain ⟨affected, rfl⟩ := attempted
      refine ⟨_, gained_nothing ?_, by simp [Attempt.cutsBatch]⟩
      rw [catchUp_eq, catchUp_eq, processReorgMutations_rebuildKeys affected,
        sourceTables_rebuildKeys]
  | stopsUpserting keys =>
      simp only [attempt, Option.ite_none_right_eq_some, Option.some.injEq] at attempted
      obtain ⟨⟨distinct, ofBatch⟩, rfl⟩ := attempted
      have done := r.pendingMutations_processReorgMutations includeTentative db
      have done' : r.pendingMutations (r.upsertBatch (r.fetchRows includeTentative limit
          (r.processReorgMutations includeTentative db)) keys
            (r.processReorgMutations includeTentative db)) = [] :=
        (pendingMutations_congr (r.mutations_withTable _ _) (r.sourceTables_withTable _ _)
          (congrArg (fun checkpoints => Finmap.lookup _ checkpoints)
            (r.upsertBatch_indexerCheckpoints ..))).trans done
      have ahead := (r.aheadBy_upsertBatch includeTentative limit distinct
        (r.processReorgMutations includeTentative db)).catchUp includeTentative limit done done'
      rw [catchUp_processReorgMutations] at ahead
      refine ⟨_, ⟨fun key gained => pos_of_mem_upserted ofBatch, ahead.table⟩, ?_⟩
      cases keys with
      | nil => simp [upserted, Attempt.cutsBatch]
      | cons key rest =>
          refine iff_of_false (fun nothing => ?_) (by simp [Attempt.cutsBatch])
          have first := nothing key
          simp [upserted] at first

/-- A sequence of calls gains nothing, unless one of them cuts a batch. -/
theorem exists_gained {attempts : List (Attempt Key)}
    (executed : execute (r.attempt includeTentative limit) db attempts = some db') :
    ∃ extra, r.Gained includeTentative limit extra db db' ∧
      ((∀ key, extra key = none) ↔ ∀ a ∈ attempts, a.cutsBatch = false) := by
  induction attempts generalizing db with
  | nil =>
      cases executed
      exact ⟨_, gained_nothing rfl, by simp⟩
  | cons a rest inductionHypothesis =>
      rw [execute] at executed
      cases attempted : r.attempt includeTentative limit db a with
      | none => simp [attempted] at executed
      | some middle =>
          simp only [attempted] at executed
          obtain ⟨first, firstGained, firstNone⟩ := exists_gained_of_attempt attempted
          obtain ⟨later, laterGained, laterNone⟩ := inductionHypothesis executed
          refine ⟨_, firstGained.trans laterGained, ?_⟩
          rw [List.forall_mem_cons, ← firstNone, ← laterNone, ← forall_and]
          exact forall_congr' fun key => Option.merge_eq_none_iff

/-- Calls that stop anywhere and then catch up end in the table of calls that never stop if
and only if none of them cut a batch. -/
def ExactlyOnceUnlessCut (r : DailyRollup Row Key Label Sums Stored) (includeTentative : Bool)
    (limit : ℕ) : Prop :=
  ∀ (db db' : Db) (attempts : List (Attempt Key)),
    execute (r.attempt includeTentative limit) db attempts = some db' →
      (r.table (r.catchUp includeTentative limit db') =
          r.table (r.catchUp includeTentative limit db) ↔
        ∀ a ∈ attempts, a.cutsBatch = false)

theorem exactlyOnceUnlessCut_of_laws (r : DailyRollup Row Key Label Sums Stored)
    (includeTentative : Bool) (limit : ℕ) : r.ExactlyOnceUnlessCut includeTentative limit := by
  intro db db' attempts executed
  obtain ⟨extra, gained, uncut⟩ := exists_gained executed
  exact gained.table_eq_iff.trans uncut

end DailyRollup

/-- **The four rollups count every event exactly once, whatever calls stop wherever, if and
only if no call cuts a batch.** -/
theorem exactlyOnce_iff_cutsNoBatch (includeTentative : Bool) (limit : ℕ) :
    eventMetrics.ExactlyOnceUnlessCut includeTentative limit ∧
      orchPayouts.ExactlyOnceUnlessCut includeTentative limit ∧
      orchRewards.ExactlyOnceUnlessCut includeTentative limit ∧
      tickets.ExactlyOnceUnlessCut includeTentative limit :=
  ⟨eventMetrics.exactlyOnceUnlessCut_of_laws _ _, orchPayouts.exactlyOnceUnlessCut_of_laws _ _,
    orchRewards.exactlyOnceUnlessCut_of_laws _ _, tickets.exactlyOnceUnlessCut_of_laws _ _⟩

/-! ## One ticket -/

/-- One redeemed ticket, finalized. -/
def oneTicket : Db :=
  Finality.runOnce 0 1000 1000 (Pipeline.indexed [(1, Pipeline.ticketRow 1 "0xg")] Db.empty)

/-- The key of its day. -/
def oneTicketKey : TicketKey := ⟨0, .transcoding⟩

/-- A stop before the first upsert is made good. -/
theorem oneTicket_counted_once :
    ∃ db', execute (tickets.attempt false 10) oneTicket [.stopsUpserting []] = some db' ∧
      tickets.table (tickets.catchUp false 10 db') =
        tickets.table (tickets.catchUp false 10 oneTicket) := by
  have possible : (execute (tickets.attempt false 10) oneTicket [.stopsUpserting []]).isSome := by
    decide +kernel
  obtain ⟨db', executed⟩ := Option.isSome_iff_exists.mp possible
  have iff := (exactlyOnce_iff_cutsNoBatch false 10).2.2.2 oneTicket db' _ executed
  exact ⟨db', executed, iff.mpr (by decide)⟩

/-- **A stop between the upsert and the checkpoint counts the ticket twice.** -/
theorem restart_counts_twice :
    ¬ ∀ (limit : ℕ) (db db' : Db) (attempts : List (Attempt TicketKey)),
      execute (tickets.attempt false limit) db attempts = some db' →
        tickets.table (tickets.catchUp false limit db') =
          tickets.table (tickets.catchUp false limit db) := by
  intro law
  have executed : execute (tickets.attempt false 10) oneTicket [.stopsUpserting [oneTicketKey]] =
      some ((execute (tickets.attempt false 10) oneTicket [.stopsUpserting [oneTicketKey]]).get
        (by decide +kernel)) := (Option.some_get _).symm
  have row := congrArg (Finmap.lookup oneTicketKey) (law _ _ _ _ executed)
  exact absurd row (by decide +kernel)

end ProtocolExplorer.Rollups
