import ProtocolExplorer.Lib.OrderedBatch
import ProtocolExplorer.Store.Database

/-!
# Daily rollups

The four rollup writers share one shape.  `run_once` first rebuilds the cells touched by
`reorg_mutations`, then fetches the eligible source rows past an event-id checkpoint, sums
them per key in memory, adds each sum to the stored row of its key in a statement of its
own, and last moves the checkpoint to the largest event id of the batch.  A `DailyRollup`
holds what the writers differ in: the joined source rows of an event, their key, their
summands and the labels they count distinct.

* `rebuildAggregateForKey_eq` — a rebuild of one key is its part of a rebuild of all;
* `lookup_upsertBatch` — what a key holds once some keys of a batch have been written;
* `lookup_foldBatch`, `checkpoint_foldBatch` — the effect of a whole batch;
* `processReorgMutations_of_none` — without pending mutations the first part does nothing.
-/

set_option autoImplicit false

namespace ProtocolExplorer.Store

open ProtocolExplorer.Lib

/-- The tables a rollup reads. -/
structure SourceTables where
  rawProtocolEvents : List RawEvent
  eventValuations : Table ValuationKey ValuationRow
  broadcasterClassifications : Table Address BroadcasterKind

def Db.sourceTables (db : Db) : SourceTables :=
  ⟨db.rawProtocolEvents, db.eventValuations, db.broadcasterClassifications⟩

namespace SourceTables

/-- The versions under which an event is valued for an asset. -/
def versionsOf (tables : SourceTables) (eventId : ℤ) (asset : Asset) : List Version :=
  sortKeys <| (tables.eventValuations.keys.filter fun key =>
    key.1 = eventId ∧ key.2.2 = asset).image fun key => key.2.1

/-- `JOIN event_valuations v ON v.event_id = e.id AND v.asset = …`. -/
def valuationsOf (tables : SourceTables) (eventId : ℤ) (asset : Asset) :
    List (Version × ValuationRow) :=
  (tables.versionsOf eventId asset).filterMap fun version =>
    (tables.eventValuations.lookup (eventId, version, asset)).map fun row => (version, row)

theorem mem_versionsOf {tables : SourceTables} {eventId : ℤ} {asset : Asset} {version : Version} :
    version ∈ tables.versionsOf eventId asset ↔
      (eventId, version, asset) ∈ tables.eventValuations := by
  simp only [versionsOf, mem_sortKeys, Finset.mem_image, Finset.mem_filter, Finmap.mem_keys]
  constructor
  · rintro ⟨⟨id, own, named⟩, ⟨stored, rfl, rfl⟩, rfl⟩
    exact stored
  · exact fun stored => ⟨_, ⟨stored, rfl, rfl⟩, rfl⟩

theorem mem_of_mem_valuationsOf {tables : SourceTables} {eventId : ℤ} {asset : Asset}
    {v : Version × ValuationRow} (member : v ∈ tables.valuationsOf eventId asset) :
    (eventId, v.1, asset) ∈ tables.eventValuations := by
  obtain ⟨version, listed, found⟩ := List.mem_filterMap.mp member
  obtain ⟨row, _, rfl⟩ := Option.map_eq_some_iff.mp found
  exact mem_versionsOf.mp listed

/-- `COALESCE(bc.kind, 'transcoding')` of the left join on an address. -/
def broadcasterKind (tables : SourceTables) (address : Option Address) : BroadcasterKind :=
  (address.bind fun a => tables.broadcasterClassifications.lookup a).getD .transcoding

end SourceTables

end ProtocolExplorer.Store

namespace ProtocolExplorer.Rollups

open ProtocolExplorer.Lib
open ProtocolExplorer.Store

/-- What one rollup writer is made of. -/
structure DailyRollup (Row Key Label Sums Stored : Type) [AddCommMonoid Sums]
    [AddCommMonoid Stored] where
  name : RollupName
  table : Db → Table Key (Total Stored)
  withTable : Table Key (Total Stored) → Db → Db
  /-- The joined source rows of an event, when it is eligible. -/
  rowsOf : Bool → SourceTables → RawEvent → List Row
  eventId : Row → ℤ
  keyOf : Row → Key
  labelsOf : Row → List Label
  /-- Does a query find the label on an earlier event? -/
  prior : SourceTables → Row → Label → Bool
  /-- The summands of a row, given its labels that are counted. -/
  sums : SourceTables → Row → List Label → Sums
  /-- Sums as the table holds them. -/
  store : Sums → Stored
  /-- The column that counts rows. -/
  count : Sums →+ ℤ
  storedCount : Stored →+ ℤ
  /-- The mutated events the writer looks at, and the stored keys they may have gone into. -/
  concerned : RawEvent → Bool
  existingCandidate : RawEvent → Key → Bool
  currentKeys : Bool → SourceTables → RawEvent → List Key
  eventId_of_mem : ∀ {includeTentative tables e row},
    row ∈ rowsOf includeTentative tables e → eventId row = e.id
  /-- Labels are per key, and a query finds those of earlier eligible events. -/
  keyOf_of_label : ∀ {a b label}, label ∈ labelsOf a → label ∈ labelsOf b → keyOf a = keyOf b
  prior_of_mem : ∀ {includeTentative tables e earlier row label},
    e ∈ tables.rawProtocolEvents → earlier ∈ rowsOf includeTentative tables e →
      label ∈ labelsOf earlier → e.id < eventId row → prior tables row label = true
  count_sums : ∀ tables row new, count (sums tables row new) = 1
  storedCount_store : ∀ sum, storedCount (store sum) = count sum
  table_withTable : ∀ rows db, table (withTable rows db) = rows
  withTable_table : ∀ db, withTable (table db) db = db
  withTable_withTable : ∀ rows rows' db,
    withTable rows (withTable rows' db) = withTable rows db
  table_congr : ∀ db checkpoints, table { db with indexerCheckpoints := checkpoints } = table db
  sourceTables_withTable : ∀ rows db, (withTable rows db).sourceTables = db.sourceTables
  checkpoints_withTable : ∀ rows db,
    (withTable rows db).indexerCheckpoints = db.indexerCheckpoints
  mutations_withTable : ∀ rows db, (withTable rows db).reorgMutations = db.reorgMutations

namespace DailyRollup

variable {Row Key Label Sums Stored : Type} [AddCommMonoid Sums] [AddCommMonoid Stored]
  (r : DailyRollup Row Key Label Sums Stored) (includeTentative : Bool)

/-! ## Source rows and batches -/

/-- All eligible source rows, `ORDER BY e.id`. -/
def sourceRows (tables : SourceTables) : List Row :=
  orderBy r.eventId (tables.rawProtocolEvents.flatMap (r.rowsOf includeTentative tables))

/-- The event-id checkpoint. -/
def checkpoint (db : Db) : Option ℤ := db.loadCheckpoint (.rollup r.name)

/-- The eligible rows past the checkpoint. -/
def pendingRows (db : Db) : List Row :=
  (r.sourceRows includeTentative db.sourceTables).filter fun row =>
    (r.checkpoint db).all fun seen => decide (seen < r.eventId row)

/-- The fetch of a batch. -/
def fetchRows (limit : ℕ) (db : Db) : List Row := (r.pendingRows includeTentative db).take limit

/-- The largest event id of a batch, at least the checkpoint. -/
def maxEventId (rows : List Row) (db : Db) : ℤ :=
  (rows.map r.eventId).foldl max ((r.checkpoint db).getD 0)

theorem mem_sourceRows {tables : SourceTables} {row : Row} :
    row ∈ r.sourceRows includeTentative tables ↔
      ∃ e ∈ tables.rawProtocolEvents, row ∈ r.rowsOf includeTentative tables e := by
  rw [sourceRows, mem_orderBy, List.mem_flatMap]

/-- Rows have the ids of their events. -/
theorem pos_eventId {tables : SourceTables} (positive : ∀ e ∈ tables.rawProtocolEvents, 0 < e.id) :
    ∀ row ∈ r.sourceRows includeTentative tables, 0 < r.eventId row := by
  intro row source
  obtain ⟨e, stored, joined⟩ := (r.mem_sourceRows includeTentative).mp source
  rw [r.eventId_of_mem joined]
  exact positive e stored

theorem maxEventId_le_iff {rows : List Row} {db : Db} {bound : ℤ} :
    r.maxEventId rows db ≤ bound ↔
      (r.checkpoint db).getD 0 ≤ bound ∧ ∀ row ∈ rows, r.eventId row ≤ bound := by
  rw [maxEventId, foldl_max_le_iff, List.forall_mem_map]

/-! ## Pending mutations -/

/-- The mutations past their checkpoint, joined to the events the writer looks at. -/
def pendingMutations (db : Db) : List (ReorgMutation × RawEvent) :=
  (db.reorgMutations.filter fun m =>
      decide ((db.loadCheckpoint (.rollupReorg r.name)).getD 0 < m.id)).flatMap fun m =>
    (db.rawProtocolEvents.filter fun e => decide (e.id = m.rawEventId) && r.concerned e).map
      fun e => (m, e)

theorem pendingMutations_of_nil {db : Db} (nothing : db.reorgMutations = []) :
    r.pendingMutations db = [] := by
  simp [pendingMutations, nothing]

/-! ## Entries -/

/-- Source rows with their summands, given what each counts for the first time. -/
def entries (tables : SourceTables) (marked : List (Row × List Label)) : List (Entry Key Sums) :=
  marked.map fun (row, new) => ⟨r.keyOf row, r.eventId row, r.sums tables row new⟩

variable [DecidableEq Label]

/-- The entries of a batch: earlier events are asked for by query. -/
def batchEntries (tables : SourceTables) (rows : List Row) : List (Entry Key Sums) :=
  r.entries tables (markFirst r.labelsOf (r.prior tables) [] rows)

/-- The entries of a rebuild, which has all rows in hand. -/
def rebuildEntries (tables : SourceTables) (rows : List Row) : List (Entry Key Sums) :=
  r.entries tables (markFirst r.labelsOf (fun _ _ => false) [] rows)

variable [DecidableEq Key]

/-- `rebuild_aggregate_for_key`. -/
def rebuildAggregateForKey (tables : SourceTables) (key : Key) : Option (Total Sums) :=
  let rows := (r.sourceRows includeTentative tables).filter fun row => decide (r.keyOf row = key)
  if rows.isEmpty then none else some (total (r.rebuildEntries tables rows))

/-- The rows of one key, totalled apart, are that key's part of all rows. -/
theorem rebuildAggregateForKey_eq (tables : SourceTables) (key : Key) :
    r.rebuildAggregateForKey includeTentative tables key =
      rebuild key (r.rebuildEntries tables (r.sourceRows includeTentative tables)) := by
  have own : entriesOf key (r.rebuildEntries tables (r.sourceRows includeTentative tables)) =
      r.rebuildEntries tables ((r.sourceRows includeTentative tables).filter
        fun row => decide (r.keyOf row = key)) := by
    have separate : ∀ a b : Row, ∀ label ∈ r.labelsOf a, label ∈ r.labelsOf b →
        decide (r.keyOf a = key) = decide (r.keyOf b = key) :=
      fun a b label inA inB => by rw [r.keyOf_of_label inA inB]
    rw [entriesOf, rebuildEntries, entries, List.filter_map]
    exact congrArg (List.map _) (filter_markFirst separate fun _ _ _ _ => Iff.rfl)
  unfold rebuildAggregateForKey rebuild
  rw [own]
  cases (r.sourceRows includeTentative tables).filter fun row => decide (r.keyOf row = key) with
  | nil => rfl
  | cons row rest => rfl

/-! ## The reorg part -/

/-- `load_existing_candidate_keys` and `load_current_event_keys` of the pending mutations. -/
def affectedKeys (db : Db) : Finset Key :=
  ((r.table db).keys.filter fun key => ∃ p ∈ r.pendingMutations db,
      r.existingCandidate p.2 key = true ∧
        ((r.table db).lookup key).any (fun stored => decide (p.2.id ≤ stored.latest)) = true) ∪
    ((r.pendingMutations db).flatMap fun p =>
      r.currentKeys includeTentative db.sourceTables p.2).toFinset

/-- `replace_aggregate` or `delete_aggregate` for some keys. -/
def rebuildKeys (keys : Finset Key) (db : Db) : Db :=
  r.withTable (Table.rewriteKeys (fun key =>
    (r.rebuildAggregateForKey includeTentative db.sourceTables key).map (Total.map r.store))
    keys (r.table db)) db

/-- The largest pending mutation id, at least the checkpoint. -/
def maxMutationId (db : Db) : ℤ :=
  ((r.pendingMutations db).map fun p => p.1.id).foldl max
    ((db.loadCheckpoint (.rollupReorg r.name)).getD 0)

/-- `process_reorg_mutations`. -/
def processReorgMutations (db : Db) : Db :=
  if (r.pendingMutations db).isEmpty then db
  else (r.rebuildKeys includeTentative (r.affectedKeys includeTentative db) db).advanceCheckpoint
    (.rollupReorg r.name) (r.maxMutationId db)

theorem processReorgMutations_of_none {db : Db} (nothing : r.pendingMutations db = []) :
    r.processReorgMutations includeTentative db = db := by
  simp [processReorgMutations, nothing]

/-! ## The incremental part -/

/-- `upsert_aggregate` for some keys of a batch, in the order given. -/
def upsertBatch (rows : List Row) (keys : List Key) (db : Db) : Db :=
  let fetched := r.batchEntries db.sourceTables rows
  r.withTable (addTotals (fun key => (total (entriesOf key fetched)).map r.store) keys (r.table db))
    db

/-- The keys of a batch. -/
def batchKeys (rows : List Row) (db : Db) : List Key :=
  keysOf (r.batchEntries db.sourceTables rows)

theorem nodup_batchKeys (rows : List Row) (db : Db) : (r.batchKeys rows db).Nodup :=
  List.nodup_dedup _

/-- The part of `run_once` after the mutations. -/
def foldBatch (limit : ℕ) (db : Db) : Db :=
  if (r.fetchRows includeTentative limit db).isEmpty then
    db.advanceCheckpoint (.rollup r.name) ((r.checkpoint db).getD 0)
  else
    (r.upsertBatch (r.fetchRows includeTentative limit db)
      (r.batchKeys (r.fetchRows includeTentative limit db) db) db).advanceCheckpoint
        (.rollup r.name) (r.maxEventId (r.fetchRows includeTentative limit db) db)

/-- `run_once`. -/
def runOnce (limit : ℕ) (db : Db) : Db :=
  r.foldBatch includeTentative limit (r.processReorgMutations includeTentative db)

/-- An empty batch writes no key and keeps the checkpoint. -/
theorem foldBatch_eq (limit : ℕ) (db : Db) :
    r.foldBatch includeTentative limit db =
      (r.upsertBatch (r.fetchRows includeTentative limit db)
        (r.batchKeys (r.fetchRows includeTentative limit db) db) db).advanceCheckpoint
          (.rollup r.name) (r.maxEventId (r.fetchRows includeTentative limit db) db) := by
  unfold foldBatch
  cases r.fetchRows includeTentative limit db with
  | nil =>
      rw [List.isEmpty_nil, if_pos rfl]
      exact congrArg (fun written => Db.advanceCheckpoint written _ _) (r.withTable_table db).symm
  | cons row rest => rw [List.isEmpty_cons, if_neg Bool.false_ne_true]

theorem upsertBatch_sourceTables (rows : List Row) (keys : List Key) (db : Db) :
    (r.upsertBatch rows keys db).sourceTables = db.sourceTables := r.sourceTables_withTable ..

theorem upsertBatch_indexerCheckpoints (rows : List Row) (keys : List Key) (db : Db) :
    (r.upsertBatch rows keys db).indexerCheckpoints = db.indexerCheckpoints :=
  r.checkpoints_withTable ..

/-- What a key holds once some keys of a batch have been written. -/
theorem lookup_upsertBatch {keys : List Key} (distinct : keys.Nodup) (rows : List Row) (db : Db)
    (key : Key) :
    (r.table (r.upsertBatch rows keys db)).lookup key =
      Option.merge (· + ·) ((r.table db).lookup key)
        (if key ∈ keys then
          some ((total (entriesOf key (r.batchEntries db.sourceTables rows))).map r.store)
        else none) := by
  rw [upsertBatch, r.table_withTable, lookup_addTotals _ distinct]

/-- The batch's totals go into the table. -/
theorem lookup_foldBatch (limit : ℕ) (db : Db) (key : Key) :
    (r.table (r.foldBatch includeTentative limit db)).lookup key =
      Option.merge (· + ·) ((r.table db).lookup key)
        ((rebuild key (r.batchEntries db.sourceTables
          (r.fetchRows includeTentative limit db))).map (Total.map r.store)) := by
  rw [foldBatch_eq, Db.advanceCheckpoint, r.table_congr, lookup_upsertBatch _ (r.nodup_batchKeys ..)]
  refine congrArg _ ?_
  unfold rebuild batchKeys
  by_cases present : key ∈ keysOf (r.batchEntries db.sourceTables
      (r.fetchRows includeTentative limit db))
  · rw [if_pos present, if_neg (mem_keysOf.mp present), Option.map_some]
  · rw [if_neg present, if_pos (not_not.mp (mt mem_keysOf.mpr present)), Option.map_none]

theorem foldBatch_sourceTables (limit : ℕ) (db : Db) :
    (r.foldBatch includeTentative limit db).sourceTables = db.sourceTables := by
  rw [foldBatch_eq]
  exact r.upsertBatch_sourceTables ..

theorem foldBatch_reorgMutations (limit : ℕ) (db : Db) :
    (r.foldBatch includeTentative limit db).reorgMutations = db.reorgMutations := by
  rw [foldBatch_eq]
  exact r.mutations_withTable ..

/-- A batch moves its own checkpoint only. -/
theorem loadCheckpoint_foldBatch_of_ne {name : CheckpointName} (foreign : name ≠ .rollup r.name)
    (limit : ℕ) (db : Db) :
    (r.foldBatch includeTentative limit db).loadCheckpoint name = db.loadCheckpoint name := by
  rw [foldBatch_eq, Db.loadCheckpoint_advanceCheckpoint_of_ne _ _ foreign, Db.loadCheckpoint,
    upsertBatch_indexerCheckpoints]
  rfl

/-- The checkpoint after a batch. -/
theorem checkpoint_foldBatch (limit : ℕ) (db : Db) :
    r.checkpoint (r.foldBatch includeTentative limit db) =
      some (r.maxEventId (r.fetchRows includeTentative limit db) db) := by
  have above : (r.checkpoint db).getD 0 ≤
      r.maxEventId (r.fetchRows includeTentative limit db) db :=
    (r.maxEventId_le_iff.mp (le_refl _)).1
  rw [foldBatch_eq, checkpoint, Db.loadCheckpoint_advanceCheckpoint_self, Db.loadCheckpoint,
    upsertBatch_indexerCheckpoints]
  change some ((r.checkpoint db).elim _ _) = _
  cases stored : r.checkpoint db with
  | none => rfl
  | some previous =>
      rw [stored, Option.getD_some] at above
      exact congrArg some (max_eq_right above)

end DailyRollup

end ProtocolExplorer.Rollups
