import ProtocolExplorer.Rollups.Daily

/-!
# Folding batch by batch

A rollup is up to date when every key holds the fold of its rows up to the checkpoint.

* `upToDate_foldBatch` — a batch keeps it up to date, if the batch cuts no event in two, its
  queries for earlier labels agree with what has been folded, and storing its sums apart from
  the earlier ones loses nothing;
* `UpToDate.of_unchanged` — so does a step of another writer that changes nothing up to the
  checkpoint, which `foldedRows_of_nothingLate` reduces to a condition on single events;
* `complete_of_caughtUp` — up to date and caught up is complete.
-/

set_option autoImplicit false

namespace ProtocolExplorer.Rollups

open ProtocolExplorer.Lib
open ProtocolExplorer.Store

namespace DailyRollup

variable {Row Key Label Sums Stored : Type} [AddCommMonoid Sums] [AddCommMonoid Stored]
  (r : DailyRollup Row Key Label Sums Stored) (includeTentative : Bool)

/-- The eligible rows up to the checkpoint. -/
def foldedRows (db : Db) : List Row :=
  (r.sourceRows includeTentative db.sourceTables).filter fun row =>
    (r.checkpoint db).any fun seen => decide (r.eventId row ≤ seen)

/-- No row is waiting past the checkpoint. -/
def CaughtUp (db : Db) : Prop := r.pendingRows includeTentative db = []

theorem foldedRows_append_pendingRows (db : Db) :
    r.foldedRows includeTentative db ++ r.pendingRows includeTentative db =
      r.sourceRows includeTentative db.sourceTables := by
  unfold foldedRows pendingRows
  cases r.checkpoint db with
  | none => simp
  | some seen =>
      simp only [Option.any_some, Option.all_some]
      exact filter_append_filter_of_pairwise (orderBy_pairwise ..) seen

/-- A batch that cuts no event in two. -/
def EndsBetweenEvents (limit : ℕ) (db : Db) : Prop :=
  ∀ row ∈ r.fetchRows includeTentative limit db,
    ∀ later ∈ (r.pendingRows includeTentative db).drop limit, r.eventId row < r.eventId later

instance (limit : ℕ) (db : Db) : Decidable (r.EndsBetweenEvents includeTentative limit db) :=
  inferInstanceAs (Decidable (∀ row ∈ r.fetchRows includeTentative limit db,
    ∀ later ∈ (r.pendingRows includeTentative db).drop limit, r.eventId row < r.eventId later))

/-- A batch that cuts no event in two, and whose queries for earlier labels find only labels
of eligible rows. -/
structure WholeBatch (limit : ℕ) (db : Db) : Prop where
  events : ∀ row ∈ r.fetchRows includeTentative limit db,
    ∀ later ∈ (r.pendingRows includeTentative db).drop limit, r.eventId row < r.eventId later
  labels : ∀ row ∈ r.fetchRows includeTentative limit db, ∀ label ∈ r.labelsOf row,
    r.prior db.sourceTables row label = true →
      ∃ earlier ∈ r.sourceRows includeTentative db.sourceTables,
        r.eventId earlier < r.eventId row ∧ label ∈ r.labelsOf earlier

instance [DecidableEq Label] (limit : ℕ) (db : Db) :
    Decidable (r.WholeBatch includeTentative limit db) :=
  decidable_of_iff (_ ∧ _) ⟨fun ⟨events, labels⟩ => ⟨events, labels⟩,
    fun whole => ⟨whole.events, whole.labels⟩⟩

variable {r includeTentative} {db : Db} {limit : ℕ}

theorem fetchRows_append_drop (limit : ℕ) (db : Db) :
    r.fetchRows includeTentative limit db ++ (r.pendingRows includeTentative db).drop limit =
      r.pendingRows includeTentative db :=
  List.take_append_drop ..

/-- A batch is in the order of the events. -/
theorem fetchRows_pairwise (r : DailyRollup Row Key Label Sums Stored) (includeTentative : Bool)
    (limit : ℕ) (db : Db) :
    (r.fetchRows includeTentative limit db).Pairwise fun a b => r.eventId a ≤ r.eventId b :=
  ((orderBy_pairwise ..).filter _).sublist (List.take_sublist ..)

theorem lt_eventId_of_pending {row : Row} (pending : row ∈ r.pendingRows includeTentative db) :
    ∀ seen ∈ r.checkpoint db, seen < r.eventId row := by
  intro seen stored
  have past := (List.mem_filter.mp pending).2
  rw [Option.mem_def.mp stored] at past
  exact of_decide_eq_true past

/-! ## Steps of other writers -/

/-- Every event whose source rows change lies past the checkpoint. -/
def NothingLate (r : DailyRollup Row Key Label Sums Stored) (includeTentative : Bool)
    (update : RawEvent → RawEvent) (after : SourceTables) (db : Db) : Prop :=
  ∀ e ∈ db.rawProtocolEvents, r.rowsOf includeTentative after (update e) ≠
      r.rowsOf includeTentative db.sourceTables e →
    ∀ seen ∈ r.checkpoint db, seen < e.id

instance [DecidableEq Row] (r : DailyRollup Row Key Label Sums Stored) (includeTentative : Bool)
    (update : RawEvent → RawEvent) (after : SourceTables) (db : Db) :
    Decidable (r.NothingLate includeTentative update after db) :=
  inferInstanceAs (Decidable (∀ e ∈ db.rawProtocolEvents,
    r.rowsOf includeTentative after (update e) ≠ r.rowsOf includeTentative db.sourceTables e →
      ∀ seen ∈ r.checkpoint db, seen < e.id))

theorem foldedRows_of_nothingLate {db' : Db} {update : RawEvent → RawEvent} {new : List RawEvent}
    (late : r.NothingLate includeTentative update db'.sourceTables db)
    (keeps : ∀ e, (update e).id = e.id)
    (events : db'.rawProtocolEvents = db.rawProtocolEvents.map update ++ new)
    (fruitless : ∀ e ∈ new, r.rowsOf includeTentative db'.sourceTables e = [])
    (unmoved : r.checkpoint db' = r.checkpoint db) :
    r.foldedRows includeTentative db' = r.foldedRows includeTentative db := by
  unfold foldedRows sourceRows
  rw [unmoved, filter_orderBy, filter_orderBy]
  refine congrArg (orderBy r.eventId) ?_
  have added : new.flatMap (r.rowsOf includeTentative db'.sourceTables) = [] :=
    List.flatMap_eq_nil_iff.mpr fruitless
  have source : db'.sourceTables.rawProtocolEvents = db.rawProtocolEvents.map update ++ new :=
    events
  rw [source, List.flatMap_append, added, List.append_nil, List.flatMap_map, List.filter_flatMap,
    List.filter_flatMap]
  refine List.flatMap_congr fun e member => ?_
  by_cases same : r.rowsOf includeTentative db'.sourceTables (update e) =
      r.rowsOf includeTentative db.sourceTables e
  · exact congrArg _ same
  · have past := late e member same
    have nothing : ∀ {tables : SourceTables} {event : RawEvent}, event.id = e.id →
        (r.rowsOf includeTentative tables event).filter
          (fun row => (r.checkpoint db).any fun seen => decide (r.eventId row ≤ seen)) = [] := by
      intro tables event sameId
      refine List.filter_eq_nil_iff.mpr fun row joined reached => ?_
      obtain ⟨seen, stored, upTo⟩ := (Option.any_eq_true ..).mp reached
      have own := past seen stored
      rw [← sameId, ← r.eventId_of_mem joined] at own
      exact absurd (of_decide_eq_true upTo) (not_le.mpr own)
    rw [nothing (keeps e), nothing rfl]

/-! ## Batches -/

variable [DecidableEq Label]

/-- The queries of a whole batch count what the fold of all rows counts. -/
theorem markFirst_fetchRows (whole : r.WholeBatch includeTentative limit db) :
    markFirst r.labelsOf (r.prior db.sourceTables) [] (r.fetchRows includeTentative limit db) =
      markFirst r.labelsOf (fun _ _ => false)
        (seenAfter r.labelsOf [] (r.foldedRows includeTentative db))
        (r.fetchRows includeTentative limit db) := by
  rw [← List.nil_append (seenAfter r.labelsOf [] (r.foldedRows includeTentative db))]
  refine markFirst_eq_of_seen fun before row after split label carried _ unseen => ?_
  have fetched : row ∈ r.fetchRows includeTentative limit db := by simp [split]
  have ordered := r.fetchRows_pairwise includeTentative limit db
  rw [mem_seenAfter, or_iff_right List.not_mem_nil]
  constructor
  · intro found
    obtain ⟨earlier, source, lower, shared⟩ := whole.labels row fetched label carried found
    refine ⟨earlier, ?_, shared⟩
    rw [← foldedRows_append_pendingRows, ← fetchRows_append_drop limit db] at source
    rcases List.mem_append.mp source with folded | pending
    · exact folded
    rcases List.mem_append.mp pending with inBatch | left
    · -- in the batch it would stand before the row, where the label is not seen
      rw [split] at inBatch ordered
      exact absurd shared (unseen earlier (mem_left_of_lt ordered inBatch lower))
    · exact absurd (whole.events row fetched earlier left) (not_lt.mpr lower.le)
  · rintro ⟨earlier, folded, shared⟩
    obtain ⟨source, reached⟩ := List.mem_filter.mp folded
    obtain ⟨seen, stored, upTo⟩ := (Option.any_eq_true ..).mp reached
    obtain ⟨e, present, joined⟩ := (r.mem_sourceRows includeTentative).mp source
    refine r.prior_of_mem present joined shared ?_
    rw [← r.eventId_of_mem joined]
    exact lt_of_le_of_lt (of_decide_eq_true upTo)
      (lt_eventId_of_pending (List.mem_of_mem_take fetched) seen stored)

/-- The entries of a whole batch continue those of the rows folded before it. -/
theorem rebuildEntries_append_fetchRows (whole : r.WholeBatch includeTentative limit db) :
    r.rebuildEntries db.sourceTables
        (r.foldedRows includeTentative db ++ r.fetchRows includeTentative limit db) =
      r.rebuildEntries db.sourceTables (r.foldedRows includeTentative db) ++
        r.batchEntries db.sourceTables (r.fetchRows includeTentative limit db) := by
  unfold rebuildEntries batchEntries entries
  rw [markFirst_append, List.map_append, markFirst_fetchRows whole]

variable [DecidableEq Key]

/-- A batch that cuts no event moves exactly its rows below the checkpoint. -/
theorem foldedRows_foldBatch (whole : r.EndsBetweenEvents includeTentative limit db)
    (positive : ∀ row ∈ r.sourceRows includeTentative db.sourceTables, 0 < r.eventId row) :
    r.foldedRows includeTentative (r.foldBatch includeTentative limit db) =
      r.foldedRows includeTentative db ++ r.fetchRows includeTentative limit db := by
  obtain ⟨start, fetched⟩ := r.maxEventId_le_iff.mp
    (le_refl (r.maxEventId (r.fetchRows includeTentative limit db) db))
  have below : ∀ row ∈ r.foldedRows includeTentative db,
      r.eventId row ≤ r.maxEventId (r.fetchRows includeTentative limit db) db := by
    intro row member
    obtain ⟨seen, stored, reached⟩ :=
      (Option.any_eq_true ..).mp (List.mem_filter.mp member).2
    rw [stored, Option.getD_some] at start
    exact le_trans (of_decide_eq_true reached) start
  have above : ∀ later ∈ (r.pendingRows includeTentative db).drop limit,
      r.maxEventId (r.fetchRows includeTentative limit db) db < r.eventId later := by
    intro later left
    have pending := List.mem_of_mem_drop left
    refine Int.lt_of_le_sub_one (r.maxEventId_le_iff.mpr ⟨?_, fun row member => ?_⟩)
    · cases stored : r.checkpoint db with
      | none => exact Int.le_sub_one_of_lt (positive later (List.mem_of_mem_filter pending))
      | some seen => exact Int.le_sub_one_of_lt (lt_eventId_of_pending pending seen stored)
    · exact Int.le_sub_one_of_lt (whole row member later left)
  rw [foldedRows, checkpoint_foldBatch, foldBatch_sourceTables, ← foldedRows_append_pendingRows,
    ← fetchRows_append_drop limit db, List.filter_append, List.filter_append]
  simp only [Option.any_some]
  rw [List.filter_eq_self.mpr fun row member => decide_eq_true (below row member),
    List.filter_eq_self.mpr fun row member => decide_eq_true (fetched row member),
    List.filter_eq_nil_iff.mpr fun later left => by simpa using above later left,
    List.append_nil]

/-! ## Keeping up to date -/

/-- Every key holds the fold of its rows up to the checkpoint. -/
def UpToDate (r : DailyRollup Row Key Label Sums Stored) (includeTentative : Bool) (db : Db) :
    Prop :=
  ∀ key, (r.table db).lookup key =
    (rebuild key (r.rebuildEntries db.sourceTables (r.foldedRows includeTentative db))).map
      (Total.map r.store)

/-- Every key holds the fold of all its rows. -/
def Complete (r : DailyRollup Row Key Label Sums Stored) (includeTentative : Bool) (db : Db) :
    Prop :=
  ∀ key, (r.table db).lookup key =
    (r.rebuildAggregateForKey includeTentative db.sourceTables key).map (Total.map r.store)

/-- A caught-up rollup that is up to date is complete. -/
theorem complete_of_caughtUp (upToDate : r.UpToDate includeTentative db)
    (caughtUp : r.CaughtUp includeTentative db) : r.Complete includeTentative db := by
  intro key
  rw [upToDate key, rebuildAggregateForKey_eq, ← foldedRows_append_pendingRows]
  rw [CaughtUp] at caughtUp
  rw [caughtUp, List.append_nil]

/-- Storing the sums of a batch apart from those folded before it loses nothing. -/
def RoundsTogether (r : DailyRollup Row Key Label Sums Stored) (includeTentative : Bool)
    (limit : ℕ) (db : Db) : Prop :=
  ∀ key ∈ r.batchKeys (r.fetchRows includeTentative limit db) db,
    ∀ before ∈ rebuild key
      (r.rebuildEntries db.sourceTables (r.foldedRows includeTentative db)),
    ∀ gained ∈ rebuild key
      (r.batchEntries db.sourceTables (r.fetchRows includeTentative limit db)),
    r.store (before.sums + gained.sums) = r.store before.sums + r.store gained.sums

instance [DecidableEq Stored] (r : DailyRollup Row Key Label Sums Stored)
    (includeTentative : Bool) (limit : ℕ) (db : Db) :
    Decidable (r.RoundsTogether includeTentative limit db) := by
  unfold RoundsTogether
  infer_instance

/-- **A whole batch that rounds together keeps the rollup up to date.** -/
theorem upToDate_foldBatch (upToDate : r.UpToDate includeTentative db)
    (whole : r.WholeBatch includeTentative limit db)
    (rounds : r.RoundsTogether includeTentative limit db)
    (positive : ∀ row ∈ r.sourceRows includeTentative db.sourceTables, 0 < r.eventId row) :
    r.UpToDate includeTentative (r.foldBatch includeTentative limit db) := by
  intro key
  rw [lookup_foldBatch, upToDate key, foldBatch_sourceTables,
    foldedRows_foldBatch whole.events positive, rebuildEntries_append_fetchRows whole]
  refine (map_rebuild_append fun before folded gained fetched => ?_).symm
  exact rounds key (mem_keysOf_of_rebuild fetched) before folded gained fetched

/-- A step that changes nothing up to the checkpoint keeps the rollup up to date. -/
theorem UpToDate.of_unchanged {db' : Db} (upToDate : r.UpToDate includeTentative db)
    (table : r.table db' = r.table db)
    (rows : r.foldedRows includeTentative db' = r.foldedRows includeTentative db)
    (sums : ∀ row ∈ r.foldedRows includeTentative db, ∀ new,
      r.sums db'.sourceTables row new = r.sums db.sourceTables row new) :
    r.UpToDate includeTentative db' := by
  intro key
  have entries : r.rebuildEntries db'.sourceTables (r.foldedRows includeTentative db) =
      r.rebuildEntries db.sourceTables (r.foldedRows includeTentative db) :=
    List.map_congr_left fun marked member =>
      congrArg (Entry.mk _ _) (sums marked.1 (mem_of_mem_markFirst member) marked.2)
  rw [table, upToDate key, rows, entries]

end DailyRollup

end ProtocolExplorer.Rollups
