import ProtocolExplorer.Reorg.Watcher
import ProtocolExplorer.Rollups.Completeness
import ProtocolExplorer.Rollups.RowCounts

/-!
# Reclassifying gateways

The payouts rollup files a ticket under the classification its gateway has when the ticket is
folded.  Operators edit the classifications at any time, and nothing folds the ticket again.

The system interleaves the pipeline, reorg-watcher iterations and edits of
`broadcaster_classifications`.

* `countsFolded_step` — the step lemma;
* `countsFolded_of_run` — **in a run that changes no ticket behind the checkpoint, the payouts
  rollup counts the tickets up to the checkpoint, under the present classifications.**
-/

set_option autoImplicit false

namespace ProtocolExplorer.Rollups

open ProtocolExplorer.Lib
open ProtocolExplorer.Store
open ProtocolExplorer.Indexer
open ProtocolExplorer.Finality
open ProtocolExplorer.Reorg (ChainView markedBlocks unmarkAll)
open ProtocolExplorer.Valuator (insertValuations)

inductive ClassifiedAction where
  | pipeline (action : PipelineAction)
  | watchReorgs (chain : ChainView)
  | classify (address : Address) (kind : Option BroadcasterKind)

namespace Reclassification

/-- Set the classification of an address, or delete it. -/
def classified (address : Address) (kind : Option BroadcasterKind) (db : Db) : Db :=
  { db with
    broadcasterClassifications :=
      Table.rewriteKey (fun _ => kind) address db.broadcasterClassifications }

def step (db : Db) : ClassifiedAction → Option Db
  | .pipeline action => Pipeline.step db action
  | .watchReorgs chain => some (Reorg.runOnce chain db).1
  | .classify address kind => some (classified address kind db)

/-- The steps the counts need: no ticket at or below the checkpoint is finalized, valued,
orphaned or reclassified, and no batch is cut inside an event. -/
def keepsOrder (db : Db) : ClassifiedAction → Prop
  | .pipeline (.index _) => True
  | .pipeline (.finalize now latestTs finalizedTs) =>
      orchPayouts.NothingLate false (markRow now latestTs finalizedTs)
        (runOnce now latestTs finalizedTs db).sourceTables db
  | .pipeline (.value rows) =>
      orchPayouts.NothingLate false id (insertValuations rows db).sourceTables db
  | .pipeline (.rollEventMetrics _) => True
  | .pipeline (.rollOrchPayouts limit) => orchPayouts.EndsBetweenEvents false limit db
  | .watchReorgs chain =>
      orchPayouts.NothingLate false (unmarkAll (markedBlocks chain db))
        (Reorg.runOnce chain db).1.sourceTables db
  | .classify address kind =>
      orchPayouts.NothingLate false id (classified address kind db).sourceTables db

instance decidableKeepsOrder (db : Db) : ∀ a, Decidable (keepsOrder db a)
  | .pipeline (.index _) => inferInstanceAs (Decidable True)
  | .pipeline (.finalize ..) => inferInstanceAs (Decidable (DailyRollup.NothingLate ..))
  | .pipeline (.value _) => inferInstanceAs (Decidable (DailyRollup.NothingLate ..))
  | .pipeline (.rollEventMetrics _) => inferInstanceAs (Decidable True)
  | .pipeline (.rollOrchPayouts _) =>
      inferInstanceAs (Decidable (DailyRollup.EndsBetweenEvents ..))
  | .watchReorgs _ => inferInstanceAs (Decidable (DailyRollup.NothingLate ..))
  | .classify .. => inferInstanceAs (Decidable (DailyRollup.NothingLate ..))

/-! ## The invariant -/

structure CountsInOrder (db : Db) : Prop where
  ids : IdsValid db.rawProtocolEvents
  mutations : db.reorgMutations = []
  counts : orchPayouts.CountsFolded false db

variable {db : Db}

theorem countsInOrder_start (classifications : Table Address BroadcasterKind) :
    CountsInOrder (Pipeline.start classifications) where
  ids := ⟨List.nodup_nil, by simp [Pipeline.start, Db.empty]⟩
  mutations := rfl
  counts _ := rfl

/-- A step that updates events and adds tentative ones, behind no checkpoint. -/
theorem counts_of_nothingLate {db' : Db} {update : RawEvent → RawEvent} {new : List RawEvent}
    (counts : orchPayouts.CountsFolded false db)
    (late : orchPayouts.NothingLate false update db'.sourceTables db)
    (keeps : ∀ e, (update e).id = e.id)
    (events : db'.rawProtocolEvents = db.rawProtocolEvents.map update ++ new)
    (tentative : ∀ e ∈ new, e.finality = .tentative)
    (table : db'.orchPayoutsDaily = db.orchPayoutsDaily)
    (unmoved : orchPayouts.checkpoint db' = orchPayouts.checkpoint db) :
    orchPayouts.CountsFolded false db' :=
  counts.of_unchanged table (DailyRollup.foldedRows_of_nothingLate late keeps events
    (fun e member => ticketEventRows_of_tentative (tentative e member)) unmoved)

theorem countsInOrder_index {rows : NumberedRows} (holds : CountsInOrder db)
    (fresh : freshIds rows db.rawProtocolEvents) :
    CountsInOrder (Pipeline.indexed rows db) := by
  obtain ⟨new, appended, tentative⟩ := exists_insertEvents_eq_append rows db.rawProtocolEvents
  have events : (Pipeline.indexed rows db).rawProtocolEvents =
      db.rawProtocolEvents.map id ++ new := by
    rw [List.map_id]
    exact appended
  exact ⟨idsValid_insertEvents fresh holds.ids, holds.mutations,
    counts_of_nothingLate holds.counts (fun _ _ changed => absurd rfl changed) (fun _ => rfl)
      events tentative rfl rfl⟩

theorem countsInOrder_finalize {now : Timestamp} {latestTs finalizedTs : ℤ}
    (holds : CountsInOrder db)
    (late : keepsOrder db (.pipeline (.finalize now latestTs finalizedTs))) :
    CountsInOrder (runOnce now latestTs finalizedTs db) := by
  have events : (runOnce now latestTs finalizedTs db).rawProtocolEvents =
      db.rawProtocolEvents.map (markRow now latestTs finalizedTs) ++ [] := by
    rw [List.append_nil, runOnce_rawProtocolEvents]
  have unmoved : orchPayouts.checkpoint (runOnce now latestTs finalizedTs db) =
      orchPayouts.checkpoint db :=
    loadCheckpoint_runOnce now latestTs finalizedTs db (by simp) (by simp) (by simp)
  refine ⟨?_, holds.mutations, counts_of_nothingLate holds.counts late (fun _ => markRow_id)
    events (by simp) rfl unmoved⟩
  rw [runOnce_rawProtocolEvents]
  exact holds.ids.map fun _ => markRow_id

/-- A step that leaves the events alone. -/
theorem countsInOrder_of_events {db' : Db} (holds : CountsInOrder db)
    (late : orchPayouts.NothingLate false id db'.sourceTables db)
    (events : db'.rawProtocolEvents = db.rawProtocolEvents)
    (mutations : db'.reorgMutations = db.reorgMutations)
    (table : db'.orchPayoutsDaily = db.orchPayoutsDaily)
    (unmoved : orchPayouts.checkpoint db' = orchPayouts.checkpoint db) : CountsInOrder db' where
  ids := events.symm ▸ holds.ids
  mutations := mutations.trans holds.mutations
  counts := counts_of_nothingLate holds.counts late (fun _ => rfl)
    (by rw [events, List.map_id, List.append_nil]) (by simp) table unmoved

theorem countsInOrder_watchReorgs {chain : ChainView} (holds : CountsInOrder db)
    (late : keepsOrder db (.watchReorgs chain)) : CountsInOrder (Reorg.runOnce chain db).1 := by
  obtain ⟨audit, frame⟩ := Reorg.runOnce_frame chain db
  rw [keepsOrder] at late
  rw [frame] at late ⊢
  refine ⟨holds.ids.map fun e => Reorg.unmarkAll_id .., holds.mutations, ?_⟩
  exact counts_of_nothingLate holds.counts late (fun e => Reorg.unmarkAll_id ..)
    (List.append_nil _).symm (by simp) rfl rfl

/-- A batch of the event metrics leaves the payouts alone. -/
theorem countsInOrder_rollEventMetrics {limit : ℕ} (holds : CountsInOrder db) :
    CountsInOrder (eventMetrics.foldBatch false limit db) := by
  have sources := eventMetrics.foldBatch_sourceTables false limit db
  refine countsInOrder_of_events holds ?_ (congrArg SourceTables.rawProtocolEvents sources)
    (eventMetrics.foldBatch_reorgMutations ..) ?_ ?_
  · intro e _ changed
    rw [sources] at changed
    exact absurd rfl changed
  · rw [DailyRollup.foldBatch_eq]
    rfl
  · exact eventMetrics.loadCheckpoint_foldBatch_of_ne false (by decide) limit db

theorem countsInOrder_rollOrchPayouts {limit : ℕ} (holds : CountsInOrder db)
    (whole : orchPayouts.EndsBetweenEvents false limit db) :
    CountsInOrder (orchPayouts.foldBatch false limit db) where
  ids := by
    have same : (orchPayouts.foldBatch false limit db).rawProtocolEvents = db.rawProtocolEvents :=
      congrArg SourceTables.rawProtocolEvents (orchPayouts.foldBatch_sourceTables false limit db)
    rw [same]
    exact holds.ids
  mutations := (orchPayouts.foldBatch_reorgMutations ..).trans holds.mutations
  counts := DailyRollup.countsFolded_foldBatch holds.counts whole
    (orchPayouts.pos_eventId _ holds.ids.positive)

/-- A step that changes no ticket behind the checkpoint keeps the counts. -/
theorem countsFolded_step (db : Db) (a : ClassifiedAction) (db' : Db) (holds : CountsInOrder db)
    (allowed : keepsOrder db a) (stepped : step db a = some db') : CountsInOrder db' := by
  cases a with
  | pipeline action =>
      cases action with
      | index rows =>
          simp only [step, Pipeline.step, Option.ite_none_right_eq_some, Option.some.injEq]
            at stepped
          obtain ⟨fresh, rfl⟩ := stepped
          exact countsInOrder_index holds fresh
      | finalize now latestTs finalizedTs =>
          cases stepped
          exact countsInOrder_finalize holds allowed
      | value rows =>
          cases stepped
          exact countsInOrder_of_events holds allowed rfl rfl rfl rfl
      | rollEventMetrics limit =>
          cases stepped
          rw [DailyRollup.runOnce, eventMetrics.processReorgMutations_of_none _
            (eventMetrics.pendingMutations_of_nil holds.mutations)]
          exact countsInOrder_rollEventMetrics holds
      | rollOrchPayouts limit =>
          cases stepped
          rw [DailyRollup.runOnce, orchPayouts.processReorgMutations_of_none _
            (orchPayouts.pendingMutations_of_nil holds.mutations)]
          exact countsInOrder_rollOrchPayouts holds allowed
  | watchReorgs chain =>
      cases stepped
      exact countsInOrder_watchReorgs holds allowed
  | classify address kind =>
      cases stepped
      exact countsInOrder_of_events holds allowed rfl rfl rfl rfl

/-- **In a run that changes no ticket behind the checkpoint, the counts are those of the tickets
up to the checkpoint.** -/
theorem countsFolded_of_run {classifications : Table Address BroadcasterKind}
    (run : GuardedRun step keepsOrder (Pipeline.start classifications) db) :
    orchPayouts.CountsFolded false db :=
  (run.invariant countsFolded_step (countsInOrder_start classifications)).counts

end Reclassification

end ProtocolExplorer.Rollups
