import ProtocolExplorer.Lib.Transition
import ProtocolExplorer.Finality.Watcher
import ProtocolExplorer.Indexer.InsertEvents
import ProtocolExplorer.Rollups.Incremental
import ProtocolExplorer.Rollups.Writers
import ProtocolExplorer.Valuator.Bulk

/-!
# Are the daily rollups complete?

A rollup folds the rows past an event-id checkpoint, but a row becomes eligible when its
event is finalized and valued, in whatever order that happens.  A row that becomes eligible
at or below the checkpoint is never folded; the plainest case is a second valuation of an
event that has been rolled up.

The system interleaves inserts, finality iterations, valuations and iterations of the
event-metrics and payouts rollups with any batch limit.

* `keepsUp_step` — the step lemma;
* `rollups_complete` — **in every run that lets no row become eligible behind a checkpoint,
  a caught-up rollup holds the fold of all its rows**;
* `lateVersion_is_lost` — a schedule with a second valuation version.
-/

set_option autoImplicit false

namespace ProtocolExplorer.Rollups

open ProtocolExplorer.Lib
open ProtocolExplorer.Store
open ProtocolExplorer.Indexer
open ProtocolExplorer.Finality
open ProtocolExplorer.Valuator (insertValuations)

/-! ## The system -/

inductive PipelineAction where
  | index (rows : NumberedRows)
  | finalize (now : Timestamp) (latestTs finalizedTs : ℤ)
  | value (rows : List ValuationRow)
  | rollEventMetrics (limit : ℕ)
  | rollOrchPayouts (limit : ℕ)

namespace Pipeline

/-- Every table empty but the classifications. -/
def start (classifications : Table Address BroadcasterKind) : Db :=
  { Db.empty with broadcasterClassifications := classifications }

/-- The database with more events. -/
def indexed (rows : NumberedRows) (db : Db) : Db :=
  { db with rawProtocolEvents := insertEvents rows db.rawProtocolEvents }

def step (db : Db) : PipelineAction → Option Db
  | .index rows => if freshIds rows db.rawProtocolEvents then some (indexed rows db) else none
  | .finalize now latestTs finalizedTs => some (runOnce now latestTs finalizedTs db)
  | .value rows => some (insertValuations rows db)
  | .rollEventMetrics limit => some (eventMetrics.runOnce false limit db)
  | .rollOrchPayouts limit => some (orchPayouts.runOnce false limit db)

/-! ## The law and its condition -/

/-- A rollup with nothing left to fetch holds, under every key, the fold of all its eligible
rows. -/
def RollupsComplete (db : Db) : Prop :=
  (eventMetrics.CaughtUp false db → eventMetrics.Complete false db) ∧
    (orchPayouts.CaughtUp false db → orchPayouts.Complete false db)

/-- The fee share of a ticket is the same in two states. -/
def sameFeeShare (before after : SourceTables) (row : TicketEventRow) : Prop :=
  feeShareRawAtBlock after row.orchestratorAddress row.position =
    feeShareRawAtBlock before row.orchestratorAddress row.position

/-- The steps the law needs: no row becomes eligible behind a checkpoint, no batch is cut
inside an event, a payout batch finds earlier gateways only on eligible tickets and its
commissions round together with the stored ones, and no insert changes the fee share of a
folded ticket. -/
def keepsUp (db : Db) : PipelineAction → Prop
  | .index rows =>
      ∀ row ∈ orchPayouts.foldedRows false db,
        sameFeeShare db.sourceTables (indexed rows db).sourceTables row
  | .finalize now latestTs finalizedTs =>
      let after := (runOnce now latestTs finalizedTs db).sourceTables
      eventMetrics.NothingLate false (markRow now latestTs finalizedTs) after db ∧
        orchPayouts.NothingLate false (markRow now latestTs finalizedTs) after db
  | .value rows =>
      let after := (insertValuations rows db).sourceTables
      eventMetrics.NothingLate false id after db ∧ orchPayouts.NothingLate false id after db
  | .rollEventMetrics limit => eventMetrics.WholeBatch false limit db
  | .rollOrchPayouts limit =>
      orchPayouts.WholeBatch false limit db ∧
        orchPayouts.RoundsTogether false limit db

instance decidableKeepsUp (db : Db) : ∀ a, Decidable (keepsUp db a)
  | .index rows =>
      inferInstanceAs (Decidable (∀ row ∈ orchPayouts.foldedRows false db,
        feeShareRawAtBlock (indexed rows db).sourceTables row.orchestratorAddress row.position =
          feeShareRawAtBlock db.sourceTables row.orchestratorAddress row.position))
  | .finalize .. => inferInstanceAs (Decidable (_ ∧ _))
  | .value _ => inferInstanceAs (Decidable (_ ∧ _))
  | .rollEventMetrics limit => inferInstanceAs (Decidable (eventMetrics.WholeBatch false limit db))
  | .rollOrchPayouts _ => inferInstanceAs (Decidable (_ ∧ _))

/-! ## The invariant -/

structure KeepsUp (db : Db) : Prop where
  ids : IdsValid db.rawProtocolEvents
  mutations : db.reorgMutations = []
  metrics : eventMetrics.UpToDate false db
  payouts : orchPayouts.UpToDate false db

variable {db : Db}

theorem keepsUp_start (classifications : Table Address BroadcasterKind) :
    KeepsUp (start classifications) where
  ids := ⟨List.nodup_nil, by simp [start, Db.empty]⟩
  mutations := rfl
  metrics _ := rfl
  payouts _ := rfl

theorem keepsUp_index {rows : NumberedRows} (holds : KeepsUp db)
    (fresh : freshIds rows db.rawProtocolEvents) (allowed : keepsUp db (.index rows)) :
    KeepsUp (indexed rows db) := by
  obtain ⟨new, appended, tentative⟩ := exists_insertEvents_eq_append rows db.rawProtocolEvents
  have events : (indexed rows db).rawProtocolEvents = db.rawProtocolEvents.map id ++ new := by
    rw [List.map_id]
    exact appended
  refine ⟨idsValid_insertEvents fresh holds.ids, holds.mutations, ?_, ?_⟩
  · refine holds.metrics.of_unchanged rfl ?_ fun _ _ _ => rfl
    exact DailyRollup.foldedRows_of_nothingLate (fun _ _ changed => absurd rfl changed)
      (fun _ => rfl) events (fun e member => eventValuationRows_of_tentative (tentative e member)) rfl
  · refine holds.payouts.of_unchanged rfl ?_ fun row folded new => ?_
    · exact DailyRollup.foldedRows_of_nothingLate (fun _ _ changed => absurd rfl changed)
        (fun _ => rfl) events (fun e member => ticketEventRows_of_tentative (tentative e member)) rfl
    · show payoutSums _ row new = payoutSums _ row new
      simp only [payoutSums]
      rw [allowed row folded]

/-- Finality iterations leave the shares in force alone. -/
theorem rawPercentAt_runOnce (field : Decoded → Option ℕ) (now : Timestamp)
    (latestTs finalizedTs : ℤ) (db : Db) (orchestrator : Address) (position : Lex (ℤ × ℕ)) :
    rawPercentAt field (runOnce now latestTs finalizedTs db).sourceTables orchestrator position =
      rawPercentAt field db.sourceTables orchestrator position := by
  have events : (runOnce now latestTs finalizedTs db).sourceTables.rawProtocolEvents =
      db.rawProtocolEvents.map (markRow now latestTs finalizedTs) := runOnce_rawProtocolEvents ..
  have position_mark : ∀ e : RawEvent,
      (markRow now latestTs finalizedTs e).position = e.position := fun e => by
    simp only [RawEvent.position, markRow_toPreparedRow]
  have updates : transcoderUpdates (runOnce now latestTs finalizedTs db).sourceTables orchestrator =
      (transcoderUpdates db.sourceTables orchestrator).map (markRow now latestTs finalizedTs) := by
    rw [transcoderUpdates, events, List.filter_map, orderBy_map position_mark]
    simp [transcoderUpdates, Function.comp_def, Db.sourceTables]
  rw [rawPercentAt, updates, List.takeWhile_map, List.getLast?_map]
  simp [rawPercentAt, Function.comp_def, position_mark, Option.bind_map]

theorem keepsUp_finalize {now : Timestamp} {latestTs finalizedTs : ℤ} (holds : KeepsUp db)
    (allowed : keepsUp db (.finalize now latestTs finalizedTs)) :
    KeepsUp (runOnce now latestTs finalizedTs db) := by
  have events : (runOnce now latestTs finalizedTs db).rawProtocolEvents =
      db.rawProtocolEvents.map (markRow now latestTs finalizedTs) ++ [] := by
    rw [List.append_nil, runOnce_rawProtocolEvents]
  have unmoved : ∀ name, (runOnce now latestTs finalizedTs db).loadCheckpoint (.rollup name) =
      db.loadCheckpoint (.rollup name) := fun name =>
    loadCheckpoint_runOnce now latestTs finalizedTs db (by simp) (by simp) (by simp)
  refine ⟨?_, holds.mutations, ?_, ?_⟩
  · rw [runOnce_rawProtocolEvents]
    exact holds.ids.map fun _ => markRow_id
  · refine holds.metrics.of_unchanged rfl ?_ fun _ _ _ => rfl
    exact DailyRollup.foldedRows_of_nothingLate allowed.1 (fun _ => markRow_id) events (by simp)
      (unmoved _)
  · refine holds.payouts.of_unchanged rfl ?_ fun row _ new => ?_
    · exact DailyRollup.foldedRows_of_nothingLate allowed.2 (fun _ => markRow_id) events (by simp)
        (unmoved _)
    · show payoutSums _ row new = payoutSums _ row new
      simp only [payoutSums, feeShareRawAtBlock, rawPercentAt_runOnce]

theorem keepsUp_value {rows : List ValuationRow} (holds : KeepsUp db)
    (allowed : keepsUp db (.value rows)) : KeepsUp (insertValuations rows db) := by
  have events : (insertValuations rows db).rawProtocolEvents =
      db.rawProtocolEvents.map id ++ [] := by
    rw [List.append_nil, List.map_id]
    rfl
  refine ⟨holds.ids, holds.mutations, ?_, ?_⟩
  · refine holds.metrics.of_unchanged rfl ?_ fun _ _ _ => rfl
    exact DailyRollup.foldedRows_of_nothingLate allowed.1 (fun _ => rfl) events (by simp) rfl
  · refine holds.payouts.of_unchanged rfl ?_ fun _ _ _ => rfl
    exact DailyRollup.foldedRows_of_nothingLate allowed.2 (fun _ => rfl) events (by simp) rfl

/-- A batch of one rollup leaves another one up to date. -/
theorem upToDate_of_foreign {Row Key Label Sums Stored Row' Key' Label' Sums' Stored' : Type}
    [AddCommMonoid Sums] [AddCommMonoid Stored] [DecidableEq Label] [DecidableEq Key]
    [AddCommMonoid Sums'] [AddCommMonoid Stored'] [DecidableEq Label'] [DecidableEq Key']
    {r : DailyRollup Row Key Label Sums Stored} {other : DailyRollup Row' Key' Label' Sums' Stored'}
    {limit : ℕ} (upToDate : r.UpToDate false db) (different : r.name ≠ other.name)
    (table : r.table (other.foldBatch false limit db) = r.table db) :
    r.UpToDate false (other.foldBatch false limit db) := by
  have unmoved : r.checkpoint (other.foldBatch false limit db) = r.checkpoint db :=
    other.loadCheckpoint_foldBatch_of_ne false (by simpa using different) limit db
  refine upToDate.of_unchanged table ?_ fun row _ new => by rw [other.foldBatch_sourceTables]
  rw [DailyRollup.foldedRows, DailyRollup.foldedRows, other.foldBatch_sourceTables, unmoved]

theorem keepsUp_rollEventMetrics {limit : ℕ} (holds : KeepsUp db)
    (whole : eventMetrics.WholeBatch false limit db) :
    KeepsUp (eventMetrics.foldBatch false limit db) where
  ids := by
    have same : (eventMetrics.foldBatch false limit db).rawProtocolEvents = db.rawProtocolEvents :=
      congrArg SourceTables.rawProtocolEvents (eventMetrics.foldBatch_sourceTables false limit db)
    rw [same]
    exact holds.ids
  mutations := (eventMetrics.foldBatch_reorgMutations ..).trans holds.mutations
  metrics := DailyRollup.upToDate_foldBatch holds.metrics whole (fun _ _ _ _ _ _ => rfl)
    (eventMetrics.pos_eventId _ holds.ids.positive)
  payouts := by
    refine upToDate_of_foreign holds.payouts (by decide) ?_
    rw [DailyRollup.foldBatch_eq]
    rfl

theorem keepsUp_rollOrchPayouts {limit : ℕ} (holds : KeepsUp db)
    (whole : orchPayouts.WholeBatch false limit db)
    (rounds : orchPayouts.RoundsTogether false limit db) :
    KeepsUp (orchPayouts.foldBatch false limit db) where
  ids := by
    have same : (orchPayouts.foldBatch false limit db).rawProtocolEvents = db.rawProtocolEvents :=
      congrArg SourceTables.rawProtocolEvents (orchPayouts.foldBatch_sourceTables false limit db)
    rw [same]
    exact holds.ids
  mutations := (orchPayouts.foldBatch_reorgMutations ..).trans holds.mutations
  metrics := by
    refine upToDate_of_foreign holds.metrics (by decide) ?_
    rw [DailyRollup.foldBatch_eq]
    rfl
  payouts := DailyRollup.upToDate_foldBatch holds.payouts whole rounds
    (orchPayouts.pos_eventId _ holds.ids.positive)

/-- An allowed step keeps both rollups up to date. -/
theorem keepsUp_step (db : Db) (a : PipelineAction) (db' : Db) (holds : KeepsUp db)
    (allowed : keepsUp db a) (stepped : step db a = some db') : KeepsUp db' := by
  cases a with
  | index rows =>
      simp only [step, Option.ite_none_right_eq_some, Option.some.injEq] at stepped
      obtain ⟨fresh, rfl⟩ := stepped
      exact keepsUp_index holds fresh allowed
  | finalize now latestTs finalizedTs =>
      cases stepped
      exact keepsUp_finalize holds allowed
  | value rows =>
      cases stepped
      exact keepsUp_value holds allowed
  | rollEventMetrics limit =>
      cases stepped
      rw [DailyRollup.runOnce, eventMetrics.processReorgMutations_of_none _
        (eventMetrics.pendingMutations_of_nil holds.mutations)]
      exact keepsUp_rollEventMetrics holds allowed
  | rollOrchPayouts limit =>
      cases stepped
      rw [DailyRollup.runOnce, orchPayouts.processReorgMutations_of_none _
        (orchPayouts.pendingMutations_of_nil holds.mutations)]
      exact keepsUp_rollOrchPayouts holds allowed.1 allowed.2

/-- **In a run that lets nothing become eligible behind a checkpoint, the rollups are complete
whenever they have caught up.** -/
theorem rollups_complete {classifications : Table Address BroadcasterKind}
    (run : GuardedRun step keepsUp (start classifications) db) : RollupsComplete db := by
  have holds : KeepsUp db := run.invariant keepsUp_step (keepsUp_start classifications)
  exact ⟨DailyRollup.complete_of_caughtUp holds.metrics,
    DailyRollup.complete_of_caughtUp holds.payouts⟩

/-! ## Two versions of one event -/

/-- A redeemed ticket of 1 ETH. -/
def ticketRow (logIndex : ℕ) (gateway : Address) : PreparedRow where
  txHash := "0xt"
  logIndex := logIndex
  blockNumber := 1
  blockHash := "0xb"
  blockTimestamp := 0
  contractName := .TicketBroker
  eventName := .WinningTicketRedeemed
  asset := some .ETH
  amountNormalized := some ⟨10 ^ 18⟩
  isValuable := true
  fromAddress := some gateway
  toAddress := some "0xo"
  decoded := .none
  amount_of_asset := amount_given

/-- A valuation of such a ticket. -/
def ticketValuation (eventId : ℤ) (version : Version) : ValuationRow where
  eventId := eventId
  valuationVersion := version
  asset := .ETH
  pricingMethod := "chainlink_eth_usd"
  source := "chainlink_dual_rpc"
  status := .priced
  blockNumber := 1
  amountNative := ⟨10 ^ 18⟩
  nativeUsdPrice := some ⟨2000 * 10 ^ 18⟩
  amountUsd := some ⟨2000 * 10 ^ 18⟩
  pricingChain := "chainlink"

/-- Two tickets are finalized, valued and rolled up, one at a time. -/
def orderlySchedule : List PipelineAction :=
  [.index [(1, ticketRow 1 "0xg"), (2, ticketRow 2 "0xg")], .finalize 0 1000 1000,
    .value [ticketValuation 1 "v1", ticketValuation 2 "v1"],
    .rollEventMetrics 1, .rollEventMetrics 1, .rollOrchPayouts 1, .rollOrchPayouts 1]

/-- Both rollups have caught up with both tickets. -/
theorem orderlySchedule_complete :
    ∃ db, execute step (start ∅) orderlySchedule = some db ∧ eventMetrics.CaughtUp false db ∧
      orchPayouts.CaughtUp false db ∧ RollupsComplete db := by
  refine ⟨(execute step (start ∅) orderlySchedule).get (by decide +kernel),
    (Option.some_get _).symm, by unfold DailyRollup.CaughtUp; decide +kernel,
    by unfold DailyRollup.CaughtUp; decide +kernel, ?_⟩
  exact rollups_complete (execute_guardedRun (Option.some_get _).symm (by decide +kernel))

/-- The first ticket is valued under a second version after both have been rolled up. -/
def lateVersionSchedule : List PipelineAction :=
  orderlySchedule ++ [.value [ticketValuation 1 "v2"], .rollEventMetrics 10, .rollOrchPayouts 10]

/-- **A late version is lost**: both rollups have caught up, and neither has a row for it. -/
theorem lateVersion_is_lost : ¬ ∀ db, Run step (start ∅) db → RollupsComplete db := by
  intro law
  have executed : execute step (start ∅) lateVersionSchedule =
      some ((execute step (start ∅) lateVersionSchedule).get (by decide +kernel)) :=
    (Option.some_get _).symm
  have complete := (law _ (execute_run executed)).1 (by unfold DailyRollup.CaughtUp; decide +kernel)
    ⟨0, .TicketBroker, .WinningTicketRedeemed, .ETH, "v2"⟩
  exact absurd complete (by decide +kernel)

end Pipeline

end ProtocolExplorer.Rollups
