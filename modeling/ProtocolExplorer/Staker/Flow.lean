import ProtocolExplorer.Lib.OrderedBatch
import ProtocolExplorer.Store.Database

/-!
# Stake flow

`run_flow_backfill` takes the stake events past the flow checkpoint, collects the
delegators they name, fetches the history of these delegators and replays it into
`stake_balances_by_block` and `delegator_registry`.

Three functions decide which events a replay sees: `affectedDelegators` of the batch,
the history query `fetchFullHistory`, which matches either address of an event, and the
bucketing `perDelegator` by `delegatorsOf`, which for most events is the sender only.
`replayDelegator` is a pure fold over one bucket, written here as one step per event
(`replayStep`).
-/

set_option autoImplicit false

namespace ProtocolExplorer.Staker

open ProtocolExplorer.Lib
open ProtocolExplorer.Store

/-- `FLOW_BATCH_SIZE`. -/
def flowBatchSize : ℕ := 5000

def zeroAddress : Address := "0x0000000000000000000000000000000000000000"

/-- `STAKE_EVENT_NAMES`. -/
def isStakeEvent : EventName → Bool
  | .Bond | .Unbond | .Rebond | .WithdrawStake | .EarningsClaimed | .TransferBond => true
  | _ => false

/-! ## Replay of one delegator -/

/-- One stake row to persist: the delegator's state at the end of a block. -/
structure RowWrite where
  blockNumber : ℤ
  blockTimestamp : Timestamp
  blockHash : BlockHash
  delegateAddress : Address
  bondedPrincipal : Numeric
  source : StakeSource
  triggeringEventId : ℤ
  deriving DecidableEq

structure ReplayOutcome where
  rows : List RowWrite
  registry : Option RegistryRow
  skippedUnregistered : ℕ
  deriving DecidableEq

/-- The local variables of the replay loop. -/
structure ReplayState where
  balance : Numeric
  delegate : Option Address
  registered : Bool
  firstBond : Option (ℤ × ℤ)
  lastSeen : Option (ℤ × ℤ)
  rows : List RowWrite
  skippedUnregistered : ℕ

def ReplayState.start : ReplayState where
  balance := 0
  delegate := none
  registered := false
  firstBond := none
  lastSeen := none
  rows := []
  skippedUnregistered := 0

/-- Insertion into the map from block number to row: rows ascend by block, and a later
event of the same block overwrites. -/
def insertRow (row : RowWrite) : List RowWrite → List RowWrite
  | [] => [row]
  | head :: rest =>
      if row.blockNumber < head.blockNumber then row :: head :: rest
      else if row.blockNumber = head.blockNumber then row :: rest
      else head :: insertRow row rest

/-- `write_row`. -/
def ReplayState.writeRow (s : ReplayState) (ev : RawEvent) (source : StakeSource) :
    ReplayState :=
  { s with
    rows := insertRow
      { blockNumber := ev.blockNumber
        blockTimestamp := ev.blockTimestamp
        blockHash := ev.blockHash
        delegateAddress := s.delegate.getD zeroAddress
        bondedPrincipal := s.balance
        source := source
        triggeringEventId := ev.id } s.rows }

/-- Mark the delegator as registered, at this event when it is the first time. -/
def ReplayState.register (s : ReplayState) (ev : RawEvent) : ReplayState :=
  if s.registered then s
  else { s with
    registered := true, firstBond := s.firstBond.or (some (ev.blockNumber, ev.id)) }

/-- Follow the delegate an event names, if it names one. -/
def ReplayState.follow (s : ReplayState) (ev : RawEvent) : ReplayState :=
  { s with delegate := ev.toAddress.or s.delegate }

def ReplayState.see (s : ReplayState) (ev : RawEvent) : ReplayState :=
  { s with lastSeen := some (ev.blockNumber, ev.id) }

def ReplayState.skip (s : ReplayState) : ReplayState :=
  { s with skippedUnregistered := s.skippedUnregistered + 1 }

def ReplayState.credit (s : ReplayState) (amount : Numeric) : ReplayState :=
  { s with balance := s.balance + amount }

def ReplayState.debit (s : ReplayState) (amount : Numeric) : ReplayState :=
  { s with balance := s.balance - amount }

/-- `earnings_rewards_lpt`: the claimed rewards, zero when the payload has none. -/
def earningsRewardsLpt (ev : RawEvent) : Numeric := ⟨(ev.decoded.rewards.getD 0 : ℕ)⟩

/-- The body of the replay loop. -/
def replayStep (delegator : Address) (s : ReplayState) (ev : RawEvent) : ReplayState :=
  let isFrom := decide (ev.fromAddress = some delegator)
  let isTo := decide (ev.toAddress = some delegator)
  let amount := ev.amountNormalized.getD 0
  match ev.eventName, isFrom with
  | .Bond, true =>
      (((((s.register ev).credit amount).follow ev).writeRow ev .flowDerived)).see ev
  | .Unbond, true =>
      if s.registered then
        (((s.debit amount).follow ev).writeRow ev .flowDerived).see ev
      else s.skip
  | .WithdrawStake, true =>
      -- the stake already left `bonded_principal` at the Unbond
      if s.registered then (s.writeRow ev .flowDerived).see ev else s.skip
  | .Rebond, true =>
      if s.registered then
        (((s.credit amount).follow ev).writeRow ev .flowDerived).see ev
      else s.skip
  | .EarningsClaimed, true =>
      -- claims before the first Bond write a row but do not register
      (((s.credit (earningsRewardsLpt ev)).follow ev).writeRow ev
        (if s.registered then .flowDerived else .earningsClaimedBootstrap)).see ev
  | .TransferBond, _ =>
      if isFrom && !isTo then
        if s.registered then (s.writeRow ev .flowDerived).see ev else s.skip
      else if isTo then ((s.register ev).writeRow ev .flowDerived).see ev
      else s.see ev
  | _, _ => s

/-- `replay_delegator`: the rows and the registry state of an event stream. -/
def replayDelegator (delegator : Address) (events : List RawEvent) : ReplayOutcome :=
  let s := events.foldl (replayStep delegator) ReplayState.start
  let registry :=
    match s.registered, s.firstBond, s.lastSeen with
    | true, some firstBond, some lastSeen =>
        some
          { firstBondBlock := firstBond.1
            firstBondEventId := firstBond.2
            lastSeenBlock := lastSeen.1
            lastSeenEventId := lastSeen.2
            isActive := decide (0 < s.balance) }
    | _, _, _ => none
  { rows := s.rows, registry := registry, skippedUnregistered := s.skippedUnregistered }

/-! ## Which events a run replays -/

/-- `delegators_of`: both sides of a TransferBond, otherwise the sender. -/
def delegatorsOf (ev : RawEvent) : List Address :=
  match ev.eventName with
  | .TransferBond =>
      ev.fromAddress.toList ++
        (ev.toAddress.filter fun other => decide (some other ≠ ev.fromAddress)).toList
  | _ => ev.fromAddress.toList

/-- `affected_delegators`. -/
def affectedDelegators (events : List RawEvent) : List Address :=
  (events.flatMap delegatorsOf).dedup

/-- The stake events a flow run may read. -/
def stakeEvents (includeTentative : Bool) (db : Db) : List RawEvent :=
  db.rawProtocolEvents.filter fun e => e.eligible includeTentative && isStakeEvent e.eventName

/-- Is an event past the checkpoint (`$2 IS NULL OR id > $2`)? -/
def pastCheckpoint (checkpoint : Option ℤ) (e : RawEvent) : Bool :=
  checkpoint.all fun seen => decide (seen < e.id)

/-- `fetch_new_event_heads`: the next batch, in ingestion order. -/
def fetchNewEventHeads (includeTentative : Bool) (resumeFromEventId : Option ℤ) (limit : ℕ)
    (db : Db) : List RawEvent :=
  orderedBatch (·.id) limit
    ((stakeEvents includeTentative db).filter (pastCheckpoint resumeFromEventId))

/-- `from_address = ANY($2) OR to_address = ANY($2)`. -/
def touches (delegators : List Address) (e : RawEvent) : Bool :=
  e.fromAddress.any (· ∈ delegators) || e.toAddress.any (· ∈ delegators)

/-- `fetch_full_history`, in chain order. -/
def fetchFullHistory (includeTentative : Bool) (delegators : List Address) (db : Db) :
    List RawEvent :=
  if delegators = [] then []
  else orderBy RawEvent.position ((stakeEvents includeTentative db).filter (touches delegators))

/-- The grouping loop: every delegator an event of the history belongs to, with its events
in history order. -/
def perDelegator (history : List RawEvent) : List (Address × List RawEvent) :=
  (history.flatMap delegatorsOf).dedup.map fun d =>
    (d, history.filter fun e => decide (d ∈ delegatorsOf e))

/-! ## Writes -/

/-- `upsert_stake_row`: the pending columns of a stored row are kept. -/
def upsertStakeRow (delegator : Address) (db : Db) (row : RowWrite) : Db :=
  { db with
    stakeBalancesByBlock :=
      Table.upsert db.stakeBalancesByBlock (delegator, row.blockNumber) fun stored =>
        { delegateAddress := row.delegateAddress
          blockTimestamp := row.blockTimestamp
          blockHash := row.blockHash
          bondedPrincipal := row.bondedPrincipal
          pendingStake := stored.bind StakeRow.pendingStake
          pendingFees := stored.bind StakeRow.pendingFees
          pendingRound := stored.bind StakeRow.pendingRound
          source := row.source
          triggeringEventId := some row.triggeringEventId } }

/-- `upsert_registry`. -/
def upsertRegistry (delegator : Address) (db : Db) (row : RegistryRow) : Db :=
  { db with delegatorRegistry := Table.upsert db.delegatorRegistry delegator fun _ => row }

/-- Persist the outcome of one delegator's replay. -/
def persistOutcome (db : Db) (delegator : Address) (outcome : ReplayOutcome) : Db :=
  let stored := outcome.rows.foldl (upsertStakeRow delegator) db
  outcome.registry.elim stored (upsertRegistry delegator stored)

structure FlowSummary where
  eventsSeen : ℕ
  delegatorsReplayed : ℕ
  stakeRowsWritten : ℕ
  delegatorsRegistered : ℕ
  skippedUnregistered : ℕ
  checkpointEventId : Option ℤ
  deriving DecidableEq

/-- The batch a run would take in this state. -/
def flowBatch (includeTentative : Bool) (db : Db) : List RawEvent :=
  fetchNewEventHeads includeTentative (db.loadCheckpoint .stakerFlowBackfillV2) flowBatchSize db

/-- The buckets a run would replay in this state. -/
def flowReplays (includeTentative : Bool) (db : Db) : List (Address × List RawEvent) :=
  perDelegator
    (fetchFullHistory includeTentative (affectedDelegators (flowBatch includeTentative db)) db)

/-- `run_flow_backfill`. -/
def runFlowBackfill (includeTentative : Bool) (db : Db) : Db × FlowSummary :=
  let checkpoint := db.loadCheckpoint .stakerFlowBackfillV2
  let newEvents := fetchNewEventHeads includeTentative checkpoint flowBatchSize db
  match (newEvents.map (·.id)).max? with
  | none =>
      (db.advanceCheckpoint .stakerFlowBackfillV2 (checkpoint.getD 0),
        { eventsSeen := 0, delegatorsReplayed := 0, stakeRowsWritten := 0,
          delegatorsRegistered := 0, skippedUnregistered := 0, checkpointEventId := checkpoint })
  | some maxEventId =>
      let affected := affectedDelegators newEvents
      let history := fetchFullHistory includeTentative affected db
      let previouslyRegistered := affected.filter fun d => (db.delegatorRegistry.lookup d).isSome
      let outcomes := (perDelegator history).map fun (d, events) => (d, replayDelegator d events)
      let written := outcomes.foldl (fun db (d, outcome) => persistOutcome db d outcome) db
      (written.advanceCheckpoint .stakerFlowBackfillV2 maxEventId,
        { eventsSeen := newEvents.length
          delegatorsReplayed := outcomes.length
          stakeRowsWritten := (outcomes.map fun (_, outcome) => outcome.rows.length).sum
          delegatorsRegistered :=
            (outcomes.filter fun (d, outcome) =>
              outcome.registry.isSome && decide (d ∉ previouslyRegistered)).length
          skippedUnregistered := (outcomes.map fun (_, outcome) => outcome.skippedUnregistered).sum
          checkpointEventId := some maxEventId })

/-! ## The run as a fold over its buckets -/

/-- Persist the replay of one bucket. -/
def persistReplay (db : Db) (bucket : Address × List RawEvent) : Db :=
  persistOutcome db bucket.1 (replayDelegator bucket.1 bucket.2)

/-- The checkpoint a run asks for: the last id of its batch, or the old value. -/
def flowTarget (includeTentative : Bool) (db : Db) : ℤ :=
  ((flowBatch includeTentative db).map (·.id)).max?.getD
    ((db.loadCheckpoint .stakerFlowBackfillV2).getD 0)

/-- A run persists the replay of each of its buckets, then advances its checkpoint. -/
theorem runFlowBackfill_fst (includeTentative : Bool) (db : Db) :
    (runFlowBackfill includeTentative db).1 =
      ((flowReplays includeTentative db).foldl persistReplay db).advanceCheckpoint
        .stakerFlowBackfillV2 (flowTarget includeTentative db) := by
  unfold runFlowBackfill flowTarget flowReplays flowBatch
  dsimp only
  cases largest : ((fetchNewEventHeads includeTentative
      (db.loadCheckpoint .stakerFlowBackfillV2) flowBatchSize db).map (·.id)).max? with
  | none =>
      have nothing := List.map_eq_nil_iff.mp (List.max?_eq_none_iff.mp largest)
      simp [nothing, affectedDelegators, fetchFullHistory, perDelegator]
  | some maxEventId =>
      simp only [Option.getD_some, List.foldl_map]
      rfl

/-- Persisting replays writes the two staker tables only. -/
theorem foldl_persistReplay_frame (buckets : List (Address × List RawEvent)) (db : Db) :
    ∃ stake registry, buckets.foldl persistReplay db =
      { db with stakeBalancesByBlock := stake, delegatorRegistry := registry } := by
  have rows : ∀ (delegator : Address) (writes : List RowWrite) (stored : Db),
      ∃ stake, writes.foldl (upsertStakeRow delegator) stored =
        { stored with stakeBalancesByBlock := stake } := by
    intro delegator writes
    induction writes with
    | nil => exact fun stored => ⟨stored.stakeBalancesByBlock, rfl⟩
    | cons row rest inductionHypothesis =>
        intro stored
        obtain ⟨stake, same⟩ := inductionHypothesis (upsertStakeRow delegator stored row)
        exact ⟨stake, same⟩
  induction buckets generalizing db with
  | nil => exact ⟨db.stakeBalancesByBlock, db.delegatorRegistry, rfl⟩
  | cons bucket rest inductionHypothesis =>
      obtain ⟨stake, registry, later⟩ := inductionHypothesis (persistReplay db bucket)
      obtain ⟨own, stored⟩ := rows bucket.1 (replayDelegator bucket.1 bucket.2).rows db
      refine ⟨stake, registry, ?_⟩
      rw [List.foldl_cons, later, persistReplay, persistOutcome, stored]
      cases (replayDelegator bucket.1 bucket.2).registry <;> rfl

/-- A run reads the events and does not write them. -/
@[simp] theorem runFlowBackfill_rawProtocolEvents (includeTentative : Bool) (db : Db) :
    (runFlowBackfill includeTentative db).1.rawProtocolEvents = db.rawProtocolEvents := by
  obtain ⟨_, _, persisted⟩ := foldl_persistReplay_frame (flowReplays includeTentative db) db
  rw [runFlowBackfill_fst, persisted, Db.advanceCheckpoint_rawProtocolEvents]

/-- A run raises its own checkpoint to the end of its batch. -/
theorem loadCheckpoint_runFlowBackfill (includeTentative : Bool) (db : Db) :
    (runFlowBackfill includeTentative db).1.loadCheckpoint .stakerFlowBackfillV2 =
      some ((db.loadCheckpoint .stakerFlowBackfillV2).elim (flowTarget includeTentative db)
        fun previous => max previous (flowTarget includeTentative db)) := by
  obtain ⟨_, _, persisted⟩ := foldl_persistReplay_frame (flowReplays includeTentative db) db
  rw [runFlowBackfill_fst, persisted, Db.loadCheckpoint_advanceCheckpoint_self]
  rfl

end ProtocolExplorer.Staker
