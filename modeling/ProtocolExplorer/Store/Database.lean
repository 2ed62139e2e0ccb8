import ProtocolExplorer.Lib.KeyedTable
import ProtocolExplorer.Store.DailyTables
import ProtocolExplorer.Store.GatewayTables
import ProtocolExplorer.Store.ProfileTables

/-!
# The database

One record holds every table the pipeline writes.  Tables with a primary key that the
passes upsert into are keyed tables; the event log is a list in insertion order.
`indexer_checkpoints` holds the progress of every walker under its own name; all but
the recorded finality inputs advance by `GREATEST` (`advanceCheckpoint`), so their
values never decrease (`le_lookup_advanceCheckpoint`).
-/

set_option autoImplicit false

namespace ProtocolExplorer.Store

open ProtocolExplorer.Lib

/-! ## Rows -/

/-- The rows of `indexer_checkpoints`, by walker. -/
inductive CheckpointName where
  | indexer (contract : ContractKind) (suffix : String)
  | finalityWatcher
  | replayFinalityLatestL1Ts
  | replayFinalityFinalizedL1Ts
  | stakerFlowBackfillV2
  | rollup (name : RollupName)
  | rollupReorg (name : RollupName)
  | gateway (axis : GatewayAxis)
  | stakerRoundStakeRefresh
  | stakerOrchProfile
  deriving DecidableEq, Repr

/-- The column `source` of `stake_balances_by_block`. -/
inductive StakeSource where
  | flowDerived
  | earningsClaimedBootstrap
  | both
  | roundRefresh
  deriving DecidableEq, Repr

/-- A row of `stake_balances_by_block`, keyed by delegator and block. -/
structure StakeRow where
  delegateAddress : Address
  blockTimestamp : Timestamp
  blockHash : BlockHash
  bondedPrincipal : Numeric
  pendingStake : Option Numeric
  pendingFees : Option Numeric
  pendingRound : Option ℤ
  source : StakeSource
  triggeringEventId : Option ℤ
  deriving DecidableEq

/-- A row of `delegator_registry`, keyed by delegator. -/
structure RegistryRow where
  firstBondBlock : ℤ
  firstBondEventId : ℤ
  lastSeenBlock : ℤ
  lastSeenEventId : ℤ
  isActive : Bool
  deriving DecidableEq

/-- An audit row of `reorg_events`. -/
structure ReorgEvent where
  divergenceBlock : ℤ
  depth : ℕ
  oldBlockHashes : List BlockHash
  newBlockHashes : List BlockHash
  affectedEventCount : ℕ
  notes : String
  deriving DecidableEq

/-- A row of `reorg_mutations`. -/
structure ReorgMutation where
  id : ℤ
  rawEventId : ℤ
  deriving DecidableEq

/-! ## The record of tables -/

structure Db where
  rawProtocolEvents : List RawEvent
  indexerCheckpoints : Table CheckpointName ℤ
  stakeBalancesByBlock : Table (Address × ℤ) StakeRow
  delegatorRegistry : Table Address RegistryRow
  reorgEvents : List ReorgEvent
  eventValuations : Table ValuationKey ValuationRow
  valuationAttempts : Table AttemptKey AttemptRow
  tokenPricesByBlock : Table PriceKey PriceRow
  valuatorCursors : Table PassKey Cursor
  broadcasterClassifications : Table Address BroadcasterKind
  reorgMutations : List ReorgMutation
  eventMetricsDaily : Table EventMetricsKey (Total EventMetricsSums)
  orchPayoutsDaily : Table PayoutKey (Total (PayoutSums Numeric))
  orchRewardsDaily : Table RewardKey (Total (RewardSums Numeric))
  ticketsDaily : Table TicketKey (Total TicketSums)
  gatewayBalancesByBlock : Table (Address × ℤ) GatewayBalance
  gatewayClaimantsByBlock : Table (Address × Address × ℤ) GatewayClaimant
  gatewayFlows : Table (ℤ × FlowKind) GatewayFlow
  orchStakeByRound : Table (Address × ℤ) OrchStake
  orchestratorProfile : Table Address OrchestratorProfile

namespace Db

/-- The database after the migrations: every table empty. -/
def empty : Db where
  rawProtocolEvents := []
  indexerCheckpoints := ∅
  stakeBalancesByBlock := ∅
  delegatorRegistry := ∅
  reorgEvents := []
  eventValuations := ∅
  valuationAttempts := ∅
  tokenPricesByBlock := ∅
  valuatorCursors := ∅
  broadcasterClassifications := ∅
  reorgMutations := []
  eventMetricsDaily := ∅
  orchPayoutsDaily := ∅
  orchRewardsDaily := ∅
  ticketsDaily := ∅
  gatewayBalancesByBlock := ∅
  gatewayClaimantsByBlock := ∅
  gatewayFlows := ∅
  orchStakeByRound := ∅
  orchestratorProfile := ∅

/-! ## Checkpoints -/

/-- `SELECT last_processed_block FROM indexer_checkpoints WHERE name = …`. -/
def loadCheckpoint (db : Db) (name : CheckpointName) : Option ℤ :=
  db.indexerCheckpoints.lookup name

/-- Insert a checkpoint, or raise the stored one to the `GREATEST` of both. -/
def advanceCheckpoint (db : Db) (name : CheckpointName) (value : ℤ) : Db :=
  { db with
    indexerCheckpoints := Table.upsert db.indexerCheckpoints name fun stored =>
      stored.elim value fun previous => max previous value }

/-- Insert a checkpoint, or overwrite the stored one. -/
def setCheckpoint (db : Db) (name : CheckpointName) (value : ℤ) : Db :=
  { db with indexerCheckpoints := Table.upsert db.indexerCheckpoints name fun _ => value }

variable (db : Db) (name other : CheckpointName) (value : ℤ)

@[simp] theorem advanceCheckpoint_rawProtocolEvents :
    (db.advanceCheckpoint name value).rawProtocolEvents = db.rawProtocolEvents := rfl

@[simp] theorem setCheckpoint_rawProtocolEvents :
    (db.setCheckpoint name value).rawProtocolEvents = db.rawProtocolEvents := rfl

theorem loadCheckpoint_advanceCheckpoint :
    (db.advanceCheckpoint name value).loadCheckpoint other =
      if other = name then
        some ((db.loadCheckpoint name).elim value fun previous => max previous value)
      else db.loadCheckpoint other :=
  Table.lookup_upsert ..

@[simp] theorem loadCheckpoint_advanceCheckpoint_self :
    (db.advanceCheckpoint name value).loadCheckpoint name =
      some ((db.loadCheckpoint name).elim value fun previous => max previous value) := by
  simp [loadCheckpoint_advanceCheckpoint]

variable {name other}

theorem loadCheckpoint_advanceCheckpoint_of_ne (different : other ≠ name) :
    (db.advanceCheckpoint name value).loadCheckpoint other = db.loadCheckpoint other := by
  simp [loadCheckpoint_advanceCheckpoint, different]

theorem loadCheckpoint_setCheckpoint_of_ne (different : other ≠ name) :
    (db.setCheckpoint name value).loadCheckpoint other = db.loadCheckpoint other :=
  Table.lookup_upsert_of_ne different

/-- Advancing never moves a checkpoint back. -/
theorem le_lookup_advanceCheckpoint {previous : ℤ}
    (stored : db.loadCheckpoint other = some previous) :
    ∃ next, (db.advanceCheckpoint name value).loadCheckpoint other = some next ∧
      previous ≤ next := by
  rw [loadCheckpoint_advanceCheckpoint]
  split
  · next same =>
      subst same
      exact ⟨_, rfl, by simp [stored]⟩
  · exact ⟨previous, stored, le_refl previous⟩

end Db

end ProtocolExplorer.Store
