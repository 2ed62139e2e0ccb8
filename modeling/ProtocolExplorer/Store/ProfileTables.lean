import ProtocolExplorer.Store.RawEvent

/-!
# Profile tables

One row of `orch_stake_by_round` is the state of an orchestrator at a `NewRound` event.  The
materialized view `orchestrator_profile` keeps the latest row of each orchestrator, as of its
last refresh.
-/

set_option autoImplicit false

namespace ProtocolExplorer.Store

open ProtocolExplorer.Lib (Decimal)

/-- Values of a `NUMERIC(10, 4)` column. -/
abbrev Percent := Decimal 4

/-- A row of `orch_stake_by_round`, keyed by orchestrator and round. -/
structure OrchStake where
  blockNumber : ℤ
  blockTimestamp : Timestamp
  blockHash : BlockHash
  totalStake : Numeric
  serviceUri : Option String
  latestFeeCutPercent : Percent
  latestRewardCutPercent : Percent
  latestFeeSharePercent : Percent
  isActive : Bool
  lastLifecycleEventAt : Option Timestamp
  triggeringEventId : Option ℤ
  deriving DecidableEq

/-- A row of `orchestrator_profile`, keyed by orchestrator; its columns `as_of_block` and
`last_event_id` are `block_number` and `triggering_event_id` of the underlying row. -/
structure OrchestratorProfile extends OrchStake where
  asOfRound : ℤ
  deriving DecidableEq

end ProtocolExplorer.Store
