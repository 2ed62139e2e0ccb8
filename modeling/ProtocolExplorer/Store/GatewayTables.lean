import ProtocolExplorer.Store.Valuation

/-!
# Gateway tables

What the TicketBroker history of a gateway is stored as: a balance snapshot per gateway and
block, a reserve snapshot per gateway, claimant and block, and one flow row per funding or
payout event.  The staker walks each of them behind a checkpoint of its own.
-/

set_option autoImplicit false

namespace ProtocolExplorer.Store

/-- The three walks of the gateway pass, by their checkpoints. -/
inductive GatewayAxis where
  | flow
  | claimant
  | balance
  deriving DecidableEq, Repr

instance : Fintype GatewayAxis :=
  ⟨{.flow, .claimant, .balance}, fun axis => by cases axis <;> decide⟩

/-- The column `flow_kind` of `gateway_flows`. -/
inductive FlowKind where
  | depositIn
  | reserveIn
  | reserveTransfer
  | ticketRedeemed
  | reserveClaimed
  | withdrawal
  | other
  deriving DecidableEq, Repr

/-- `SOURCE_RPC_RECONCILED`, the only source written. -/
def sourceRpcReconciled : String := "rpc_reconciled"

/-- A row of `gateway_balances_by_block`, keyed by gateway and block. -/
structure GatewayBalance where
  blockTimestamp : Timestamp
  blockHash : BlockHash
  deposit : Numeric
  reserveFundsRemaining : Numeric
  reserveClaimedInCurrentRound : Numeric
  withdrawRound : ℤ
  unlockInProgress : Bool
  source : String
  triggeringEventId : Option ℤ
  deriving DecidableEq

/-- A row of `gateway_claimants_by_block`, keyed by gateway, claimant and block. -/
structure GatewayClaimant where
  blockTimestamp : Timestamp
  blockHash : BlockHash
  claimableReserve : Numeric
  claimedReserve : Numeric
  source : String
  triggeringEventId : Option ℤ
  deriving DecidableEq

/-- A row of `gateway_flows`, keyed by event and flow kind. -/
structure GatewayFlow where
  gatewayAddress : Address
  claimantAddress : Option Address
  counterpartyAddress : Option Address
  blockNumber : ℤ
  blockTimestamp : Timestamp
  txHash : TxHash
  logIndex : ℕ
  eventName : EventName
  asset : Option Asset
  amountNative : Option Numeric
  amountUsd : Option Numeric
  valuationVersion : Option Version
  deriving DecidableEq

end ProtocolExplorer.Store
