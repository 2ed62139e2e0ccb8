import ProtocolExplorer.Lib.Decimal

/-!
# Raw protocol events

The rows of `raw_protocol_events`, the table every other part of the pipeline reads.
A `PreparedRow` is what the indexer's decoder hands to the insert; a `RawEvent` is the
stored row with its serial id and its finality columns.

The decoder sets `amount_normalized` in every branch that sets `asset`, so the row type
carries that fact (`PreparedRow.amount_of_asset`): a monetary row without an amount
cannot be built.  Block and log positions order the events of a chain (`position`).
-/

set_option autoImplicit false

namespace ProtocolExplorer.Store

open ProtocolExplorer.Lib (Decimal)

abbrev Address := String
abbrev BlockHash := String
abbrev TxHash := String

/-- Instants, in microseconds since the epoch. -/
abbrev Timestamp := ℤ

/-- Values of a `NUMERIC(38, 18)` column. -/
abbrev Numeric := Decimal 18

/-- An amount in wei as a `NUMERIC(38, 18)`, `u256_to_decimal`. -/
def u256ToDecimal (wei : ℕ) : Numeric := ⟨wei⟩

/-- `i64::MAX`. -/
def i64Max : ℤ := 2 ^ 63 - 1

/-- `to_timestamp`: an instant given in seconds. -/
def toTimestamp (seconds : ℤ) : Timestamp := seconds * 1000000

/-- The UTC day of an instant, `date_trunc('day', ts AT TIME ZONE 'UTC')`, counted from
the epoch. -/
def dayUtc (ts : Timestamp) : ℤ := ts.fdiv (86400 * 1000000)

/-- The lifecycle column `finality`. -/
inductive Finality where
  | tentative
  | l1Posted
  | finalized
  deriving DecidableEq, Repr

/-- The indexed contracts, in the order the daemon visits them. -/
inductive ContractKind where
  | BondingManager
  | TicketBroker
  | LivepeerToken
  | RoundsManager
  | Governor
  deriving DecidableEq, Repr

/-- The event names the decoder writes, grouped by contract. -/
inductive EventName where
  | Reward | Bond | Unbond | Rebond | WithdrawStake | TransferBond | EarningsClaimed
  | WithdrawFees | TranscoderActivated | TranscoderDeactivated | TranscoderUpdate
  | TranscoderSlashed | ParameterUpdate | SetController
  | WinningTicketRedeemed | WinningTicketTransfer | DepositFunded | ReserveFunded
  | Withdrawal | Unlock | ReserveClaimed | UnlockCancelled
  | Transfer | Approval | Mint | Burn
  | NewRound
  | ProposalCreated | ProposalExecuted | VoteCast | VoteCastWithParams
  | ProposalCanceled | ProposalQueued
  deriving DecidableEq, Repr

inductive Asset where
  | LPT
  | ETH
  deriving DecidableEq, Repr

/-- The decoded arguments the decoder keeps under `raw_event.decoded` and that some pass or
query reads back: integers, in wei, rounds or parts per million, and the texts of governance. -/
inductive Decoded where
  | none
  | earningsClaimed (rewards fees startRound endRound : ℕ)
  | newRound (round : ℕ)
  | transcoderUpdate (rewardCut feeShare : ℕ)
  | proposalCreated (proposalId : String) (proposer : Address) (voteStart voteEnd : ℕ)
      (description : String)
  | proposalExecuted (proposalId : String)
  | vote (proposalId : String) (voter : Address) (support weight : ℕ) (reason : String)
  deriving DecidableEq, Repr

namespace Decoded

/-- `decoded ->> 'rewards'`, in wei. -/
def rewards : Decoded → Option ℕ
  | earningsClaimed rewards _ _ _ => some rewards
  | _ => Option.none

/-- `decoded ->> 'fees'`, in wei. -/
def fees : Decoded → Option ℕ
  | earningsClaimed _ fees _ _ => some fees
  | _ => Option.none

/-- `decoded ->> 'endRound'`. -/
def endRound : Decoded → Option ℕ
  | earningsClaimed _ _ _ endRound => some endRound
  | _ => Option.none

/-- `decoded ->> 'round'`. -/
def round : Decoded → Option ℕ
  | newRound round => some round
  | _ => Option.none

/-- `decoded ->> 'rewardCut'`, in parts per million. -/
def rewardCut : Decoded → Option ℕ
  | transcoderUpdate rewardCut _ => some rewardCut
  | _ => Option.none

/-- `decoded ->> 'feeShare'`, in parts per million. -/
def feeShare : Decoded → Option ℕ
  | transcoderUpdate _ feeShare => some feeShare
  | _ => Option.none

/-- `decoded ->> 'proposalId'`. -/
def proposalId : Decoded → Option String
  | proposalCreated proposalId .. => some proposalId
  | proposalExecuted proposalId => some proposalId
  | vote proposalId .. => some proposalId
  | _ => Option.none

/-- `decoded ->> 'support'`. -/
def support : Decoded → Option ℕ
  | vote _ _ support _ _ => some support
  | _ => Option.none

/-- `decoded ->> 'weight'`. -/
def weight : Decoded → Option ℕ
  | vote _ _ _ weight _ => some weight
  | _ => Option.none

end Decoded

/-- A decoded log, ready to be inserted. -/
structure PreparedRow where
  txHash : TxHash
  logIndex : ℕ
  blockNumber : ℤ
  blockHash : BlockHash
  blockTimestamp : Timestamp
  contractName : ContractKind
  eventName : EventName
  asset : Option Asset
  amountNormalized : Option Numeric
  isValuable : Bool
  fromAddress : Option Address
  toAddress : Option Address
  decoded : Decoded
  /-- A row that names an asset carries its amount. -/
  amount_of_asset : asset.isSome → amountNormalized.isSome
  deriving DecidableEq

/-- `amount_of_asset` of a row that names an asset and gives an amount. -/
theorem amount_given : true = true → true = true := id

/-- A stored row of `raw_protocol_events`. -/
structure RawEvent extends PreparedRow where
  id : ℤ
  finality : Finality
  isCanonical : Bool
  finalizedAt : Option Timestamp
  deriving DecidableEq

namespace RawEvent

/-- Position on the chain, `(block_number, log_index)` in lexicographic order. -/
def position (e : RawEvent) : Lex (ℤ × ℕ) := toLex (e.blockNumber, e.logIndex)

/-- The unique key `(tx_hash, log_index)`. -/
def logKey (e : RawEvent) : TxHash × ℕ := (e.txHash, e.logIndex)

/-- The common row filter of the passes: canonical, and finalized unless the caller asks
for tentative rows too. -/
def eligible (includeTentative : Bool) (e : RawEvent) : Bool :=
  e.isCanonical && (includeTentative || decide (e.finality = .finalized))

@[simp] theorem eligible_false_iff (e : RawEvent) :
    e.eligible false = true ↔ e.isCanonical = true ∧ e.finality = .finalized := by
  simp [eligible]

theorem eligible_of_finalized {includeTentative : Bool} {e : RawEvent}
    (canonical : e.isCanonical = true) (isFinal : e.finality = .finalized) :
    e.eligible includeTentative = true := by
  simp [eligible, canonical, isFinal]

end RawEvent

/-- The freshly inserted form of a decoded log: `finality = 'tentative'`,
`is_canonical = TRUE`. -/
def PreparedRow.stored (row : PreparedRow) (id : ℤ) : RawEvent :=
  { row with id := id, finality := .tentative, isCanonical := true, finalizedAt := none }

/-- The same row once the finality watcher has stamped it. -/
def PreparedRow.finalizedAs (row : PreparedRow) (id : ℤ) (now : Timestamp) : RawEvent :=
  { row.stored id with finality := .finalized, finalizedAt := some now }

end ProtocolExplorer.Store
