import ProtocolExplorer.Store.RawEvent

/-!
# Valuation rows

The tables the valuator writes: priced or failed outcomes per event, version and asset,
the attempts behind them, the prices they used, and one cursor row per pass.
-/

set_option autoImplicit false

namespace ProtocolExplorer.Store

abbrev Version := String

/-- The version `price_lpt_amount` stamps on every TWAP price. -/
def twapVersion : Version := "v1_lpt_weth_twap_30min_x_chainlink_eth"

/-- `v1` with `DEGRADED_VERSION_SUFFIX`, stamped on every degraded spot price. -/
def degradedVersion : Version := "v1_degraded_spot_pre_cardinality"

inductive ResultStatus where
  | priced
  | failedMissingPool
  | failedMissingOracle
  | failedSequencerOutage
  deriving DecidableEq, Repr

/-- The column as stored. -/
def ResultStatus.text : ResultStatus → String
  | .priced => "priced"
  | .failedMissingPool => "failed_missing_pool"
  | .failedMissingOracle => "failed_missing_oracle"
  | .failedSequencerOutage => "failed_sequencer_outage"

/-- `result_status LIKE 'failed_%'`. -/
def ResultStatus.isFailed : ResultStatus → Bool
  | .priced => false
  | _ => true

/-- Primary key of `event_valuations`. -/
abbrev ValuationKey := ℤ × Version × Asset

/-- A row offered to `event_valuations`, with its key. -/
structure ValuationRow where
  eventId : ℤ
  valuationVersion : Version
  asset : Asset
  pricingMethod : String
  source : String
  status : ResultStatus
  blockNumber : ℤ
  amountNative : Numeric
  nativeUsdPrice : Option Numeric
  amountUsd : Option Numeric
  pricingChain : String
  deriving DecidableEq

def ValuationRow.key (row : ValuationRow) : ValuationKey :=
  (row.eventId, row.valuationVersion, row.asset)

/-- A row offered to `valuation_attempts`. -/
structure AttemptRow where
  eventId : ℤ
  valuationVersion : Version
  asset : Asset
  resultStatus : ResultStatus
  errorDetail : Option String
  deriving DecidableEq

def AttemptRow.key (row : AttemptRow) : ValuationKey :=
  (row.eventId, row.valuationVersion, row.asset)

/-- The unique key of `valuation_attempts`: a valuation key and the attempt's number. -/
abbrev AttemptKey := ValuationKey × ℕ

/-- Primary key of `token_prices_by_block`: asset, quote, block and source. -/
abbrev PriceKey := String × String × ℤ × String

/-- A row offered to `token_prices_by_block`. -/
structure PriceRow where
  asset : String
  quote : String
  blockNumber : ℤ
  blockHash : BlockHash
  blockTimestamp : Timestamp
  price : Numeric
  source : String
  poolAddress : Option Address
  oracleAddress : Option Address
  deriving DecidableEq

def PriceRow.key (row : PriceRow) : PriceKey :=
  (row.asset, row.quote, row.blockNumber, row.source)

/-- The passes of the valuator that keep a row in `valuator_cursors`. -/
inductive PassName where
  | ETH
  | LPT
  | MULTI
  | SEED
  deriving DecidableEq, Repr

/-- `pass_key`: the version and the pass it is for. -/
abbrev PassKey := Version × PassName

structure Cursor where
  watermark : Timestamp
  seedMaxId : Option ℤ
  deriving DecidableEq

end ProtocolExplorer.Store
