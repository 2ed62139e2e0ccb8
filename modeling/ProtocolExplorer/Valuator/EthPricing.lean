import ProtocolExplorer.Valuator.LptPricing

/-!
# Pricing ETH at a block

`price_eth_amount` reads the sequencer feed and the Chainlink aggregator in one batch.  The price
is the aggregator's answer once it has passed the checks, and a refused read is recorded with its
reason.  The gates of both pricing functions are collected in `ethQuote` and `lptQuote`: an error,
a refusal, or the accepted price.

* `priceEthAmount_quote` — the ETH price and amount are those of the accepted answer;
* `priceLptAmount_quote` — the LPT price is the product of the two accepted prices.
-/

set_option autoImplicit false

namespace ProtocolExplorer.Valuator

open ProtocolExplorer.Lib
open ProtocolExplorer.Store

/-! ## The price -/

/-- What the archive answers at a block. -/
structure EthReads where
  sequencer : Except String (Option DecodedRound)
  chainlink : Except String (Option DecodedRound)

def stalenessWarnSecs : ℤ := 14400

section Pricing

variable (lib : DecimalLibrary) (feeds : PriceFeeds) (block : ℤ) (blockHash : BlockHash)
  (blockTimestamp : Timestamp) (amountNative : ℚ)

/-- The price of an accepted answer. -/
def priceEthAnswer (round : DecodedRound) : PricingOutcome × List PriceRow :=
  let nativeUsdPrice := lib.quotient round.answer (10 ^ chainlinkDecimals)
  let amountUsd := amountNative * nativeUsdPrice
  let step := jsonFields [("asset", jsonText "ETH"), ("quote", jsonText "USD"),
    ("price", jsonText (lib.print nativeUsdPrice)), ("source", jsonText "chainlink"),
    ("oracle", jsonText feeds.chainlink), ("block_number", toString block),
    ("raw_round", chainlinkAudit round)]
  let result := jsonFields [("asset", jsonText "ETH"), ("quote", jsonText "USD"),
    ("price", jsonText (lib.print nativeUsdPrice)),
    ("amount_native", jsonText (lib.print amountNative)),
    ("amount_usd", jsonText (lib.print amountUsd))]
  let checks := jsonFields [("sequencer_up", "true"), ("answered_in_round_ok", "true"),
    ("staleness_secs", toString (staleness blockTimestamp round)),
    ("staleness_warn", toString (decide (stalenessWarnSecs < staleness blockTimestamp round)))]
  (.priced nativeUsdPrice amountUsd
      (jsonFields [("steps", jsonArray [step]), ("result", result), ("checks", checks)]),
    [mirrored block blockHash blockTimestamp "ETH" "USD" nativeUsdPrice "chainlink" none
      (some feeds.chainlink)])

/-- `price_eth_amount`. -/
def priceEthAmount (reads : EthReads) : Except String (PricingOutcome × List PriceRow) := do
  let sequencer ← reads.sequencer
  let chainlink ← reads.chainlink
  match sequencer with
  | none =>
      return (.missingOracle (jsonFields
        [("reason", jsonText "L2 sequencer uptime feed not deployed at this block"),
          ("feed", jsonText feeds.sequencer), ("block", toString block)]), [])
  | some seq =>
  if seq.answer ≠ 0 then
    return (.sequencerOutage (jsonFields
      [("feed", jsonText feeds.sequencer), ("block", toString block),
        ("answer", jsonText (toString seq.answer)),
        ("startedAt", jsonText (toString seq.startedAt)),
        ("note", jsonText ("sequencer answer != 0; per SPEC §7.3.4 do not trust on-chain prices " ++
          "in this period"))]), [])
  match chainlink with
  | none =>
      return (.missingOracle (jsonFields
        [("reason", jsonText "Chainlink ETH/USD aggregator not deployed at this block"),
          ("oracle", jsonText feeds.chainlink), ("block", toString block)]), [])
  | some round =>
  if round.answeredInRound < round.roundId then
    return (.missingOracle (jsonFields
      [("reason", jsonText "answeredInRound < roundId"),
        ("roundId", jsonText (toString round.roundId)),
        ("answeredInRound", jsonText (toString round.answeredInRound)),
        ("block", toString block)]), [])
  if stalenessFailSecs < staleness blockTimestamp round then
    return (.missingOracle (jsonFields
      [("reason", jsonText "staleness > 24h"),
        ("staleness_secs", toString (staleness blockTimestamp round)),
        ("updatedAt", toString (updatedAtSecs round)),
        ("block_ts", toString (unixSeconds blockTimestamp)), ("block", toString block)]), [])
  if ¬ isI128 round.answer then throw "decoding chainlink answer"
  if round.answer ≤ 0 then
    return (.missingOracle (jsonFields [("reason", jsonText "non-positive answer"),
      ("answer", jsonText (toString round.answer))]), [])
  return priceEthAnswer lib feeds block blockHash blockTimestamp amountNative round

end Pricing

/-! ## What the gates accept -/

/-- The answer of a round, `none` when a check refuses it. -/
def acceptedAnswer (blockTimestamp : Timestamp) (round : DecodedRound) :
    Except String (Option ℤ) :=
  if round.answeredInRound < round.roundId then .ok none
  else if stalenessFailSecs < staleness blockTimestamp round then .ok none
  else if ¬ isI128 round.answer then .error "decoding chainlink answer"
  else if round.answer ≤ 0 then .ok none
  else .ok (some round.answer)

/-- The ETH price that the gates accept. -/
def ethQuote (lib : DecimalLibrary) (blockTimestamp : Timestamp) (reads : EthReads) :
    Except String (Option ℚ) := do
  let sequencer ← reads.sequencer
  let chainlink ← reads.chainlink
  match sequencer, chainlink with
  | some seq, some round =>
      if seq.answer ≠ 0 then return none
      let answer ← acceptedAnswer blockTimestamp round
      return answer.map fun answer => lib.quotient answer (10 ^ chainlinkDecimals)
  | _, _ => return none

/-- The price of the pool in WETH: at the spot, or at the mean tick of the window. -/
def poolQuote (lib : DecimalLibrary) (slot0 : PoolSlot0)
    (observe : Except String (Option PoolObservation)) : Except String (Option ℚ) := do
  if slot0.observationCardinality < requiredCardinality then
    return some (sqrtPriceX96ToPrice lib slot0.sqrtPriceX96)
  match ← observe with
  | none => return none
  | some twap =>
      if ¬ isI32 (meanTick twap) then throw "avg_tick out of i32 range"
      let sqrtPriceX96 ← getSqrtRatioAtTick (meanTick twap)
      return some (sqrtPriceX96ToPrice lib sqrtPriceX96)

/-- The prices of LPT in WETH and of ETH in USD that the gates accept. -/
def lptQuote (lib : DecimalLibrary) (blockTimestamp : Timestamp) (reads : LptReads) :
    Except String (Option (ℚ × ℚ)) := do
  let sequencer ← reads.sequencer
  let slot0 ← reads.slot0
  let chainlink ← reads.chainlink
  match sequencer, slot0, chainlink with
  | some seq, some slot0, some round =>
      if seq.answer ≠ 0 then return none
      match ← acceptedAnswer blockTimestamp round with
      | none => return none
      | some answer =>
          let lptPerWeth ← poolQuote lib slot0 reads.observe
          return lptPerWeth.map fun price =>
            (price, lib.quotient answer (10 ^ chainlinkDecimals))
  | _, _, _ => return none

/-! ## The numbers of a result -/

/-- The price, the amount in USD and the mirrored prices of a result. -/
abbrev PricedNumbers := ℚ × ℚ × List Numeric

def ethNumbers : Pricing PricingOutcome → Except String (Option PricedNumbers)
  | .ok (.priced nativeUsdPrice amountUsd _, prices) =>
      .ok (some (nativeUsdPrice, amountUsd, prices.map PriceRow.price))
  | .ok _ => .ok none
  | .error error => .error error

def lptNumbers : Pricing LptOutcome → Except String (Option PricedNumbers)
  | .ok (.pricedTwap nativeUsdPrice amountUsd _, prices) =>
      .ok (some (nativeUsdPrice, amountUsd, prices.map PriceRow.price))
  | .ok (.pricedDegraded nativeUsdPrice amountUsd _, prices) =>
      .ok (some (nativeUsdPrice, amountUsd, prices.map PriceRow.price))
  | .ok _ => .ok none
  | .error error => .error error

section Numbers

variable (lib : DecimalLibrary) (feeds : PriceFeeds) (block : ℤ) (blockHash : BlockHash)
  (blockTimestamp : Timestamp) (amountNative : ℚ)

/-- **An ETH amount is priced at the accepted answer.** -/
theorem priceEthAmount_quote (reads : EthReads) :
    ethNumbers (priceEthAmount lib feeds block blockHash blockTimestamp amountNative reads) =
      (ethQuote lib blockTimestamp reads).map fun quote =>
        quote.map fun price => (price, amountNative * price, [Decimal.ofRat price]) := by
  obtain ⟨sequencer, chainlink⟩ := reads
  unfold priceEthAmount ethQuote
  rcases sequencer with _ | _ | seq
  · rfl
  · rcases chainlink with _ | chainlink <;> rfl
  rcases chainlink with _ | _ | round
  · rfl
  · by_cases up : seq.answer = 0 <;> simp [up, ethNumbers, pure, Except.pure, bind, Except.bind,
      Except.map]
  simp only [bind, Except.bind, pure, Except.pure, throw, throwThe, MonadExceptOf.throw,
    acceptedAnswer]
  -- the exits of both sides are tested in the same order
  by_cases up : seq.answer = 0
  case neg => simp [up, ethNumbers, Except.map]
  by_cases answered : round.answeredInRound < round.roundId
  case pos => simp [up, answered, ethNumbers, Except.map]
  by_cases stale : stalenessFailSecs < staleness blockTimestamp round
  case pos => simp [up, answered, stale, ethNumbers, Except.map]
  by_cases fits : isI128 round.answer = true
  case neg => simp [up, answered, stale, fits, ethNumbers, Except.map]
  by_cases positive : round.answer ≤ 0
  case pos => simp [up, answered, stale, fits, positive, ethNumbers, Except.map]
  simp [up, answered, stale, fits, positive, ethNumbers, Except.map, priceEthAnswer, mirrored]

/-- **An LPT amount is priced at the product of the accepted prices.** -/
theorem priceLptAmount_quote (reads : LptReads) :
    lptNumbers (priceLptAmount lib feeds block blockHash blockTimestamp amountNative reads) =
      (lptQuote lib blockTimestamp reads).map fun quote => quote.map fun (perWeth, ethUsd) =>
        (perWeth * ethUsd, amountNative * (perWeth * ethUsd),
          [Decimal.ofRat (perWeth * ethUsd), Decimal.ofRat perWeth, Decimal.ofRat ethUsd]) := by
  obtain ⟨sequencer, slot0, chainlink, observe⟩ := reads
  unfold priceLptAmount lptQuote
  rcases sequencer with _ | _ | seq
  · rfl
  · rcases slot0 with _ | slot0
    · rfl
    · rcases chainlink with _ | chainlink <;> rfl
  rcases slot0 with _ | _ | slot0
  · rfl
  · rcases chainlink with _ | chainlink
    · rfl
    · by_cases up : seq.answer = 0 <;> simp [up, lptNumbers, pure, Except.pure, bind, Except.bind,
        Except.map]
  rcases chainlink with _ | _ | round
  · rfl
  · by_cases up : seq.answer = 0 <;> simp [up, lptNumbers, pure, Except.pure, bind, Except.bind,
      Except.map]
  simp only [bind, Except.bind, pure, Except.pure, throw, throwThe, MonadExceptOf.throw,
    acceptedAnswer, poolQuote]
  by_cases up : seq.answer = 0
  case neg => simp [up, lptNumbers, Except.map]
  by_cases answered : round.answeredInRound < round.roundId
  case pos => simp [up, answered, lptNumbers, Except.map]
  by_cases stale : stalenessFailSecs < staleness blockTimestamp round
  case pos => simp [up, answered, stale, lptNumbers, Except.map]
  by_cases fits : isI128 round.answer = true
  case neg => simp [up, answered, stale, fits, lptNumbers, Except.map]
  by_cases positive : round.answer ≤ 0
  case pos => simp [up, answered, stale, fits, positive, lptNumbers, Except.map]
  by_cases observed : slot0.observationCardinality < requiredCardinality
  case pos =>
    simp [up, answered, stale, fits, positive, observed, lptNumbers, Except.map, priceDegraded,
      mirroredPrices, mirrored]
  simp only [up, answered, stale, fits, positive, observed, ne_eq, not_true_eq_false, if_false]
  rcases observe with error | _ | twap
  · rfl
  · rfl
  by_cases narrow : isI32 (meanTick twap) = true
  · cases computed : getSqrtRatioAtTick (meanTick twap) with
    | error message => simp [narrow, computed, lptNumbers, Except.map]
    | ok ratio =>
        simp [narrow, computed, lptNumbers, Except.map, priceTwap, mirroredPrices, mirrored]
  · simp [narrow, lptNumbers, Except.map]

end Numbers

end ProtocolExplorer.Valuator
