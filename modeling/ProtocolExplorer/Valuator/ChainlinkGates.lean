import ProtocolExplorer.Valuator.EthPricing

/-!
# The Chainlink gates

The sequencer's and the aggregator's rounds are checked in three places: for an ETH amount, for
the ETH/USD leg of an LPT amount, and when the missing ETH/USD prices of LPT blocks are backfilled.
Each copy has its own outcomes and texts.  A `GateDecision` is what they have in common.

* `priceLptAmount_eq_legs` — an LPT amount is the ETH/USD leg followed by the pool's price;
* `accepted_of_gateDecision` — what an accepted price implies;
* `chainlinkGates_agree` — **the three copies take the same decision on the same rounds.**
-/

set_option autoImplicit false

namespace ProtocolExplorer.Valuator

open ProtocolExplorer.Lib
open ProtocolExplorer.Store

/-! ## The backfill of ETH prices -/

inductive BlockOutcome where
  | priced (price : ℚ) (rawAudit : String)
  | sequencerOutage
  | missingOracle

/-- `price_eth_at_block`.  Each call fails, or its answer is decoded; a failed call counts as a
missing oracle. -/
def priceEthAtBlock (lib : DecimalLibrary) (blockTimestamp : Timestamp)
    (sequencerCall chainlinkCall : Except String (Except String (Option DecodedRound))) :
    Except String BlockOutcome :=
  match sequencerCall, chainlinkCall with
  | .error _, _ => .ok .missingOracle
  | .ok _, .error _ => .ok .missingOracle
  | .ok sequencerRes, .ok chainlinkRes => do
      let sequencer ← sequencerRes
      let chainlink ← chainlinkRes
      match sequencer with
      | none => return .missingOracle
      | some seq =>
      if seq.answer ≠ 0 then return .sequencerOutage
      match chainlink with
      | none => return .missingOracle
      | some round =>
      if round.answeredInRound < round.roundId then return .missingOracle
      if stalenessFailSecs < staleness blockTimestamp round then return .missingOracle
      if ¬ isI128 round.answer then throw "decoding chainlink answer"
      if round.answer ≤ 0 then return .missingOracle
      return .priced (lib.quotient round.answer (10 ^ chainlinkDecimals)) (chainlinkAudit round)

/-! ## The legs of an LPT price -/

/-- How the ETH/USD leg of an LPT price ends. -/
inductive EthLeg where
  | sequencerOutage (detail : String)
  | missingOracle (detail : String)
  | accepted (round : DecodedRound) (ethUsdPrice : ℚ)

section Legs

variable (lib : DecimalLibrary) (feeds : PriceFeeds) (block : ℤ) (blockHash : BlockHash)
  (blockTimestamp : Timestamp) (amountNative : ℚ)

/-- The checks of `price_lpt_amount` before and after the pool's. -/
def lptEthLeg (sequencer chainlink : Option DecodedRound) : Except String EthLeg := do
  match sequencer with
  | none =>
      return .missingOracle (jsonFields
        [("reason", jsonText "L2 sequencer uptime feed not deployed at this block"),
          ("feed", jsonText feeds.sequencer), ("block", toString block)])
  | some seq =>
  if seq.answer ≠ 0 then
    return .sequencerOutage (jsonFields
      [("feed", jsonText feeds.sequencer), ("block", toString block),
        ("answer", jsonText (toString seq.answer)),
        ("startedAt", jsonText (toString seq.startedAt))])
  match chainlink with
  | none =>
      return .missingOracle (jsonFields
        [("reason", jsonText "Chainlink ETH/USD aggregator not deployed at this block"),
          ("oracle", jsonText feeds.chainlink), ("block", toString block)])
  | some round =>
  if round.answeredInRound < round.roundId then
    return .missingOracle (jsonFields
      [("reason", jsonText "answeredInRound < roundId"),
        ("roundId", jsonText (toString round.roundId)),
        ("answeredInRound", jsonText (toString round.answeredInRound))])
  if stalenessFailSecs < staleness blockTimestamp round then
    return .missingOracle (jsonFields
      [("reason", jsonText "chainlink staleness > 24h"),
        ("staleness_secs", toString (staleness blockTimestamp round)),
        ("updatedAt", toString (updatedAtSecs round)),
        ("block_ts", toString (unixSeconds blockTimestamp))])
  if ¬ isI128 round.answer then throw "decoding chainlink answer"
  if round.answer ≤ 0 then
    return .missingOracle (jsonFields [("reason", jsonText "non-positive answer"),
      ("answer", jsonText (toString round.answer))])
  return .accepted round (lib.quotient round.answer (10 ^ chainlinkDecimals))

/-- The rest of `price_lpt_amount`: the price of the pool. -/
def lptPoolLeg (slot0 : PoolSlot0) (observe : Except String (Option PoolObservation))
    (round : DecodedRound) (ethUsdPrice : ℚ) : Except String (LptOutcome × List PriceRow) := do
  if slot0.observationCardinality < requiredCardinality then
    return priceDegraded lib feeds block blockHash blockTimestamp amountNative slot0 round
      ethUsdPrice
  match ← observe with
  | none =>
      return (.missingPool (jsonFields [("pool", jsonText feeds.pool), ("block", toString block),
        ("reason", jsonText
          "observe() failed — pool may lack observations spanning the TWAP window")]), [])
  | some twap =>
  if ¬ isI32 (meanTick twap) then
    throw "avg_tick out of i32 range"
  let sqrtPriceX96 ← getSqrtRatioAtTick (meanTick twap)
  return priceTwap lib feeds block blockHash blockTimestamp amountNative slot0 round ethUsdPrice
    twap sqrtPriceX96

/-- The rest of `price_lpt_amount` after its ETH/USD leg. -/
def afterEthLeg (slot0 : PoolSlot0) (observe : Except String (Option PoolObservation)) :
    EthLeg → Except String (LptOutcome × List PriceRow)
  | .sequencerOutage detail => .ok (.sequencerOutage detail, [])
  | .missingOracle detail => .ok (.missingOracle detail, [])
  | .accepted round ethUsdPrice =>
      lptPoolLeg lib feeds block blockHash blockTimestamp amountNative slot0 observe round
        ethUsdPrice

/-- **With a pool, an LPT amount is the ETH/USD leg followed by the pool's price.** -/
theorem priceLptAmount_eq_legs (sequencer chainlink : Option DecodedRound) (slot0 : PoolSlot0)
    (observe : Except String (Option PoolObservation)) :
    priceLptAmount lib feeds block blockHash blockTimestamp amountNative
        ⟨.ok sequencer, .ok (some slot0), .ok chainlink, observe⟩ =
      lptEthLeg lib feeds block blockTimestamp sequencer chainlink >>=
        afterEthLeg lib feeds block blockHash blockTimestamp amountNative slot0 observe := by
  unfold priceLptAmount lptEthLeg
  simp only [bind, Except.bind, pure, Except.pure, throw, throwThe, MonadExceptOf.throw]
  rcases sequencer with _ | seq
  · rfl
  by_cases up : seq.answer = 0
  case neg => simp only [up, ne_eq, not_false_eq_true, if_true, afterEthLeg]
  rcases chainlink with _ | round
  · simp only [up, ne_eq, not_true_eq_false, if_false, afterEthLeg]
  -- the checks of the round come in the same order on both sides
  by_cases answered : round.answeredInRound < round.roundId
  case pos => simp [up, answered, afterEthLeg]
  by_cases stale : stalenessFailSecs < staleness blockTimestamp round
  case pos => simp [up, answered, stale, afterEthLeg]
  by_cases fits : isI128 round.answer = true
  case neg => simp [up, answered, stale, fits]
  by_cases positive : round.answer ≤ 0
  case pos => simp [up, answered, stale, fits, positive, afterEthLeg]
  simp only [up, answered, stale, fits, positive, ne_eq, not_true_eq_false, if_false, afterEthLeg]
  rfl

end Legs

/-! ## Decisions -/

/-- What a gate decides. -/
inductive GateDecision where
  | outage
  | missingOracle
  | accepted (ethUsdPrice : ℚ)

def PricingOutcome.decision : PricingOutcome → GateDecision
  | .priced nativeUsdPrice _ _ => .accepted nativeUsdPrice
  | .sequencerOutage _ => .outage
  | .missingOracle _ => .missingOracle

def EthLeg.decision : EthLeg → GateDecision
  | .sequencerOutage _ => .outage
  | .missingOracle _ => .missingOracle
  | .accepted _ ethUsdPrice => .accepted ethUsdPrice

def BlockOutcome.decision : BlockOutcome → GateDecision
  | .priced price _ => .accepted price
  | .sequencerOutage => .outage
  | .missingOracle => .missingOracle

/-- The decision on two rounds, with the checks of a round in `acceptedAnswer`. -/
def gateDecision (lib : DecimalLibrary) (blockTimestamp : Timestamp)
    (sequencer chainlink : Option DecodedRound) : Except String GateDecision :=
  match sequencer with
  | none => .ok .missingOracle
  | some seq =>
      if seq.answer ≠ 0 then .ok .outage
      else match chainlink with
        | none => .ok .missingOracle
        | some round => (acceptedAnswer blockTimestamp round).map fun answer =>
            answer.elim .missingOracle fun answer =>
              .accepted (lib.quotient answer (10 ^ chainlinkDecimals))

section Decisions

variable (lib : DecimalLibrary) (feeds : PriceFeeds) (block : ℤ) (blockHash : BlockHash)
  (blockTimestamp : Timestamp) (amountNative : ℚ) (sequencer chainlink : Option DecodedRound)

theorem decision_priceEthAmount :
    (priceEthAmount lib feeds block blockHash blockTimestamp amountNative
        ⟨.ok sequencer, .ok chainlink⟩).map (fun result => result.1.decision) =
      gateDecision lib blockTimestamp sequencer chainlink := by
  unfold priceEthAmount gateDecision acceptedAnswer
  simp only [bind, Except.bind, pure, Except.pure, throw, throwThe, MonadExceptOf.throw]
  rcases sequencer with _ | seq
  · rfl
  by_cases up : seq.answer = 0
  case neg => simp [up, PricingOutcome.decision, Except.map]
  rcases chainlink with _ | round
  · simp [up, PricingOutcome.decision, Except.map]
  simp only [up, ne_eq, not_true_eq_false, if_false]
  repeat' split
  all_goals rfl

theorem decision_lptEthLeg :
    (lptEthLeg lib feeds block blockTimestamp sequencer chainlink).map EthLeg.decision =
      gateDecision lib blockTimestamp sequencer chainlink := by
  unfold lptEthLeg gateDecision acceptedAnswer
  simp only [bind, Except.bind, pure, Except.pure, throw, throwThe, MonadExceptOf.throw]
  rcases sequencer with _ | seq
  · rfl
  by_cases up : seq.answer = 0
  case neg => simp [up, EthLeg.decision, Except.map]
  rcases chainlink with _ | round
  · simp [up, EthLeg.decision, Except.map]
  simp only [up, ne_eq, not_true_eq_false, if_false]
  repeat' split
  all_goals rfl

theorem decision_priceEthAtBlock :
    (priceEthAtBlock lib blockTimestamp (.ok (.ok sequencer)) (.ok (.ok chainlink))).map
        BlockOutcome.decision =
      gateDecision lib blockTimestamp sequencer chainlink := by
  unfold priceEthAtBlock gateDecision acceptedAnswer
  simp only [bind, Except.bind, pure, Except.pure, throw, throwThe, MonadExceptOf.throw]
  rcases sequencer with _ | seq
  · rfl
  by_cases up : seq.answer = 0
  case neg => simp [up, BlockOutcome.decision, Except.map]
  rcases chainlink with _ | round
  · simp [up, BlockOutcome.decision, Except.map]
  simp only [up, ne_eq, not_true_eq_false, if_false]
  repeat' split
  all_goals rfl

/-- **An accepted price passed every check**: the sequencer is up, and the answer is of its own
round, at most a day old and positive. -/
theorem accepted_of_gateDecision {price : ℚ}
    (accepted : gateDecision lib blockTimestamp sequencer chainlink = .ok (.accepted price)) :
    ∃ seq round, sequencer = some seq ∧ chainlink = some round ∧ seq.answer = 0 ∧
      round.roundId ≤ round.answeredInRound ∧
      unixSeconds blockTimestamp - round.updatedAt ≤ 86400 ∧ 0 < round.answer ∧
      price = lib.quotient round.answer (10 ^ 8) := by
  unfold gateDecision at accepted
  rcases sequencer with _ | seq
  · cases accepted
  by_cases up : seq.answer = 0
  case neg => simp [up] at accepted
  rcases chainlink with _ | round
  · simp [up] at accepted
  refine ⟨seq, round, rfl, rfl, up, ?_⟩
  simp only [up, ne_eq, not_true_eq_false, if_false, acceptedAnswer] at accepted
  by_cases answered : round.answeredInRound < round.roundId
  case pos => simp [answered, Except.map] at accepted
  by_cases stale : stalenessFailSecs < staleness blockTimestamp round
  case pos => simp [answered, stale, Except.map] at accepted
  by_cases fits : isI128 round.answer = true
  case neg => simp [answered, stale, fits, Except.map] at accepted
  by_cases positive : round.answer ≤ 0
  case pos => simp [answered, stale, fits, positive, Except.map] at accepted
  simp only [answered, stale, fits, positive, if_false, not_true_eq_false, Except.map,
    Option.elim_some, Except.ok.injEq, GateDecision.accepted.injEq] at accepted
  refine ⟨not_lt.mp answered, ?_, not_le.mp positive, accepted.symm⟩
  -- a time that does not fit `i64` reads as zero, which only makes the answer older
  unfold staleness updatedAtSecs stalenessFailSecs at stale
  split at stale <;> omega

/-- The age of an answer fits `i64`. -/
theorem staleness_inRange (round : DecodedRound) (since : 0 ≤ unixSeconds blockTimestamp)
    (narrow : unixSeconds blockTimestamp < 2 ^ 63) :
    -2 ^ 63 ≤ staleness blockTimestamp round ∧ staleness blockTimestamp round < 2 ^ 63 := by
  unfold staleness updatedAtSecs
  split <;> omega

/-- **The three gates agree**: on the same rounds they take the same decision, with the same
ETH/USD price, and what they accept has passed every check. -/
theorem chainlinkGates_agree :
    (priceEthAmount lib feeds block blockHash blockTimestamp amountNative
        ⟨.ok sequencer, .ok chainlink⟩).map (fun result => result.1.decision) =
      (lptEthLeg lib feeds block blockTimestamp sequencer chainlink).map EthLeg.decision ∧
    (priceEthAtBlock lib blockTimestamp (.ok (.ok sequencer)) (.ok (.ok chainlink))).map
        BlockOutcome.decision =
      (lptEthLeg lib feeds block blockTimestamp sequencer chainlink).map EthLeg.decision ∧
    (∀ slot0 observe,
      priceLptAmount lib feeds block blockHash blockTimestamp amountNative
          ⟨.ok sequencer, .ok (some slot0), .ok chainlink, observe⟩ =
        lptEthLeg lib feeds block blockTimestamp sequencer chainlink >>=
          afterEthLeg lib feeds block blockHash blockTimestamp amountNative slot0 observe) ∧
    ∀ price,
      (lptEthLeg lib feeds block blockTimestamp sequencer chainlink).map EthLeg.decision =
          .ok (.accepted price) →
        ∃ seq round, sequencer = some seq ∧ chainlink = some round ∧ seq.answer = 0 ∧
          round.roundId ≤ round.answeredInRound ∧
          unixSeconds blockTimestamp - round.updatedAt ≤ 86400 ∧ 0 < round.answer ∧
          price = lib.quotient round.answer (10 ^ 8) := by
  rw [decision_priceEthAmount, decision_priceEthAtBlock, decision_lptEthLeg]
  refine ⟨rfl, rfl, ?_, ?_⟩
  · exact priceLptAmount_eq_legs lib feeds block blockHash blockTimestamp amountNative sequencer
      chainlink
  · intro price accepted
    exact accepted_of_gateDecision lib blockTimestamp sequencer chainlink accepted

end Decisions

end ProtocolExplorer.Valuator
