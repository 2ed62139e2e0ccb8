import ProtocolExplorer.Valuator.Passes

/-!
# Pricing LPT at a block

`price_lpt_amount` reads the sequencer feed, the pool's `slot0` and the Chainlink aggregator in
one batch.  Each of the three may rule a price out; a pool with too few observations is priced
at its spot price, and only then is `observe` read for the time-weighted price.  The reads are
parameters here, already decoded, and so are division and printing of the decimal library.

* `tickRatio_le` — the fixed-point multiplications of the tick table stay in range;
* `uniswapArithmeticMeanTick_eq` — the corrected quotient is the floor;
* `isTwap_priceLptAmount` — which reads lead to a time-weighted price.
-/

set_option autoImplicit false

namespace ProtocolExplorer.Valuator

open ProtocolExplorer.Lib
open ProtocolExplorer.Store

/-! ## Tick math -/

def minTick : ℤ := -887272
def maxTick : ℤ := 887272

/-- `(a * b) >> 128`. -/
def mulShr128 (a b : ℕ) : ℕ := a * b / 2 ^ 128

/-- The multiplier of every bit of the tick but the lowest. -/
def tickMultipliers : List (ℕ × ℕ) :=
  [(0x2, 0xfff97272373d413259a46990580e213a), (0x4, 0xfff2e50f5f656932ef12357cf3c7fdcc),
    (0x8, 0xffe5caca7e10e4e61c3624eaa0941cd0), (0x10, 0xffcb9843d60f6159c9db58835c926644),
    (0x20, 0xff973b41fa98c081472e6896dfb254c0), (0x40, 0xff2ea16466c96a3843ec78b326b52861),
    (0x80, 0xfe5dee046a99a2a811c461f1969c3053), (0x100, 0xfcbe86c7900a88aedcffc83b479aa3a4),
    (0x200, 0xf987a7253ac413176f2b074cf7815e54), (0x400, 0xf3392b0822b70005940c7a398e4b70f3),
    (0x800, 0xe7159475a2c29b7443b29c7fa6e889d9), (0x1000, 0xd097f3bdfd2022b8845ad8f792aa5825),
    (0x2000, 0xa9f746462d870fdf8a65dc1f90e061e5), (0x4000, 0x70d869a156d2a1b890bb3df62baf32f7),
    (0x8000, 0x31be135f97d08fd981231505542fcfa6), (0x10000, 0x9aa508b5b7a84e1c677de54f3e99bc9),
    (0x20000, 0x5d6af8dedb81196699c329225ee604), (0x40000, 0x2216e584f5fa1ea926041bedfe98),
    (0x80000, 0x48a170391f7dc42444e8fa2)]

/-- The ratio of a negative tick, in units of `2 ^ (-128)`. -/
def tickRatio (absTick : ℕ) : ℕ :=
  tickMultipliers.foldl
    (fun ratio step => if absTick &&& step.1 ≠ 0 then mulShr128 ratio step.2 else ratio)
    (if absTick &&& 0x1 ≠ 0 then 0xfffcb933bd6fad37aa2d162d1a594001
    else 0x100000000000000000000000000000000)

/-- `get_sqrt_ratio_at_tick`. -/
def getSqrtRatioAtTick (tick : ℤ) : Except String ℕ :=
  if minTick ≤ tick ∧ tick ≤ maxTick then
    let ratio := tickRatio tick.natAbs
    let inverted := if 0 < tick then (2 ^ 256 - 1) / ratio else ratio
    .ok (if inverted % 2 ^ 32 = 0 then inverted / 2 ^ 32 else inverted / 2 ^ 32 + 1)
  else
    .error ("tick " ++ toString tick ++ " out of range [" ++ toString minTick ++ ", " ++
      toString maxTick ++ "]")

/-- **No multiplication of the table overflows**: every ratio on the way is at most `2 ^ 128`. -/
theorem tickRatio_le (absTick : ℕ) : tickRatio absTick ≤ 2 ^ 128 := by
  have shrinks : ∀ ratio b, b < 2 ^ 128 → ratio ≤ 2 ^ 128 → mulShr128 ratio b ≤ 2 ^ 128 := by
    intro ratio b small bounded
    refine Nat.div_le_of_le_mul ?_
    calc ratio * b ≤ 2 ^ 128 * b := Nat.mul_le_mul_right b bounded
      _ ≤ 2 ^ 128 * 2 ^ 128 := Nat.mul_le_mul_left _ small.le
  have small : ∀ step ∈ tickMultipliers, step.2 < 2 ^ 128 := by decide
  unfold tickRatio
  generalize tickMultipliers = steps at small
  have initial : (if absTick &&& 0x1 ≠ 0 then 0xfffcb933bd6fad37aa2d162d1a594001
      else 0x100000000000000000000000000000000) ≤ 2 ^ 128 := by
    split <;> decide
  revert initial
  generalize (if absTick &&& 0x1 ≠ 0 then 0xfffcb933bd6fad37aa2d162d1a594001
      else 0x100000000000000000000000000000000) = ratio
  intro bounded
  induction steps generalizing ratio with
  | nil => exact bounded
  | cons step rest inductionHypothesis =>
      rw [List.foldl_cons]
      refine inductionHypothesis (fun later member => small later (List.mem_cons_of_mem _ member)) _ ?_
      split
      · exact shrinks ratio step.2 (small step (List.mem_cons_self ..)) bounded
      · exact bounded

/-- `uniswap_arithmetic_mean_tick`: the quotient rounds toward zero and is corrected. -/
def uniswapArithmeticMeanTick (delta seconds : ℤ) : ℤ :=
  let quotient := delta.tdiv seconds
  if delta < 0 ∧ delta.tmod seconds ≠ 0 then quotient - 1 else quotient

/-- The corrected quotient is the floor. -/
theorem uniswapArithmeticMeanTick_eq {delta seconds : ℤ} (positive : 0 < seconds) :
    uniswapArithmeticMeanTick delta seconds = delta / seconds := by
  have divides : delta.tmod seconds = 0 ↔ seconds ∣ delta := (Int.dvd_iff_tmod_eq_zero).symm
  unfold uniswapArithmeticMeanTick
  simp only [Int.tdiv_eq_ediv, Int.sign_eq_one_of_pos positive, ne_eq, divides]
  by_cases negative : delta < 0
  · by_cases exactly : seconds ∣ delta
    · simp [exactly]
    · simp [negative, exactly, not_le.mpr negative]
  · simp [negative, not_lt.mp negative]

/-! ## The reads -/

/-- A decoded `latestRoundData`; the round ids are `uint80`, the times `uint256`, the answer is
`int256`. -/
structure DecodedRound where
  roundId : ℕ
  answer : ℤ
  startedAt : ℕ
  updatedAt : ℕ
  answeredInRound : ℕ

/-- A decoded `slot0`. -/
structure PoolSlot0 where
  sqrtPriceX96 : ℕ
  tick : ℤ
  observationCardinality : ℕ

/-- The two `int56` cumulatives of a decoded `observe`. -/
structure PoolObservation where
  cumulativeThen : ℤ
  cumulativeNow : ℤ

/-- What the archive answers at a block: an error, no contract yet, or a value. -/
structure LptReads where
  sequencer : Except String (Option DecodedRound)
  slot0 : Except String (Option PoolSlot0)
  chainlink : Except String (Option DecodedRound)
  observe : Except String (Option PoolObservation)

/-- The contracts that are read. -/
structure PriceFeeds where
  pool : Address
  chainlink : Address
  sequencer : Address

/-- What pricing uses of the decimal library: quotients to its precision, and printing. -/
structure DecimalLibrary where
  quotient : ℚ → ℚ → ℚ
  print : ℚ → String

/-! ## JSON -/

def jsonText (text : String) : String := "\"" ++ text ++ "\""

/-- A JSON object of rendered values. -/
def jsonFields (fields : List (String × String)) : String :=
  "\x7b" ++ ",".intercalate (fields.map fun (name, value) => jsonText name ++ ":" ++ value) ++
    "\x7d"

def jsonArray (values : List String) : String := "[" ++ ",".intercalate values ++ "]"

/-- `chainlink_audit`. -/
def chainlinkAudit (round : DecodedRound) : String :=
  jsonFields [("roundId", jsonText (toString round.roundId)),
    ("answer", jsonText (toString round.answer)),
    ("startedAt", jsonText (toString round.startedAt)),
    ("updatedAt", jsonText (toString round.updatedAt)),
    ("answeredInRound", jsonText (toString round.answeredInRound))]

/-! ## The checks -/

def chainlinkDecimals : ℕ := 8
def twapWindowSecs : ℤ := 1800
def requiredCardinality : ℕ := 144
def stalenessFailSecs : ℤ := 86400

/-- `updated_at.parse::<i64>().unwrap_or(0)`. -/
def updatedAtSecs (round : DecodedRound) : ℤ :=
  if round.updatedAt < 2 ^ 63 then round.updatedAt else 0

/-- `block_timestamp.timestamp()`. -/
def unixSeconds (ts : Timestamp) : ℤ := ts / 1000000

def staleness (blockTimestamp : Timestamp) (round : DecodedRound) : ℤ :=
  unixSeconds blockTimestamp - updatedAtSecs round

/-- Does `i128::from_str` accept the answer? -/
def isI128 (answer : ℤ) : Bool := decide (-2 ^ 127 ≤ answer ∧ answer < 2 ^ 127)

/-- Does `i32::try_from` accept the tick? -/
def isI32 (tick : ℤ) : Bool := decide (-2 ^ 31 ≤ tick ∧ tick < 2 ^ 31)

/-- The mean tick over the window. -/
def meanTick (twap : PoolObservation) : ℤ :=
  uniswapArithmeticMeanTick (twap.cumulativeNow - twap.cumulativeThen) twapWindowSecs

/-! ## The price -/

section Pricing

variable (lib : DecimalLibrary) (feeds : PriceFeeds) (block : ℤ) (blockHash : BlockHash)
  (blockTimestamp : Timestamp) (amountNative : ℚ)

/-- `sqrt_price_x96_to_price`. -/
def sqrtPriceX96ToPrice (sqrt : ℕ) : ℚ := lib.quotient ((sqrt : ℚ) * sqrt) (2 ^ 192)

/-- A price to mirror at the block. -/
def mirrored (asset quote : String) (price : ℚ) (source : String)
    (poolAddress oracleAddress : Option Address) : PriceRow :=
  { asset, quote, blockNumber := block, blockHash, blockTimestamp, price := Decimal.ofRat price,
    source, poolAddress, oracleAddress }

/-- The three prices mirrored with an LPT price. -/
def mirroredPrices (lptUsd lptPerWeth ethUsdPrice : ℚ) (usdSource wethSource : String) :
    List PriceRow :=
  [mirrored block blockHash blockTimestamp "LPT" "USD" lptUsd usdSource (some feeds.pool)
      (some feeds.chainlink),
    mirrored block blockHash blockTimestamp "LPT" "WETH" lptPerWeth wethSource (some feeds.pool)
      none,
    mirrored block blockHash blockTimestamp "ETH" "USD" ethUsdPrice "chainlink_eth_usd" none
      (some feeds.chainlink)]

/-- The `result` object of a pricing chain. -/
def lptResult (lptUsd amountUsd : ℚ) : String :=
  jsonFields [("asset", jsonText "LPT"), ("quote", jsonText "USD"),
    ("price", jsonText (lib.print lptUsd)), ("amount_native", jsonText (lib.print amountNative)),
    ("amount_usd", jsonText (lib.print amountUsd))]

/-- The second step of a pricing chain. -/
def wethStep (ethUsdPrice : ℚ) (round : DecodedRound) : String :=
  jsonFields [("asset", jsonText "WETH"), ("quote", jsonText "USD"),
    ("price", jsonText (lib.print ethUsdPrice)), ("source", jsonText "chainlink"),
    ("oracle", jsonText feeds.chainlink), ("block_number", toString block),
    ("raw_round", chainlinkAudit round)]

/-- The degraded path: the spot price. -/
def priceDegraded (slot0 : PoolSlot0) (round : DecodedRound) (ethUsdPrice : ℚ) :
    LptOutcome × List PriceRow :=
  let lptPerWeth := sqrtPriceX96ToPrice lib slot0.sqrtPriceX96
  let lptUsd := lptPerWeth * ethUsdPrice
  let amountUsd := amountNative * lptUsd
  let lptStep := jsonFields [("asset", jsonText "LPT"), ("quote", jsonText "WETH"),
    ("price", jsonText (lib.print lptPerWeth)), ("source", jsonText "uniswap_v3_spot"),
    ("pool", jsonText feeds.pool), ("block_number", toString block),
    ("raw_slot0", jsonFields [("pool", jsonText feeds.pool), ("block", toString block),
      ("sqrtPriceX96", jsonText (toString slot0.sqrtPriceX96)), ("tick", toString slot0.tick),
      ("observationCardinality", toString slot0.observationCardinality)]),
    ("note", jsonText "DEGRADED — pool cardinality below required 144 (Q-OD-9)")]
  let checks := jsonFields [("sequencer_up", "true"), ("answered_in_round_ok", "true"),
    ("staleness_secs", toString (staleness blockTimestamp round)),
    ("cardinality", toString slot0.observationCardinality),
    ("cardinality_required", toString requiredCardinality),
    ("twap_window_secs", toString twapWindowSecs)]
  (.pricedDegraded lptUsd amountUsd
      (jsonFields
        [("steps", jsonArray [lptStep, wethStep lib feeds block ethUsdPrice round]),
          ("result", lptResult lib amountNative lptUsd amountUsd), ("checks", checks)]),
    mirroredPrices feeds block blockHash blockTimestamp lptUsd lptPerWeth ethUsdPrice
      "uniswap_v3_spot_x_chainlink" "uniswap_v3_spot")

/-- The time-weighted price at a mean tick. -/
def priceTwap (slot0 : PoolSlot0) (round : DecodedRound) (ethUsdPrice : ℚ)
    (twap : PoolObservation) (sqrtPriceX96 : ℕ) : LptOutcome × List PriceRow :=
  let lptPerWeth := sqrtPriceX96ToPrice lib sqrtPriceX96
  let lptUsd := lptPerWeth * ethUsdPrice
  let amountUsd := amountNative * lptUsd
  let lptStep := jsonFields [("asset", jsonText "LPT"), ("quote", jsonText "WETH"),
    ("price", jsonText (lib.print lptPerWeth)), ("source", jsonText "uniswap_v3_twap_30min"),
    ("pool", jsonText feeds.pool), ("block_number", toString block),
    ("raw_observe", jsonFields
      [("secondsAgos", jsonArray [toString twapWindowSecs, "0"]),
        ("tickCumulativeThen", jsonText (toString twap.cumulativeThen)),
        ("tickCumulativeNow", jsonText (toString twap.cumulativeNow)),
        ("delta", jsonText (toString (twap.cumulativeNow - twap.cumulativeThen))),
        ("arithmeticMeanTick", toString (meanTick twap)),
        ("sqrtPriceX96", jsonText (toString sqrtPriceX96))])]
  let checks := jsonFields [("sequencer_up", "true"), ("answered_in_round_ok", "true"),
    ("staleness_secs", toString (staleness blockTimestamp round)),
    ("cardinality", toString slot0.observationCardinality),
    ("twap_window_secs", toString twapWindowSecs)]
  (.pricedTwap lptUsd amountUsd
      (jsonFields
        [("steps", jsonArray [lptStep, wethStep lib feeds block ethUsdPrice round]),
          ("result", lptResult lib amountNative lptUsd amountUsd), ("checks", checks)]),
    mirroredPrices feeds block blockHash blockTimestamp lptUsd lptPerWeth ethUsdPrice
      "uniswap_v3_twap_30min_x_chainlink_eth" "uniswap_v3_twap_30min")

/-- `price_lpt_amount`. -/
def priceLptAmount (reads : LptReads) : Except String (LptOutcome × List PriceRow) := do
  let sequencer ← reads.sequencer
  let slot0 ← reads.slot0
  let chainlink ← reads.chainlink
  match sequencer with
  | none =>
      return (.missingOracle (jsonFields
        [("reason", jsonText "L2 sequencer uptime feed not deployed at this block"),
          ("feed", jsonText feeds.sequencer), ("block", toString block)]), [])
  | some seq =>
  if seq.answer ≠ 0 then
    return (.sequencerOutage (jsonFields
      [("feed", jsonText feeds.sequencer), ("block", toString block),
        ("answer", jsonText (toString seq.answer)),
        ("startedAt", jsonText (toString seq.startedAt))]), [])
  match slot0 with
  | none =>
      return (.missingPool (jsonFields
        [("pool", jsonText feeds.pool), ("block", toString block),
          ("reason", jsonText "slot0() returned empty bytes — pool not yet deployed")]), [])
  | some slot0 =>
  match chainlink with
  | none =>
      return (.missingOracle (jsonFields
        [("reason", jsonText "Chainlink ETH/USD aggregator not deployed at this block"),
          ("oracle", jsonText feeds.chainlink), ("block", toString block)]), [])
  | some round =>
  if round.answeredInRound < round.roundId then
    return (.missingOracle (jsonFields
      [("reason", jsonText "answeredInRound < roundId"),
        ("roundId", jsonText (toString round.roundId)),
        ("answeredInRound", jsonText (toString round.answeredInRound))]), [])
  if stalenessFailSecs < staleness blockTimestamp round then
    return (.missingOracle (jsonFields
      [("reason", jsonText "chainlink staleness > 24h"),
        ("staleness_secs", toString (staleness blockTimestamp round)),
        ("updatedAt", toString (updatedAtSecs round)),
        ("block_ts", toString (unixSeconds blockTimestamp))]), [])
  if ¬ isI128 round.answer then throw "decoding chainlink answer"
  if round.answer ≤ 0 then
    return (.missingOracle (jsonFields [("reason", jsonText "non-positive answer"),
      ("answer", jsonText (toString round.answer))]), [])
  let ethUsdPrice := lib.quotient round.answer (10 ^ chainlinkDecimals)
  if slot0.observationCardinality < requiredCardinality then
    return priceDegraded lib feeds block blockHash blockTimestamp amountNative slot0 round
      ethUsdPrice
  match ← reads.observe with
  | none =>
      return (.missingPool (jsonFields [("pool", jsonText feeds.pool), ("block", toString block),
        ("reason", jsonText
          "observe() failed — pool may lack observations spanning the TWAP window")]), [])
  | some twap =>
  if ¬ isI32 (meanTick twap) then
    throw "avg_tick out of i32 range"
  let sqrtPriceX96 ← getSqrtRatioAtTick (meanTick twap)
  return priceTwap lib feeds block blockHash blockTimestamp amountNative slot0 round ethUsdPrice
    twap sqrtPriceX96

end Pricing

/-! ## Which reads lead to a time-weighted price -/

/-- Every feed answers, the oracle is fresh and positive, the pool has the observations and their
mean tick is in range. -/
def servesTwap (blockTimestamp : Timestamp) (reads : LptReads) : Bool :=
  match reads.sequencer, reads.slot0, reads.chainlink, reads.observe with
  | .ok (some seq), .ok (some slot0), .ok (some round), .ok (some twap) =>
      decide (seq.answer = 0) && decide (round.roundId ≤ round.answeredInRound) &&
        decide (staleness blockTimestamp round ≤ stalenessFailSecs) && isI128 round.answer &&
        decide (0 < round.answer) &&
        decide (requiredCardinality ≤ slot0.observationCardinality) &&
        decide (minTick ≤ meanTick twap ∧ meanTick twap ≤ maxTick)
  | _, _, _, _ => false

/-- Is a result a time-weighted price? -/
def isTwap : Pricing LptOutcome → Bool
  | .ok (.pricedTwap .., _) => true
  | _ => false

theorem getSqrtRatioAtTick_isOk (tick : ℤ) :
    (∃ ratio, getSqrtRatioAtTick tick = .ok ratio) ↔ minTick ≤ tick ∧ tick ≤ maxTick := by
  unfold getSqrtRatioAtTick
  split
  · next inRange => simp [inRange]
  · next outside => simp [outside]

/-- **Exactly the reads that serve a time-weighted price produce one.** -/
theorem isTwap_priceLptAmount (lib : DecimalLibrary) (feeds : PriceFeeds) (block : ℤ)
    (blockHash : BlockHash) (blockTimestamp : Timestamp) (amountNative : ℚ) (reads : LptReads) :
    isTwap (priceLptAmount lib feeds block blockHash blockTimestamp amountNative reads) =
      servesTwap blockTimestamp reads := by
  obtain ⟨sequencer, slot0, chainlink, observe⟩ := reads
  unfold priceLptAmount servesTwap
  rcases sequencer with _ | _ | seq
  · rfl
  · rcases slot0 with _ | slot0
    · rfl
    · rcases chainlink with _ | chainlink <;> rfl
  rcases slot0 with _ | _ | slot0
  · rfl
  · rcases chainlink with _ | chainlink
    · rfl
    · by_cases up : seq.answer = 0 <;> simp [up, isTwap, pure, Except.pure, bind, Except.bind]
  rcases chainlink with _ | _ | round
  · rfl
  · by_cases up : seq.answer = 0 <;> simp [up, isTwap, pure, Except.pure, bind, Except.bind]
  simp only [bind, Except.bind, pure, Except.pure, throw, throwThe, MonadExceptOf.throw]
  -- every early return rules out one conjunct of `servesTwap`
  by_cases up : seq.answer = 0
  case neg => rcases observe with _ | _ | twap <;> simp [up, isTwap]
  by_cases answered : round.roundId ≤ round.answeredInRound
  case neg => rcases observe with _ | _ | twap <;> simp [up, isTwap, not_le.mp answered, answered]
  by_cases fresh : staleness blockTimestamp round ≤ stalenessFailSecs
  case neg =>
    rcases observe with _ | _ | twap <;>
      simp [up, isTwap, not_lt.mpr answered, not_le.mp fresh, fresh]
  by_cases fits : isI128 round.answer = true
  case neg =>
    rcases observe with _ | _ | twap <;>
      simp [up, isTwap, not_lt.mpr answered, not_lt.mpr fresh, fits]
  by_cases positive : 0 < round.answer
  case neg =>
    rcases observe with _ | _ | twap <;>
      simp [up, isTwap, not_lt.mpr answered, not_lt.mpr fresh, fits, not_lt.mp positive, positive]
  by_cases observed : requiredCardinality ≤ slot0.observationCardinality
  case neg =>
    rcases observe with _ | _ | twap <;>
      simp [up, isTwap, not_lt.mpr answered, not_lt.mpr fresh, fits, not_le.mpr positive,
        not_le.mp observed, observed, priceDegraded]
  simp only [up, ne_eq, not_true_eq_false, if_false, not_lt.mpr answered, not_lt.mpr fresh, fits,
    not_le.mpr positive, not_lt.mpr observed]
  rcases observe with _ | _ | twap
  · rfl
  · rfl
  by_cases inRange : minTick ≤ meanTick twap ∧ meanTick twap ≤ maxTick
  · obtain ⟨ratio, computed⟩ := (getSqrtRatioAtTick_isOk (meanTick twap)).mpr inRange
    have narrow : isI32 (meanTick twap) = true := by
      unfold minTick maxTick at inRange
      exact decide_eq_true ⟨by omega, by omega⟩
    simp [narrow, computed, inRange, isTwap, priceTwap, answered, fresh, fits, positive, observed,
      up]
  · cases computed : getSqrtRatioAtTick (meanTick twap) with
    | ok ratio => exact absurd ((getSqrtRatioAtTick_isOk _).mp ⟨ratio, computed⟩) inRange
    | error message =>
        by_cases narrow : isI32 (meanTick twap) = true <;>
          simp [narrow, computed, inRange, isTwap]

end ProtocolExplorer.Valuator
