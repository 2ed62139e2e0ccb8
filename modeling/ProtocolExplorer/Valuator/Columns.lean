import ProtocolExplorer.Lib.Failures
import ProtocolExplorer.Lib.NumericColumns
import ProtocolExplorer.Valuator.EthPricing
import ProtocolExplorer.Valuator.VersionCoherence

/-!
# Valuations and their columns

`event_valuations` and `token_prices_by_block` keep their numbers in `NUMERIC(38, 18)` columns.  A
value with more than twenty digits before the point refuses the insert it is part of; the error
ends the pass, before its cursor moves.  The amounts of an `EarningsClaimed` event are read from
its payload and have never been through such a column.

* `flushInto_ok` — a flush completes exactly if every buffered row fits;
* `runOnchainPass_ok` — a pass completes exactly if every outcome it pushes fits;
* `pass_fits_iff` — **and these fit exactly if every recorded amount, every accepted price and
  their products are in range**;
* `hugeClaim_stops_pass` — a claim of `10 ^ 38` wei.
-/

set_option autoImplicit false

namespace ProtocolExplorer.Valuator

open ProtocolExplorer.Lib
open ProtocolExplorer.Store

/-! ## Rows that fit -/

/-- The digits of the numeric columns. -/
def numericPrecision : ℕ := 38

/-- Do the numbers of a row fit the columns of `event_valuations`? -/
def ValuationFits (row : ValuationRow) : Prop :=
  row.amountNative.Fits numericPrecision ∧
    (∀ price ∈ row.nativeUsdPrice, price.Fits numericPrecision) ∧
    ∀ usd ∈ row.amountUsd, usd.Fits numericPrecision

instance (row : ValuationRow) : Decidable (ValuationFits row) :=
  inferInstanceAs (Decidable (_ ∧ _ ∧ _))

/-- Does the price fit its column of `token_prices_by_block`? -/
def PriceFits (row : PriceRow) : Prop := row.price.Fits numericPrecision

instance (row : PriceRow) : Decidable (PriceFits row) := inferInstanceAs (Decidable (_ < _))

/-- Do all rows of an outcome fit? -/
def Outcome.Fits (o : Outcome) : Prop := ValuationFits o.valuation ∧ ∀ row ∈ o.prices, PriceFits row

/-! ## Inserts with their columns -/

/-- `22003`. -/
def numericOverflow : String := "numeric field overflow"

/-- One chunk of `flush_valuations`. -/
def insertValuationsInto (rows : List ValuationRow) : Db → Except String Db :=
  guardedWrite numericOverflow (∀ row ∈ rows, ValuationFits row) (insertValuations rows)

/-- One chunk of `flush_prices`. -/
def insertPricesInto (rows : List PriceRow) : Db → Except String Db :=
  guardedWrite numericOverflow (∀ row ∈ rows, PriceFits row) (insertPrices rows)

/-- `flush`. -/
def flushInto (buffers : BulkBuffers) (db : Db) : Except String Db := do
  let valued ← (buffers.valuations.toChunks flushThreshold).foldlM
    (fun db rows => insertValuationsInto rows db) db
  let quoted ← (buffers.prices.toChunks flushThreshold).foldlM
    (fun db rows => insertPricesInto rows db) valued
  return (buffers.attempts.toChunks flushThreshold).foldl (fun db rows => insertAttempts rows db)
    quoted

/-- `maybe_flush`. -/
def maybeFlushInto (buffers : BulkBuffers) (db : Db) : Except String (BulkBuffers × Db) :=
  if buffers.full then (flushInto buffers db).map fun flushed => (BulkBuffers.new, flushed)
  else .ok (buffers, db)

/-! ## A pass -/

section Pass

variable (pass : PassName) (version : Version) (results : RawEvent → PricingResults)

/-- The loop body on a priced event. -/
def joinInto (loop : LptLoop) (e : RawEvent) : Except String LptLoop := do
  let recorded := recordEvent pass version (results e) e loop.buffers
  let flushed ← maybeFlushInto recorded.1 loop.db
  return { buffers := flushed.1
           minUnresolved := pin recorded.2 e.finalizedAt loop.minUnresolved
           db := flushed.2 }

/-- `run_onchain_pass_eth`, `run_onchain_pass_lpt` and `run_multi_asset_pass`, on the candidates in
the order in which they are priced. -/
def runOnchainPass (includeTentative : Bool) (joined : List RawEvent) (db : Db) :
    Except String Db := do
  let loop ← joined.foldlM (joinInto pass version results) ⟨BulkBuffers.new, none, db⟩
  let flushed ← flushInto loop.buffers loop.db
  return advance (version, pass) loop.minUnresolved (frontierOf pass flushed) includeTentative
    flushed

end Pass

/-- The candidates of a pass. -/
def passCandidates (pass : PassName) (version : Version) (includeTentative : Bool) (db : Db) :
    List RawEvent :=
  fetchCandidatesOf pass version includeTentative
    (scanFloor version (version, pass) defaultLookback includeTentative db) db

/-- What the archive answers for an event. -/
structure ArchiveReads where
  eth : EthReads
  lpt : LptReads

/-- The ETH amount of an event: the fees of a claim, else the normalized amount. -/
def ethAmount (pass : PassName) (e : RawEvent) : Numeric :=
  match pass with
  | .MULTI => claimedAmount e.decoded.fees
  | _ => e.amountNormalized.getD 0

/-- The LPT amount of an event: the rewards of a claim, else the normalized amount. -/
def lptAmount (pass : PassName) (e : RawEvent) : Numeric :=
  match pass with
  | .MULTI => claimedAmount e.decoded.rewards
  | _ => e.amountNormalized.getD 0

/-- The events' results: `price_eth_amount` and `price_lpt_amount` on what the archive answers. -/
def passResults (pass : PassName) (lib : DecimalLibrary) (feeds : PriceFeeds)
    (reads : RawEvent → ArchiveReads) (e : RawEvent) : PricingResults where
  eth := priceEthAmount lib feeds e.blockNumber e.blockHash e.blockTimestamp
    (ethAmount pass e).toRat (reads e).eth
  lpt := priceLptAmount lib feeds e.blockNumber e.blockHash e.blockTimestamp
    (lptAmount pass e).toRat (reads e).lpt

/-! ## Completion -/

/-- Every chunk of a list satisfies what its members do. -/
theorem forall_mem_toChunks {α : Type} {holds : α → Prop} {n : ℕ} {xs : List α} :
    (∀ chunk ∈ xs.toChunks n, ∀ x ∈ chunk, holds x) ↔ ∀ x ∈ xs, holds x := by
  rw [← List.forall_mem_flatten, flatten_toChunks]

/-- **A flush completes exactly if every buffered row fits**, as the plain flush. -/
theorem flushInto_ok {buffers : BulkBuffers} {db db' : Db} :
    flushInto buffers db = .ok db' ↔
      ((∀ row ∈ buffers.valuations, ValuationFits row) ∧ ∀ row ∈ buffers.prices, PriceFits row) ∧
        flush buffers db = db' := by
  unfold flushInto insertValuationsInto insertPricesInto flush
  simp only [bind_eq_ok, pure_eq_ok, foldlM_guarded_ok, forall_mem_toChunks]
  constructor
  · rintro ⟨valued, ⟨valuationsFit, rfl⟩, quoted, ⟨pricesFit, rfl⟩, rfl⟩
    exact ⟨⟨valuationsFit, pricesFit⟩, rfl⟩
  · rintro ⟨⟨valuationsFit, pricesFit⟩, rfl⟩
    exact ⟨_, ⟨valuationsFit, rfl⟩, _, ⟨pricesFit, rfl⟩, rfl⟩

/-- The rows of whole outcomes fit if the outcomes do. -/
theorem buffersOf_fit {outcomes : List Outcome} :
    ((∀ row ∈ (Outcome.buffersOf outcomes).valuations, ValuationFits row) ∧
        ∀ row ∈ (Outcome.buffersOf outcomes).prices, PriceFits row) ↔
      ∀ o ∈ outcomes, o.Fits := by
  simp only [Outcome.buffersOf, List.forall_mem_map, List.mem_flatMap, forall_exists_index, and_imp,
    Outcome.Fits]
  constructor
  · intro fit o member
    exact ⟨fit.1 o member, fun row used => fit.2 row o member used⟩
  · intro fit
    exact ⟨fun o member => (fit o member).1, fun row o member used => (fit o member).2 row used⟩

section Loop

variable {pass : PassName} {version : Version} {results : RawEvent → PricingResults}

/-- The loop and the last flush complete exactly if what is pending and what is still pushed
fits. -/
theorem joinAll_ok (joined : List RawEvent) (pending : List Outcome)
    (minUnresolved : Option Timestamp) (db : Db) :
    (∃ loop flushed, joined.foldlM (joinInto pass version results)
        ⟨Outcome.buffersOf pending, minUnresolved, db⟩ = .ok loop ∧
          flushInto loop.buffers loop.db = .ok flushed) ↔
      (∀ o ∈ pending, o.Fits) ∧
        ∀ e ∈ joined, ∀ o ∈ outcomesOf version e (results e) pass, o.Fits := by
  induction joined generalizing pending minUnresolved db with
  | nil =>
      simp only [List.foldlM_nil, pure_eq_ok, exists_and_left, exists_eq_left', flushInto_ok,
        buffersOf_fit, exists_eq', and_true, List.not_mem_nil, false_implies,
        implies_true]
  | cons e rest inductionHypothesis =>
      have recorded : (recordEvent pass version (results e) e (Outcome.buffersOf pending)).1 =
          Outcome.buffersOf (pending ++ outcomesOf version e (results e) pass) :=
        recordEvent_eq pass
      have pushed : (∀ o ∈ pending ++ outcomesOf version e (results e) pass, o.Fits) ↔
          (∀ o ∈ pending, o.Fits) ∧ ∀ o ∈ outcomesOf version e (results e) pass, o.Fits :=
        List.forall_mem_append
      simp only [List.foldlM_cons, bind_eq_ok, pure_eq_ok, joinInto, maybeFlushInto, recorded,
        List.forall_mem_cons]
      rw [← and_assoc, ← pushed]
      generalize pin (recordEvent pass version (results e) e (Outcome.buffersOf pending)).2
        e.finalizedAt minUnresolved = pinned
      generalize pending ++ outcomesOf version e (results e) pass = outcomes
      split
      · -- a full buffer is flushed, and the loop goes on with an empty one
        constructor
        · rintro ⟨loop, flushed, ⟨_, ⟨_, written, rfl⟩, looped⟩, ended⟩
          cases emptied : flushInto (Outcome.buffersOf outcomes) db with
          | error message => simp [emptied, Except.map] at written
          | ok db' =>
              rw [emptied] at written
              cases written
              have later := (inductionHypothesis [] pinned db').mp ⟨loop, flushed, looped, ended⟩
              exact ⟨buffersOf_fit.mp (flushInto_ok.mp emptied).1, later.2⟩
        · rintro ⟨fit, later⟩
          have emptied : flushInto (Outcome.buffersOf outcomes) db = .ok _ :=
            flushInto_ok.mpr ⟨buffersOf_fit.mpr fit, rfl⟩
          obtain ⟨loop, flushed, looped, ended⟩ :=
            (inductionHypothesis [] pinned (flush (Outcome.buffersOf outcomes) db)).mpr
              ⟨fun o none => absurd none List.not_mem_nil, later⟩
          refine ⟨loop, flushed, ⟨_, ⟨(BulkBuffers.new, _), ?_, rfl⟩, looped⟩, ended⟩
          rw [emptied]
          rfl
      · rw [← inductionHypothesis outcomes pinned db]
        constructor
        · rintro ⟨loop, flushed, ⟨_, ⟨_, written, rfl⟩, looped⟩, ended⟩
          cases written
          exact ⟨loop, flushed, looped, ended⟩
        · rintro ⟨loop, flushed, looped, ended⟩
          exact ⟨loop, flushed, ⟨_, ⟨_, rfl, rfl⟩, looped⟩, ended⟩

/-- **A pass completes exactly if every outcome it pushes fits**, in whatever order the events are
priced. -/
theorem runOnchainPass_ok {includeTentative : Bool} {joined : List RawEvent} {db : Db} :
    (∃ db', runOnchainPass pass version results includeTentative joined db = .ok db') ↔
      ∀ e ∈ joined, ∀ o ∈ outcomesOf version e (results e) pass, o.Fits := by
  have all : (∃ loop flushed, joined.foldlM (joinInto pass version results)
      ⟨Outcome.buffersOf [], none, db⟩ = .ok loop ∧ flushInto loop.buffers loop.db = .ok flushed) ↔
        _ := joinAll_ok joined [] none db
  simp only [List.not_mem_nil, false_implies, implies_true, true_and] at all
  rw [← all]
  simp only [runOnchainPass, bind_eq_ok, pure_eq_ok]
  constructor
  · rintro ⟨db', loop, looped, flushed, ended, rfl⟩
    exact ⟨loop, flushed, looped, ended⟩
  · rintro ⟨loop, flushed, looped, ended⟩
    exact ⟨_, loop, looped, flushed, ended, rfl⟩

/-- A step that completes does what the plain step does. -/
theorem joinInto_ok {loop loop' : LptLoop} {e : RawEvent}
    (joins : joinInto pass version results loop e = .ok loop') :
    recordNext pass version results loop e = loop' := by
  obtain ⟨flushed, written, result⟩ := bind_eq_ok.mp joins
  rw [← pure_eq_ok.mp result]
  unfold recordNext maybeFlush
  unfold maybeFlushInto at written
  split at written
  · next full =>
      cases emptied : flushInto (recordEvent pass version (results e) e loop.buffers).1 loop.db with
      | error message => simp [emptied, Except.map] at written
      | ok stored =>
          rw [emptied] at written
          cases written
          simp only [if_pos full, (flushInto_ok.mp emptied).2]
  · next room =>
      cases written
      simp only [if_neg room]

theorem foldlM_joinInto_ok {joined : List RawEvent} {loop loop' : LptLoop}
    (looped : joined.foldlM (joinInto pass version results) loop = .ok loop') :
    joined.foldl (recordNext pass version results) loop = loop' := by
  induction joined generalizing loop with
  | nil => exact pure_eq_ok.mp looped
  | cons e rest inductionHypothesis =>
      rw [List.foldlM_cons] at looped
      obtain ⟨next, joins, rests⟩ := bind_eq_ok.mp looped
      rw [List.foldl_cons, joinInto_ok joins]
      exact inductionHypothesis rests

/-- A pass that completes has written what the plain pass writes. -/
theorem runOnchainPass_eq {includeTentative : Bool} {joined : List RawEvent} {db db' : Db}
    (completed : runOnchainPass pass version results includeTentative joined db = .ok db') :
    let loop := joined.foldl (recordNext pass version results) ⟨BulkBuffers.new, none, db⟩
    db' = advance (version, pass) loop.minUnresolved (frontierOf pass (flush loop.buffers loop.db))
      includeTentative (flush loop.buffers loop.db) := by
  obtain ⟨loop, looped, ends⟩ := bind_eq_ok.mp completed
  obtain ⟨flushed, ended, advanced⟩ := bind_eq_ok.mp ends
  simp only [foldlM_joinInto_ok looped, (flushInto_ok.mp ended).2]
  exact (pure_eq_ok.mp advanced).symm

/-- For LPT this is the pass of `runOnchainPassLpt`. -/
theorem runOnchainPass_lpt {includeTentative : Bool} {joined : List RawEvent} {db db' : Db}
    (completed : runOnchainPass .LPT version results includeTentative joined db = .ok db') :
    runOnchainPassLpt version includeTentative results joined db = db' :=
  (runOnchainPass_eq completed).symm

end Loop

/-! ## Amounts and prices in range -/

/-- Does an amount have at most twenty digits before the point? -/
def AmountInRange (amount : Numeric) : Prop := amount.units.natAbs < 10 ^ numericPrecision

/-- Does a value stay below `10 ^ 20` when it is rounded to eighteen decimals? -/
def RoundsInRange (value : ℚ) : Prop := |value| * 10 ^ 18 + 1 / 2 < 10 ^ numericPrecision

instance (amount : Numeric) : Decidable (AmountInRange amount) :=
  inferInstanceAs (Decidable (_ < _))

instance (value : ℚ) : Decidable (RoundsInRange value) := inferInstanceAs (Decidable (_ < _))

theorem fits_iff_amountInRange {amount : Numeric} :
    amount.Fits numericPrecision ↔ AmountInRange amount := Iff.rfl

theorem amountInRange_ofRat {value : ℚ} :
    AmountInRange (Decimal.ofRat value) ↔ RoundsInRange value :=
  Decimal.fits_ofRat_iff

/-- The amount is in range, and the accepted price and the amount at this price are. -/
def EthInRange (lib : DecimalLibrary) (blockTimestamp : Timestamp) (amount : Numeric)
    (reads : EthReads) : Prop :=
  ∀ quote, ethQuote lib blockTimestamp reads = .ok quote →
    AmountInRange amount ∧
      ∀ price ∈ quote, RoundsInRange price ∧ RoundsInRange (amount.toRat * price)

/-- The same for LPT, whose price is a product of two; a permanent revert is recorded with its
amount, and an error that is retried records nothing. -/
def LptInRange (lib : DecimalLibrary) (blockTimestamp : Timestamp) (amount : Numeric)
    (reads : LptReads) : Prop :=
  (∀ error, lptQuote lib blockTimestamp reads = .error error →
      (permanentLptFailureDetail error).isSome = true → AmountInRange amount) ∧
    ∀ quote, lptQuote lib blockTimestamp reads = .ok quote →
      AmountInRange amount ∧ ∀ price ∈ quote,
        RoundsInRange price.1 ∧ RoundsInRange price.2 ∧ RoundsInRange (price.1 * price.2) ∧
          RoundsInRange (amount.toRat * (price.1 * price.2))

/-- Everything a pass records about an event is in range; a zero half of a claim always is. -/
def EventInRange (pass : PassName) (lib : DecimalLibrary) (reads : RawEvent → ArchiveReads)
    (e : RawEvent) : Prop :=
  match pass with
  | .ETH => ∀ amount ∈ e.amountNormalized, EthInRange lib e.blockTimestamp amount (reads e).eth
  | .LPT => ∀ amount ∈ e.amountNormalized, LptInRange lib e.blockTimestamp amount (reads e).lpt
  | .MULTI =>
      (claimedAmount e.decoded.rewards ≠ 0 →
        LptInRange lib e.blockTimestamp (claimedAmount e.decoded.rewards) (reads e).lpt) ∧
      (claimedAmount e.decoded.fees ≠ 0 →
        EthInRange lib e.blockTimestamp (claimedAmount e.decoded.fees) (reads e).eth)
  | .SEED => True

section Fits

variable {lib : DecimalLibrary} {feeds : PriceFeeds} {version : Version} {e : RawEvent}
  {amount : Numeric}

/-- What an ETH result records fits by its numbers. -/
theorem ethOutcome_fits (result : Pricing PricingOutcome) :
    (∀ o ∈ ethOutcome version e amount result, o.Fits) ↔
      ∀ numbers, ethNumbers result = .ok numbers → AmountInRange amount ∧
        ∀ priced ∈ numbers, RoundsInRange priced.1 ∧ RoundsInRange priced.2.1 ∧
          ∀ price ∈ priced.2.2, price.Fits numericPrecision := by
  rcases result with error | ⟨⟨nativeUsdPrice, amountUsd, chain⟩ | detail | detail, prices⟩
  · simp [ethOutcome, ethNumbers]
  · simp [ethOutcome, ethNumbers, Outcome.Fits, ValuationFits, Outcome.valuation, Outcome.prices,
      fits_iff_amountInRange, amountInRange_ofRat, PriceFits, and_assoc]
  all_goals
    simp [ethOutcome, ethNumbers, Outcome.Fits, ValuationFits, Outcome.valuation, Outcome.prices,
      fits_iff_amountInRange]

/-- What an LPT result records fits by its numbers. -/
theorem lptOutcome_fits (result : Pricing LptOutcome) :
    (∀ o ∈ lptOutcome version e amount result, o.Fits) ↔
      (∀ error, lptNumbers result = .error error →
          (permanentLptFailureDetail error).isSome = true → AmountInRange amount) ∧
        ∀ numbers, lptNumbers result = .ok numbers → AmountInRange amount ∧
          ∀ priced ∈ numbers, RoundsInRange priced.1 ∧ RoundsInRange priced.2.1 ∧
            ∀ price ∈ priced.2.2, price.Fits numericPrecision := by
  rcases result with error | ⟨⟨nativeUsdPrice, amountUsd, chain⟩ |
    ⟨nativeUsdPrice, amountUsd, chain⟩ | detail | detail | detail, prices⟩
  · cases permanent : permanentLptFailureDetail error with
    | none => simp [lptOutcome, lptNumbers, permanent]
    | some detail =>
        simp [lptOutcome, lptNumbers, permanent, lptOutcome.failure, Outcome.Fits, ValuationFits,
          Outcome.valuation, Outcome.prices, fits_iff_amountInRange]
  · simp [lptOutcome, lptNumbers, Outcome.Fits, ValuationFits, Outcome.valuation, Outcome.prices,
      fits_iff_amountInRange, amountInRange_ofRat, PriceFits, and_assoc]
  · simp [lptOutcome, lptNumbers, Outcome.Fits, ValuationFits, Outcome.valuation, Outcome.prices,
      fits_iff_amountInRange, amountInRange_ofRat, PriceFits, and_assoc]
  all_goals
    simp [lptOutcome, lptNumbers, lptOutcome.failure, Outcome.Fits, ValuationFits,
      Outcome.valuation, Outcome.prices, fits_iff_amountInRange]

theorem forall_map_ok {ε α β : Type} {x : Except ε α} {f : α → β} {holds : β → Prop} :
    (∀ b, x.map f = .ok b → holds b) ↔ ∀ a, x = .ok a → holds (f a) := by
  cases x with
  | error message => simp [Except.map]
  | ok a => simp [Except.map]

theorem forall_map_error {ε α β : Type} {x : Except ε α} {f : α → β} {holds : ε → Prop} :
    (∀ error, x.map f = .error error → holds error) ↔
      ∀ error, x = .error error → holds error := by
  cases x with
  | error message => simp [Except.map]
  | ok a => simp [Except.map]

/-- An ETH half fits exactly if it is in range. -/
theorem ethHalf_fits {block : ℤ} {blockHash : BlockHash} {blockTimestamp : Timestamp}
    {reads : EthReads} :
    (∀ o ∈ ethOutcome version e amount
        (priceEthAmount lib feeds block blockHash blockTimestamp amount.toRat reads), o.Fits) ↔
      EthInRange lib blockTimestamp amount reads := by
  rw [ethOutcome_fits, priceEthAmount_quote, forall_map_ok, EthInRange]
  refine forall_congr' fun quote => imp_congr_right fun _ => and_congr_right fun _ => ?_
  cases quote with
  | none => simp
  | some price =>
      simp only [Option.map_some, Option.mem_some_iff, forall_eq', List.mem_singleton, forall_eq,
        fits_iff_amountInRange, amountInRange_ofRat]
      exact ⟨fun h => ⟨h.1, h.2.1⟩, fun h => ⟨h.1, h.2, h.1⟩⟩

/-- An LPT half fits exactly if it is in range. -/
theorem lptHalf_fits {block : ℤ} {blockHash : BlockHash} {blockTimestamp : Timestamp}
    {reads : LptReads} :
    (∀ o ∈ lptOutcome version e amount
        (priceLptAmount lib feeds block blockHash blockTimestamp amount.toRat reads), o.Fits) ↔
      LptInRange lib blockTimestamp amount reads := by
  rw [lptOutcome_fits, priceLptAmount_quote, forall_map_ok, forall_map_error, LptInRange]
  refine and_congr_right fun _ => forall_congr' fun quote => imp_congr_right fun _ =>
    and_congr_right fun _ => ?_
  cases quote with
  | none => simp
  | some price =>
      obtain ⟨perWeth, ethUsd⟩ := price
      simp only [Option.map_some, Option.mem_some_iff, forall_eq', List.forall_mem_cons,
        List.not_mem_nil, false_implies, implies_true, and_true, fits_iff_amountInRange,
        amountInRange_ofRat]
      constructor
      · rintro ⟨product, usd, _, pool, oracle⟩
        exact ⟨pool, oracle, product, usd⟩
      · rintro ⟨pool, oracle, product, usd⟩
        exact ⟨product, usd, product, pool, oracle⟩

theorem zeroOutcome_fits {asset : Asset} {reason : String} :
    (zeroOutcome version e asset reason).Fits := by
  have zero : (0 : Numeric).Fits numericPrecision := Decimal.fits_zero numericPrecision
  simp [zeroOutcome, Outcome.Fits, ValuationFits, Outcome.valuation, Outcome.prices, zero]

/-- **What a pass pushes for an event fits exactly if the event is in range.** -/
theorem outcomesOf_fits (pass : PassName) (reads : RawEvent → ArchiveReads) :
    (∀ o ∈ outcomesOf version e (passResults pass lib feeds reads e) pass, o.Fits) ↔
      EventInRange pass lib reads e := by
  cases pass with
  | ETH =>
      cases carried : e.amountNormalized with
      | none => simp [outcomesOf, EventInRange, carried]
      | some amount =>
          simp only [outcomesOf, EventInRange, carried, Option.mem_some_iff, forall_eq',
            passResults, ethAmount, Option.getD_some]
          exact ethHalf_fits
  | LPT =>
      cases carried : e.amountNormalized with
      | none => simp [outcomesOf, EventInRange, carried]
      | some amount =>
          simp only [outcomesOf, EventInRange, carried, Option.mem_some_iff, forall_eq',
            passResults, lptAmount, Option.getD_some]
          exact lptHalf_fits
  | MULTI =>
      have rewards : (∀ o ∈ if claimedAmount e.decoded.rewards = 0 then
            [zeroOutcome version e .LPT "EarningsClaimed.rewards == 0"]
          else lptOutcome version e (claimedAmount e.decoded.rewards)
            (passResults .MULTI lib feeds reads e).lpt, o.Fits) ↔
          (claimedAmount e.decoded.rewards ≠ 0 → LptInRange lib e.blockTimestamp
            (claimedAmount e.decoded.rewards) (reads e).lpt) := by
        split
        · next zero => simp [zero, zeroOutcome_fits]
        · next claims => exact lptHalf_fits.trans (by simp [claims])
      have fees : (∀ o ∈ if claimedAmount e.decoded.fees = 0 then
            [zeroOutcome version e .ETH "EarningsClaimed.fees == 0"]
          else ethOutcome version e (claimedAmount e.decoded.fees)
            (passResults .MULTI lib feeds reads e).eth, o.Fits) ↔
          (claimedAmount e.decoded.fees ≠ 0 → EthInRange lib e.blockTimestamp
            (claimedAmount e.decoded.fees) (reads e).eth) := by
        split
        · next zero => simp [zero, zeroOutcome_fits]
        · next claims => exact ethHalf_fits.trans (by simp [claims])
      simp only [outcomesOf, claimOutcomes, List.forall_mem_append, rewards, fees, EventInRange]
  | SEED => simp [outcomesOf, EventInRange]

end Fits

/-! ## The columns hold what a pass pushes -/

/-- Every row a pass pushes for a candidate fits, and the pass completes in whatever order the
candidates are priced. -/
structure PassFits (pass : PassName) (lib : DecimalLibrary) (feeds : PriceFeeds)
    (reads : RawEvent → ArchiveReads) (version : Version) (includeTentative : Bool) (db : Db) :
    Prop where
  rows : ∀ e ∈ passCandidates pass version includeTentative db,
    ∀ o ∈ outcomesOf version e (passResults pass lib feeds reads e) pass, ValuationFits o.valuation
  completes : ∀ joined, joined.Perm (passCandidates pass version includeTentative db) →
    ∃ db', runOnchainPass pass version (passResults pass lib feeds reads) includeTentative joined
      db = .ok db'

/-- **The columns hold what a pass pushes exactly if every candidate is in range.** -/
theorem pass_fits_iff (pass : PassName) (lib : DecimalLibrary) (feeds : PriceFeeds)
    (reads : RawEvent → ArchiveReads) (version : Version) (includeTentative : Bool) (db : Db) :
    PassFits pass lib feeds reads version includeTentative db ↔
      ∀ e ∈ passCandidates pass version includeTentative db, EventInRange pass lib reads e := by
  constructor
  · intro fits e candidate
    exact (outcomesOf_fits pass reads).mp
      (runOnchainPass_ok.mp (fits.completes _ (List.Perm.refl _)) e candidate)
  · intro inRange
    have fit : ∀ e ∈ passCandidates pass version includeTentative db,
        ∀ o ∈ outcomesOf version e (passResults pass lib feeds reads e) pass, o.Fits :=
      fun e candidate => (outcomesOf_fits pass reads).mpr (inRange e candidate)
    refine ⟨fun e candidate o pushed => (fit e candidate o pushed).1, fun joined order => ?_⟩
    exact runOnchainPass_ok.mpr fun e member => fit e (order.mem_iff.mp member)

/-! ## A claim beyond the columns -/

/-- A finalized claim of `10 ^ 38` wei of fees. -/
def hugeClaim : RawEvent :=
  ({ txHash := "0xt"
     logIndex := 0
     blockNumber := 1
     blockHash := "0xb"
     blockTimestamp := toTimestamp 5000
     contractName := .BondingManager
     eventName := .EarningsClaimed
     asset := none
     amountNormalized := none
     isValuable := true
     fromAddress := some "0xd"
     toAddress := some "0xo"
     decoded := .earningsClaimed 0 (10 ^ 38) 1 2
     amount_of_asset := fun absurd => absurd } : PreparedRow).finalizedAs 1 0

/-- The sequencer is up, and the oracle is fresh at two thousand dollars. -/
def steadyReads : ArchiveReads where
  eth := ⟨.ok (some ⟨1, 0, 0, 0, 1⟩), .ok (some ⟨7, 200000000000, 4000, 4000, 7⟩)⟩
  lpt := healthyReads

/-- **One claim stops the multi-asset pass.** -/
theorem hugeClaim_stops_pass :
    ¬ ∀ pass lib feeds reads version includeTentative db,
      PassFits pass lib feeds reads version includeTentative db := by
  intro law
  have candidate : hugeClaim ∈ passCandidates .MULTI twapVersion false
      { Db.empty with rawProtocolEvents := [hugeClaim] } := by
    decide +kernel
  have fits := law .MULTI ⟨(· / ·), fun _ => ""⟩ ⟨"0xp", "0xc", "0xs"⟩ (fun _ => steadyReads)
    twapVersion false { Db.empty with rawProtocolEvents := [hugeClaim] }
  have pushed := (outcomesOf_fits .MULTI (fun _ => steadyReads)).mp
    (runOnchainPass_ok.mp (fits.completes _ (List.Perm.refl _)) hugeClaim candidate)
  have quoted : ethQuote ⟨(· / ·), fun _ => ""⟩ hugeClaim.blockTimestamp steadyReads.eth =
      .ok (some (200000000000 / 10 ^ chainlinkDecimals)) := by
    rfl
  have claims : claimedAmount hugeClaim.decoded.fees ≠ 0 := by
    decide +kernel
  have beyond : ¬ AmountInRange (claimedAmount hugeClaim.decoded.fees) := by
    decide +kernel
  exact beyond (pushed.2 claims _ quoted).1

end ProtocolExplorer.Valuator
