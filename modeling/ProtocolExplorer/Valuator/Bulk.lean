import ProtocolExplorer.Lib.NumberedLogs
import ProtocolExplorer.Store.Database

/-!
# Bulk buffers

The on-chain passes collect rows in `BulkBuffers` and write them with multi-row inserts of
at most `flushThreshold` rows.  `flush` drains the valuations, then the prices, then the
attempts; each chunk is a statement of its own (`flushStatement`), so a failing flush
leaves a prefix of them written.

`flushStatement_cases` lists the three kinds of statement.
-/

set_option autoImplicit false

namespace ProtocolExplorer.Valuator

open ProtocolExplorer.Lib
open ProtocolExplorer.Store

/-- `FLUSH_THRESHOLD`. -/
def flushThreshold : ℕ := 500

structure BulkBuffers where
  valuations : List ValuationRow
  attempts : List AttemptRow
  prices : List PriceRow
  deriving DecidableEq

namespace BulkBuffers

/-- `BulkBuffers::new`. -/
def new : BulkBuffers := ⟨[], [], []⟩

/-- `push_priced`: a valuation and its paired attempt. -/
def pushPriced (buffers : BulkBuffers) (eventId : ℤ) (valuationVersion : Version) (asset : Asset)
    (pricingMethod source : String) (blockNumber : ℤ)
    (amountNative nativeUsdPrice amountUsd : Numeric) (pricingChain : String) : BulkBuffers :=
  { buffers with
    valuations := buffers.valuations ++
      [{ eventId, valuationVersion, asset, pricingMethod, source, status := .priced, blockNumber,
         amountNative, nativeUsdPrice := some nativeUsdPrice, amountUsd := some amountUsd,
         pricingChain }]
    attempts := buffers.attempts ++
      [{ eventId, valuationVersion, asset, resultStatus := .priced, errorDetail := none }] }

/-- `push_failed_outcome`: a valuation without USD values and its paired attempt. -/
def pushFailedOutcome (buffers : BulkBuffers) (eventId : ℤ) (valuationVersion : Version)
    (asset : Asset) (pricingMethod source : String) (blockNumber : ℤ) (amountNative : Numeric)
    (resultStatus : ResultStatus) (pricingChain : String) : BulkBuffers :=
  { buffers with
    valuations := buffers.valuations ++
      [{ eventId, valuationVersion, asset, pricingMethod, source, status := resultStatus,
         blockNumber, amountNative, nativeUsdPrice := none, amountUsd := none, pricingChain }]
    attempts := buffers.attempts ++
      [{ eventId, valuationVersion, asset, resultStatus, errorDetail := some pricingChain }] }

/-- `push_price`, for every price of an outcome. -/
def pushPrices (buffers : BulkBuffers) (prices : List PriceRow) : BulkBuffers :=
  { buffers with prices := buffers.prices ++ prices }

/-- The test of `maybe_flush`. -/
def full (buffers : BulkBuffers) : Bool :=
  decide (flushThreshold ≤ buffers.valuations.length) ||
    decide (flushThreshold ≤ buffers.attempts.length) ||
    decide (flushThreshold ≤ buffers.prices.length)

end BulkBuffers

/-! ## The insert statements -/

/-- One chunk of `flush_valuations`. -/
def insertValuations (rows : List ValuationRow) (db : Db) : Db :=
  { db with
    eventValuations :=
      rows.foldl (fun table row => Table.insertNew table row.key row) db.eventValuations }

theorem insertValuations_append (rows rows' : List ValuationRow) (db : Db) :
    insertValuations (rows ++ rows') db = insertValuations rows' (insertValuations rows db) := by
  simp only [insertValuations, List.foldl_append]

/-- One chunk of `flush_prices`. -/
def insertPrices (rows : List PriceRow) (db : Db) : Db :=
  { db with
    tokenPricesByBlock :=
      rows.foldl (fun table row => Table.insertNew table row.key row) db.tokenPricesByBlock }

/-- `COALESCE(MAX(attempt_number), 0)` of a key. -/
def lastAttempt (attempts : Table AttemptKey AttemptRow) (key : ValuationKey) : ℕ :=
  (attempts.keys.filter fun stored => stored.1 = key).sup Prod.snd

/-- `ORDER BY result_status, error_detail NULLS FIRST`. -/
def attemptRank (row : AttemptRow) : Lex (String × WithBot String) :=
  toLex (row.resultStatus.text, row.errorDetail)

/-- The rows of a chunk with their attempt numbers: within a key they are ranked by status
and detail and numbered after the stored ones. -/
def numberAttempts (rows : List AttemptRow) (db : Db) : List (AttemptKey × AttemptRow) :=
  (rows.map AttemptRow.key).dedup.flatMap fun key =>
    (orderBy attemptRank (rows.filter fun r => decide (r.key = key))).zipIdx.map
      fun (row, rank) => ((key, lastAttempt db.valuationAttempts key + (rank + 1)), row)

/-- One chunk of `flush_attempts`. -/
def insertAttempts (rows : List AttemptRow) (db : Db) : Db :=
  { db with
    valuationAttempts := (numberAttempts rows db).foldl
      (fun table row => Table.insertNew table row.1 row.2) db.valuationAttempts }

/-- A chunk is a batch of numbered rows. -/
theorem valuationAttempts_insertAttempts (rows : List AttemptRow) (db : Db) :
    (insertAttempts rows db).valuationAttempts =
      insertNumbered AttemptRow.key (orderBy attemptRank) rows db.valuationAttempts := rfl

theorem mem_numberAttempts {rows : List AttemptRow} {db : Db} {write : AttemptKey × AttemptRow} :
    write ∈ numberAttempts rows db ↔ ∃ key ∈ rows.map AttemptRow.key, ∃ rank,
      (orderBy attemptRank (rows.filter fun r => decide (r.key = key)))[rank]? = some write.2 ∧
        write.1 = (key, lastAttempt db.valuationAttempts key + (rank + 1)) :=
  mem_numberRows

/-- **Every attempt of a chunk is stored**, under a number of its own. -/
theorem lookup_insertAttempts {rows : List AttemptRow} {row : AttemptRow} (member : row ∈ rows)
    (db : Db) :
    ∃ n, (row.key, n) ∉ db.valuationAttempts ∧
      (insertAttempts rows db).valuationAttempts.lookup (row.key, n) = some row := by
  have ranked : row ∈ orderBy attemptRank (rows.filter fun r => decide (r.key = row.key)) :=
    mem_orderBy.mpr (List.mem_filter.mpr ⟨member, decide_eq_true rfl⟩)
  obtain ⟨rank, atRank⟩ := List.mem_iff_getElem?.mp ranked
  have later : lastNumber db.valuationAttempts row.key <
      lastNumber db.valuationAttempts row.key + (rank + 1) := by omega
  refine ⟨_, notMem_of_lastNumber_lt later, ?_⟩
  rw [valuationAttempts_insertAttempts, lookup_insertNumbered (orderBy_perm attemptRank),
    if_neg (not_le.mpr later), ← atRank]
  congr 1
  omega

/-- The next statement of a flush, `none` when every bucket is empty. -/
def flushStatement (buffers : BulkBuffers) (db : Db) : Option (BulkBuffers × Db) :=
  if buffers.valuations ≠ [] then
    some ({ buffers with valuations := buffers.valuations.drop flushThreshold },
      insertValuations (buffers.valuations.take flushThreshold) db)
  else if buffers.prices ≠ [] then
    some ({ buffers with prices := buffers.prices.drop flushThreshold },
      insertPrices (buffers.prices.take flushThreshold) db)
  else if buffers.attempts ≠ [] then
    some ({ buffers with attempts := buffers.attempts.drop flushThreshold },
      insertAttempts (buffers.attempts.take flushThreshold) db)
  else none

/-- What a statement of a flush writes, and what has been written before it. -/
theorem flushStatement_cases {buffers buffers' : BulkBuffers} {db db' : Db}
    (executed : flushStatement buffers db = some (buffers', db')) :
    (buffers.valuations ≠ [] ∧
        buffers' = { buffers with valuations := buffers.valuations.drop flushThreshold } ∧
        db' = insertValuations (buffers.valuations.take flushThreshold) db) ∨
      ((buffers.valuations = [] ∧ buffers.prices ≠ []) ∧
        buffers' = { buffers with prices := buffers.prices.drop flushThreshold } ∧
        db' = insertPrices (buffers.prices.take flushThreshold) db) ∨
      ((buffers.valuations = [] ∧ buffers.prices = [] ∧ buffers.attempts ≠ []) ∧
        buffers' = { buffers with attempts := buffers.attempts.drop flushThreshold } ∧
        db' = insertAttempts (buffers.attempts.take flushThreshold) db) := by
  unfold flushStatement at executed
  split at executed
  · next pending =>
      cases executed
      exact Or.inl ⟨pending, rfl, rfl⟩
  · next valued =>
      split at executed
      · next pending =>
          cases executed
          exact Or.inr (Or.inl ⟨⟨not_not.mp valued, pending⟩, rfl, rfl⟩)
      · next mirrored =>
          split at executed
          · next pending =>
              cases executed
              exact Or.inr (Or.inr
                ⟨⟨not_not.mp valued, not_not.mp mirrored, pending⟩, rfl, rfl⟩)
          · cases executed

/-- A flush is over when every bucket is empty. -/
theorem flushStatement_eq_none {buffers : BulkBuffers} {db : Db}
    (finished : flushStatement buffers db = none) : buffers = BulkBuffers.new := by
  obtain ⟨valuations, attempts, prices⟩ := buffers
  unfold flushStatement at finished
  split_ifs at finished with valued mirrored attempted
  cases not_not.mp valued
  cases not_not.mp mirrored
  cases not_not.mp attempted
  rfl

/-- A flush that runs to its end. -/
def flush (buffers : BulkBuffers) (db : Db) : Db :=
  let valued := (buffers.valuations.toChunks flushThreshold).foldl
    (fun db rows => insertValuations rows db) db
  let quoted := (buffers.prices.toChunks flushThreshold).foldl
    (fun db rows => insertPrices rows db) valued
  (buffers.attempts.toChunks flushThreshold).foldl
    (fun db rows => insertAttempts rows db) quoted

end ProtocolExplorer.Valuator
