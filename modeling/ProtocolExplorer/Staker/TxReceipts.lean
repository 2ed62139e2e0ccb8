import ProtocolExplorer.Indexer.Decode
import ProtocolExplorer.Lib.AnswerCache
import ProtocolExplorer.Lib.Failures
import ProtocolExplorer.Lib.OrderedBatch

/-!
# Transaction receipts

`run_tx_receipts_backfill` selects transactions of canonical finalized events at or above its
checkpoint that have no row yet, fetches their receipts through `rpc_call_cache`, inserts a
typed row for each receipt and moves the checkpoint to the last block of the batch.  A
receipt that is `null` is skipped.

The fetches run concurrently, so when one fails any of the others may have been cached.

* `fetchAll_cases` — a batch is fetched as a whole, or comes to nothing;
* `passOutcome` — **what a call can do to the rows, the cache and the checkpoint**.
-/

set_option autoImplicit false

namespace ProtocolExplorer.Staker

open ProtocolExplorer.Lib
open ProtocolExplorer.Store
open ProtocolExplorer.Indexer.Wire (trimHexPrefix u64FromHex)

/-! ## Receipts -/

/-- A transaction without a row. -/
structure ReceiptCandidate where
  txHash : TxHash
  blockNumber : ℤ
  blockTimestamp : Timestamp
  deriving DecidableEq

/-- What is read of a receipt: `none` when there is no such string. -/
structure Receipt where
  gasUsed : Option String
  effectiveGasPrice : Option String
  gasPrice : Option String
  status : Option String
  fromAddress : Option String
  toAddress : Option String
  deriving DecidableEq

/-- The columns a receipt fills. -/
structure ReceiptFields where
  gasUsed : ℕ
  effectiveGasPrice : ℕ
  txFeeWei : ℕ
  txFeeEth : Numeric
  status : ℕ
  fromAddress : Address
  toAddress : Option Address
  deriving DecidableEq

/-- A row of `tx_receipts`. -/
structure ReceiptRow extends ReceiptCandidate, ReceiptFields
  deriving DecidableEq

/-- Parsing of 256-bit numbers and lower case, from libraries. -/
structure ReceiptLibrary where
  parseU256 : List Char → Option ℕ
  toLowercase : String → String

/-- `U256::MAX`. -/
def u256Max : ℕ := 2 ^ 256 - 1

/-- `i16::MAX`. -/
def i16Max : ℕ := 2 ^ 15 - 1

/-- `with_context`, of a value that may be missing or may not parse. -/
def withContext {α : Type} (message : String) : Option α → Except String α
  | none => .error message
  | some value => .ok value

theorem withContext_eq_ok {α : Type} {message : String} {found : Option α} {value : α} :
    withContext message found = .ok value ↔ found = some value := by
  cases found <;> simp [withContext]

/-- `parse_status_hex`. -/
def parseStatusHex (raw : String) : Option ℕ :=
  (u64FromHex raw).toOption.filter fun v => decide (v ≤ i16Max)

/-- `fetch_receipt_row`, from a receipt that is not `null`. -/
def receiptFields (lib : ReceiptLibrary) (txHash : TxHash) (receipt : Receipt) :
    Except String ReceiptFields := do
  let gasUsedHex ← withContext ("missing gasUsed on receipt for " ++ txHash) receipt.gasUsed
  let gasPriceHex ← withContext ("missing effectiveGasPrice/gasPrice on receipt for " ++ txHash)
    (receipt.effectiveGasPrice <|> receipt.gasPrice)
  let statusHex ← withContext ("missing status on receipt for " ++ txHash) receipt.status
  let fromAddress ← withContext ("missing from on receipt for " ++ txHash) receipt.fromAddress
  let gasUsed ← withContext ("parsing gasUsed for " ++ txHash)
    (lib.parseU256 (trimHexPrefix gasUsedHex.toList))
  let effectiveGasPrice ← withContext ("parsing effectiveGasPrice for " ++ txHash)
    (lib.parseU256 (trimHexPrefix gasPriceHex.toList))
  let status ← withContext ("parsing status for " ++ txHash) (parseStatusHex statusHex)
  -- `saturating_mul`
  let txFeeWei := min (gasUsed * effectiveGasPrice) u256Max
  return {
    gasUsed
    effectiveGasPrice
    txFeeWei
    txFeeEth := ⟨txFeeWei⟩
    status
    fromAddress := lib.toLowercase fromAddress
    toAddress := receipt.toAddress.map lib.toLowercase }

/-! ## The tables -/

/-- The tables of the backfill; `rpc_call_cache` has `none` for a `null` receipt. -/
structure ReceiptState where
  rawProtocolEvents : List RawEvent
  txReceipts : Table TxHash ReceiptRow
  rpcCallCache : Table TxHash (Option Receipt)
  /-- The checkpoint `tx_receipts_backfill`. -/
  checkpoint : Option ℤ

/-- The arguments of a call.  A limit of zero would select nothing, for ever. -/
structure ReceiptArgs where
  includeTentative : Bool
  batchLimit : ℕ
  batchLimit_pos : 0 < batchLimit

/-- The surroundings of a call: what the provider answers, which fetches are done when another
one fails, and whether the two writes fail. -/
structure ReceiptWeather where
  eth_getTransactionReceipt : TxHash → Except String (Option Receipt)
  completed : TxHash → Bool
  insertFailure : Option String
  advanceFailure : Option String

/-- `TxReceiptsBackfillSummary`. -/
structure ReceiptSummary where
  candidatesSeen : ℕ
  rowsWritten : ℕ
  rowsSkippedMissingReceipt : ℕ
  lastProcessedBlock : Option ℤ
  deriving DecidableEq

namespace ReceiptState

/-- `load_checkpoint`, or genesis. -/
def floor (s : ReceiptState) : ℤ := s.checkpoint.getD 0

/-- `advance_checkpoint`. -/
def advanceCheckpoint (s : ReceiptState) (block : ℤ) : ReceiptState :=
  { s with checkpoint := some (s.checkpoint.elim block fun stored => max stored block) }

end ReceiptState

/-- The events a call looks at. -/
def ReceiptArgs.selects (args : ReceiptArgs) (e : RawEvent) : Bool :=
  e.isCanonical && (args.includeTentative || decide (e.finality = .finalized))

def candidateOf (e : RawEvent) : ReceiptCandidate := ⟨e.txHash, e.blockNumber, e.blockTimestamp⟩

/-- The order of candidates. -/
def ReceiptCandidate.key (c : ReceiptCandidate) : ℤ ×ₗ TxHash := toLex (c.blockNumber, c.txHash)

section Pass

variable (lib : ReceiptLibrary) (args : ReceiptArgs) (weather : ReceiptWeather)

/-- `load_candidates`. -/
def loadCandidates (s : ReceiptState) : List ReceiptCandidate :=
  orderedBatch ReceiptCandidate.key args.batchLimit
    ((s.rawProtocolEvents.filter fun e => args.selects e && decide (s.floor ≤ e.blockNumber) &&
      decide (e.txHash ∉ s.txReceipts)).map candidateOf).dedup

/-- The row of an answer. -/
def rowOfAnswer (c : ReceiptCandidate) : Option Receipt → Except String (Option ReceiptRow)
  | none => .ok none
  | some receipt => (receiptFields lib c.txHash receipt).map fun fields => some ⟨c, fields⟩

/-- `fetch_receipt_row`, without what it caches. -/
def fetchReceiptRow (cache : Table TxHash (Option Receipt)) (c : ReceiptCandidate) :
    Except String (Option ReceiptRow) :=
  match (cachedCall weather.eth_getTransactionReceipt c.txHash cache).2 with
  | .error _ => .error ("eth_getTransactionReceipt(" ++ c.txHash ++ ")")
  | .ok answer => rowOfAnswer lib c answer

/-- What some fetches cache. -/
def cacheReceipts (fetched : List ReceiptCandidate) (cache : Table TxHash (Option Receipt)) :
    Table TxHash (Option Receipt) :=
  fetched.foldl (fun cache c => (cachedCall weather.eth_getTransactionReceipt c.txHash cache).1) cache

/-- The concurrent fetches of a batch. -/
def fetchAll (candidates : List ReceiptCandidate) (cache : Table TxHash (Option Receipt)) :
    Table TxHash (Option Receipt) × Except String (List (Option ReceiptRow)) :=
  match candidates.mapM (fetchReceiptRow lib weather cache) with
  | .ok receipts => (cacheReceipts weather candidates cache, .ok receipts)
  | .error err =>
      (cacheReceipts weather (candidates.filter fun c => weather.completed c.txHash) cache,
        .error err)

/-- A fee that fits `NUMERIC(38, 18)`. -/
def ReceiptFields.Fits (fields : ReceiptFields) : Prop := fields.txFeeWei < 10 ^ 38

instance (fields : ReceiptFields) : Decidable fields.Fits :=
  inferInstanceAs (Decidable (_ < _))

/-- `bulk_insert`; no statement is sent without rows. -/
def bulkInsert (rows : List ReceiptRow) (table : Table TxHash ReceiptRow) :
    Except String (Table TxHash ReceiptRow) :=
  if rows.isEmpty then .ok table
  else
    match weather.insertFailure with
    | some err => .error err
    | none =>
        if ∀ row ∈ rows, row.toReceiptFields.Fits then
          .ok (rows.foldl (fun t row => t.insertNew row.txHash row) table)
        else .error "bulk-inserting tx_receipts"

/-- The end of a call: move the checkpoint, unless that fails. -/
def finish (s : ReceiptState) (block : ℤ) (summary : ReceiptSummary) :
    ReceiptState × Except String ReceiptSummary :=
  match weather.advanceFailure with
  | some err => (s, .error err)
  | none => (s.advanceCheckpoint block, .ok summary)

/-- `run_tx_receipts_backfill`. -/
def runTxReceiptsBackfill (s : ReceiptState) : ReceiptState × Except String ReceiptSummary :=
  match loadCandidates args s with
  | [] => finish weather s s.floor ⟨0, 0, 0, some s.floor⟩
  | first :: rest =>
      let maxBlock := (rest.map ReceiptCandidate.blockNumber).foldl max first.blockNumber
      match fetchAll lib weather (first :: rest) s.rpcCallCache with
      | (rpcCallCache, .error err) => ({ s with rpcCallCache }, .error err)
      | (rpcCallCache, .ok receipts) =>
          match bulkInsert weather receipts.reduceOption s.txReceipts with
          | .error err => ({ s with rpcCallCache }, .error err)
          | .ok txReceipts =>
              finish weather { s with rpcCallCache, txReceipts } maxBlock
                { candidatesSeen := (first :: rest).length
                  rowsWritten := txReceipts.keys.card - s.txReceipts.keys.card
                  rowsSkippedMissingReceipt := receipts.count none
                  lastProcessedBlock := some maxBlock }

end Pass

/-! ## What a call does -/

section Facts

variable {lib : ReceiptLibrary} {args : ReceiptArgs} {weather : ReceiptWeather} {s : ReceiptState}

/-- An event whose transaction could be a candidate. -/
structure Pending (args : ReceiptArgs) (s : ReceiptState) (e : RawEvent) : Prop where
  stored : e ∈ s.rawProtocolEvents
  selected : args.selects e = true
  noRow : e.txHash ∉ s.txReceipts

theorem pending_of_mem_loadCandidates {c : ReceiptCandidate} (listed : c ∈ loadCandidates args s) :
    ∃ e, Pending args s e ∧ s.floor ≤ e.blockNumber ∧ candidateOf e = c := by
  have selected := List.mem_dedup.mp (mem_of_mem_orderedBatch listed)
  obtain ⟨e, member, rfl⟩ := List.mem_map.mp selected
  simp only [List.mem_filter, Bool.and_eq_true, decide_eq_true_eq] at member
  exact ⟨e, ⟨member.1, member.2.1.1, member.2.2⟩, member.2.1.2, rfl⟩

/-- A pending event above the checkpoint is a candidate, or the batch has ended before it. -/
theorem Pending.fetched_or_above {e : RawEvent} (pending : Pending args s e)
    (above : s.floor ≤ e.blockNumber) : candidateOf e ∈ loadCandidates args s ∨
      ∀ c ∈ loadCandidates args s, c.blockNumber ≤ e.blockNumber := by
  by_cases fetched : candidateOf e ∈ loadCandidates args s
  · exact Or.inl fetched
  · refine Or.inr fun c listed => ?_
    have available : candidateOf e ∈ ((s.rawProtocolEvents.filter fun e => args.selects e &&
        decide (s.floor ≤ e.blockNumber) && decide (e.txHash ∉ s.txReceipts)).map
          candidateOf).dedup := by
      refine List.mem_dedup.mpr (List.mem_map.mpr ⟨e, List.mem_filter.mpr ⟨pending.stored, ?_⟩, rfl⟩)
      simp [pending.selected, above, pending.noRow]
    have ordered := key_le_of_not_fetched listed available fetched
    rcases Prod.Lex.le_iff.mp ordered with below | ⟨same, _⟩
    · exact le_of_lt below
    · exact le_of_eq same

theorem cacheReceipts_extends (fetched : List ReceiptCandidate)
    (cache : Table TxHash (Option Receipt)) :
    CacheExtends cache (cacheReceipts weather fetched cache) := by
  induction fetched generalizing cache with
  | nil => exact CacheExtends.refl cache
  | cons c rest inductionHypothesis =>
      rw [cacheReceipts, List.foldl_cons]
      exact (cachedCall_extends rfl).trans (inductionHypothesis _)

theorem cacheReceipts_all {isAnswer : TxHash → Option Receipt → Prop}
    {fetched : List ReceiptCandidate} {cache : Table TxHash (Option Receipt)}
    (cached : ∀ tx answer, cache.lookup tx = some answer → isAnswer tx answer)
    (served : ∀ c ∈ fetched, ∀ answer, weather.eth_getTransactionReceipt c.txHash = .ok answer →
      isAnswer c.txHash answer) :
    ∀ tx answer, (cacheReceipts weather fetched cache).lookup tx = some answer →
      isAnswer tx answer := by
  induction fetched generalizing cache with
  | nil => exact cached
  | cons c rest inductionHypothesis =>
      rw [cacheReceipts, List.foldl_cons]
      exact inductionHypothesis (cachedCall_all rfl cached (served c (List.mem_cons_self ..)))
        fun other member => served other (List.mem_cons_of_mem _ member)

/-- A batch is fetched as a whole, or some of its answers are cached and nothing comes of it. -/
theorem fetchAll_cases (lib : ReceiptLibrary) (weather : ReceiptWeather)
    (candidates : List ReceiptCandidate) (cache : Table TxHash (Option Receipt)) :
    (∃ receipts, fetchAll lib weather candidates cache =
        (cacheReceipts weather candidates cache, .ok receipts) ∧
      (∀ c ∈ candidates, ∃ receipt ∈ receipts, fetchReceiptRow lib weather cache c = .ok receipt) ∧
      ∀ receipt ∈ receipts, ∃ c ∈ candidates, fetchReceiptRow lib weather cache c = .ok receipt) ∨
    ∃ err fetched, fetched ⊆ candidates ∧ fetchAll lib weather candidates cache =
      (cacheReceipts weather fetched cache, .error err) ∧
        ∃ c ∈ candidates, fetchReceiptRow lib weather cache c = .error err := by
  unfold fetchAll
  cases mapped : candidates.mapM (fetchReceiptRow lib weather cache) with
  | ok receipts => exact Or.inl ⟨receipts, rfl, mem_of_mapM_ok mapped⟩
  | error err =>
      exact Or.inr ⟨err, _, List.filter_subset_self _, rfl, exists_of_mapM_error mapped⟩

theorem bulkInsert_ok {rows : List ReceiptRow} {table table' : Table TxHash ReceiptRow}
    (inserted : bulkInsert weather rows table = .ok table') :
    table' = rows.foldl (fun t row => t.insertNew row.txHash row) table ∧
      ∀ row ∈ rows, row.toReceiptFields.Fits := by
  unfold bulkInsert at inserted
  split at inserted
  · next noRows =>
      cases inserted
      rw [List.isEmpty_iff.mp noRows]
      exact ⟨rfl, fun _ member => absurd member List.not_mem_nil⟩
  · split at inserted
    · cases inserted
    · split at inserted
      · next fit =>
          cases inserted
          exact ⟨rfl, fit⟩
      · cases inserted

theorem bulkInsert_error {rows : List ReceiptRow} {table : Table TxHash ReceiptRow} {err : String}
    (failed : bulkInsert weather rows table = .error err) :
    weather.insertFailure = some err ∨ ∃ row ∈ rows, ¬ row.toReceiptFields.Fits := by
  unfold bulkInsert at failed
  split at failed
  · cases failed
  · split at failed
    · next failure =>
        cases failed
        exact Or.inl failure
    · split at failed
      · cases failed
      · next notAll => exact Or.inr (by simpa using notAll)

@[simp] theorem finish_rawProtocolEvents (block : ℤ) (summary : ReceiptSummary) :
    (finish weather s block summary).1.rawProtocolEvents = s.rawProtocolEvents := by
  unfold finish
  split <;> rfl

@[simp] theorem finish_txReceipts (block : ℤ) (summary : ReceiptSummary) :
    (finish weather s block summary).1.txReceipts = s.txReceipts := by
  unfold finish
  split <;> rfl

@[simp] theorem finish_rpcCallCache (block : ℤ) (summary : ReceiptSummary) :
    (finish weather s block summary).1.rpcCallCache = s.rpcCallCache := by
  unfold finish
  split <;> rfl

/-- The checkpoint stays, or moves up to the block. -/
theorem finish_floor (block : ℤ) (summary : ReceiptSummary) :
    (finish weather s block summary).1.floor = s.floor ∨
      (finish weather s block summary).1.floor = block ∨
        (finish weather s block summary).1.floor = max s.floor block := by
  unfold finish ReceiptState.advanceCheckpoint ReceiptState.floor
  split
  · exact Or.inl rfl
  · cases s.checkpoint with
    | none => exact Or.inr (Or.inl rfl)
    | some stored => exact Or.inr (Or.inr rfl)

theorem finish_floor_le {block bound : ℤ} {summary : ReceiptSummary} (above : s.floor ≤ bound)
    (most : block ≤ bound) : (finish weather s block summary).1.floor ≤ bound := by
  rcases @finish_floor weather s block summary with same | same | same <;> rw [same]
  · exact above
  · exact most
  · exact max_le above most

theorem le_finish_floor {block : ℤ} {summary : ReceiptSummary} (above : s.floor ≤ block) :
    s.floor ≤ (finish weather s block summary).1.floor := by
  rcases @finish_floor weather s block summary with same | same | same <;> rw [same]
  · exact above
  · exact le_max_left _ _

/-- The outcomes of a call. -/
inductive PassOutcome (lib : ReceiptLibrary) (args : ReceiptArgs) (weather : ReceiptWeather)
    (s : ReceiptState) : ReceiptState → Prop
  /-- There is no candidate. -/
  | idle {s'} (nothing : loadCandidates args s = []) (summary : ReceiptSummary)
      (ends : s' = (finish weather s s.floor summary).1) : PassOutcome lib args weather s s'
  /-- Some fetch fails, or the insert does. -/
  | failed {fetched : List ReceiptCandidate} (among : fetched ⊆ loadCandidates args s)
      (cause : (∃ c ∈ loadCandidates args s, ∃ err,
          fetchReceiptRow lib weather s.rpcCallCache c = .error err) ∨
        weather.insertFailure.isSome ∨ ∃ c ∈ loadCandidates args s, ∃ row,
          fetchReceiptRow lib weather s.rpcCallCache c = .ok (some row) ∧
            ¬ row.toReceiptFields.Fits) :
      PassOutcome lib args weather s
        { s with rpcCallCache := cacheReceipts weather fetched s.rpcCallCache }
  /-- All are fetched and the rows inserted. -/
  | inserted {s'} {receipts : List (Option ReceiptRow)} {maxBlock : ℤ} (summary : ReceiptSummary)
      (each : ∀ c ∈ loadCandidates args s, ∃ receipt ∈ receipts,
        fetchReceiptRow lib weather s.rpcCallCache c = .ok receipt)
      (all : ∀ receipt ∈ receipts, ∃ c ∈ loadCandidates args s,
        fetchReceiptRow lib weather s.rpcCallCache c = .ok receipt)
      (fit : ∀ row ∈ receipts.reduceOption, row.toReceiptFields.Fits)
      (least : ∀ bound, (∀ c ∈ loadCandidates args s, c.blockNumber ≤ bound) → maxBlock ≤ bound)
      (attained : ∃ c ∈ loadCandidates args s, c.blockNumber ≤ maxBlock)
      (ends : s' = (finish weather
        { s with
          rpcCallCache := cacheReceipts weather (loadCandidates args s) s.rpcCallCache
          txReceipts := receipts.reduceOption.foldl (fun t row => t.insertNew row.txHash row)
            s.txReceipts } maxBlock summary).1) : PassOutcome lib args weather s s'

theorem passOutcome (lib : ReceiptLibrary) (args : ReceiptArgs) (weather : ReceiptWeather)
    (s : ReceiptState) :
    PassOutcome lib args weather s (runTxReceiptsBackfill lib args weather s).1 := by
  unfold runTxReceiptsBackfill
  split
  · next nothing => exact .idle nothing _ rfl
  · next first rest listed =>
      simp only
      rcases fetchAll_cases lib weather (first :: rest) s.rpcCallCache with
        ⟨receipts, done, each, all⟩ | ⟨err, fetched, among, done, c, member, unfetched⟩
      · rw [done]
        simp only
        cases insert : bulkInsert weather receipts.reduceOption s.txReceipts with
        | error err =>
            refine .failed (listed ▸ List.Subset.refl _) (Or.inr ?_)
            rcases bulkInsert_error insert with failure | ⟨row, member, tooLarge⟩
            · exact Or.inl (failure ▸ rfl)
            · obtain ⟨c, among, own⟩ := all _ (List.reduceOption_mem_iff.mp member)
              exact Or.inr ⟨c, listed ▸ among, row, own, tooLarge⟩
        | ok table =>
            obtain ⟨rfl, fit⟩ := bulkInsert_ok insert
            rw [← listed] at each all
            refine .inserted _ each all fit ?_ ?_ (by rw [listed])
            · intro bound below
              rw [listed] at below
              refine foldl_max_le_iff.mpr ⟨below first (List.mem_cons_self ..), ?_⟩
              intro block member
              obtain ⟨c, inRest, rfl⟩ := List.mem_map.mp member
              exact below c (List.mem_cons_of_mem _ inRest)
            · rw [listed]
              exact ⟨first, List.mem_cons_self .., (foldl_max_le_iff.mp (le_refl _)).1⟩
      · rw [done]
        exact .failed (listed ▸ among) (Or.inl ⟨c, listed ▸ member, err, unfetched⟩)

end Facts

end ProtocolExplorer.Staker
