import ProtocolExplorer.Lib.BulkStatements
import ProtocolExplorer.Staker.Profile
import ProtocolExplorer.Staker.ReceiptCompleteness
import ProtocolExplorer.Valuator.Bulk

/-!
# Bulk inserts

Four writers insert many rows with one statement: the snapshots of a round, transaction receipts,
the buffers of the valuator and the rows of an indexed chunk of blocks.  The database refuses a
statement of more than 65535 parameters.  The last two writers chunk their rows, the first two do
not.

* `walkInserts_within_iff` — the snapshots of a run, by induction over its events;
* `inserts_within_iff` — **which calls of the writers stay within the limit**;
* `longBatch_exceeds` — a batch of receipts that does not.
-/

set_option autoImplicit false

namespace ProtocolExplorer.Writers

open ProtocolExplorer.Lib
open ProtocolExplorer.Store
open ProtocolExplorer.Staker
open ProtocolExplorer.Valuator (BulkBuffers flushThreshold)
open ProtocolExplorer.Indexer

/-! ## Parameters -/

/-- A value as JSON. -/
inductive Json where
  | text (value : String)
  | event (log : Wire.RawLog) (decoded : Option (List (String × Wire.DecodedValue)))

/-- A bound parameter. -/
inductive Param where
  | int (value : ℤ)
  | numeric (value : Option ℚ)
  | boolean (value : Bool)
  | timestamp (value : Option Timestamp)
  | text (value : Option String)
  | texts (value : List String)
  | bytes (value : List UInt8)
  | contract (value : ContractKind)
  | event (value : EventName)
  | asset (value : Option Asset)
  | json (value : Option Json)

/-- The parameters of one statement. -/
abbrev Insert := List Param

/-- PostgreSQL counts parameters with sixteen bits. -/
def bindLimit : ℕ := 65535

/-- `ARBITRUM_CHAIN_ID`. -/
def arbitrumChainId : Param := .int 42161

/-! ## The statements of the writers -/

/-- `push_values` of `insert_orch_stake_by_round_batch`. -/
def orchStakeColumns (candidate : RawEvent) (round : ℤ)
    (row : Address × OrchestratorSnapshot) : List Param :=
  [arbitrumChainId, .text row.1, .int round, .int candidate.blockNumber,
    .timestamp candidate.blockTimestamp, .text candidate.blockHash,
    .numeric row.2.totalStake.toRat, .text row.2.serviceUri,
    .numeric row.2.cuts.feeCutPercent.toRat, .numeric row.2.cuts.rewardCutPercent.toRat,
    .numeric row.2.cuts.feeSharePercent.toRat, .boolean row.2.lifecycle.isActive,
    .timestamp row.2.lifecycle.lastLifecycleEventAt, .int candidate.id]

/-- `insert_orch_stake_by_round_batch`. -/
def orchStakeByRoundInserts (candidate : RawEvent) (currentRound : Option ℤ)
    (snapshots : List (Address × OrchestratorSnapshot)) : List Insert :=
  if snapshots.isEmpty then []
  else
    match currentRound with
    | none => []
    | some round => [boundBy (orchStakeColumns candidate round) snapshots]

/-- `push_values` of `bulk_insert`. -/
def receiptColumns (r : ReceiptRow) : List Param :=
  [arbitrumChainId, .text r.txHash, .int r.blockNumber, .timestamp r.blockTimestamp,
    .numeric (r.gasUsed : ℚ), .numeric (r.effectiveGasPrice : ℚ), .numeric (r.txFeeWei : ℚ),
    .numeric r.txFeeEth.toRat, .int r.status, .text r.fromAddress, .text r.toAddress]

/-- `bulk_insert` of the receipts, which is called with rows only. -/
def txReceiptsInserts (rows : List ReceiptRow) : List Insert :=
  if rows.isEmpty then [] else [boundBy receiptColumns rows]

/-- `push_values` of `flush_valuations`. -/
def valuationColumns (r : ValuationRow) : List Param :=
  [.int r.eventId, .text r.valuationVersion, .asset r.asset, .text r.pricingMethod,
    arbitrumChainId, .int r.blockNumber, .numeric r.amountNative.toRat,
    .numeric (r.nativeUsdPrice.map Decimal.toRat), .numeric (r.amountUsd.map Decimal.toRat),
    .json (some (.text r.pricingChain)), .text r.status.text, .text r.source]

/-- `push_values` of `flush_prices`; `raw` is what the oracle answered. -/
def priceColumns (raw : PriceRow → Option String) (r : PriceRow) : List Param :=
  [arbitrumChainId, .text r.asset, .text r.quote, .int r.blockNumber, .text r.blockHash,
    .timestamp r.blockTimestamp, .numeric r.price.toRat, .text r.source, .text r.poolAddress,
    .text r.oracleAddress, .json ((raw r).map .text)]

/-- The `VALUES` of `flush_attempts`. -/
def attemptColumns (r : AttemptRow) : List Param :=
  [.int r.eventId, .text r.valuationVersion, .asset r.asset, .text r.resultStatus.text,
    .json (r.errorDetail.map .text)]

/-- `flush`. -/
def flushInserts (raw : PriceRow → Option String) (buffers : BulkBuffers) : List Insert :=
  chunked flushThreshold valuationColumns buffers.valuations ++
    chunked flushThreshold (priceColumns raw) buffers.prices ++
      chunked flushThreshold attemptColumns buffers.attempts

/-- `BATCH_INSERT_SIZE`. -/
def batchInsertSize : ℕ := 500

/-- `push_values` of `insert_events`. -/
def eventColumns (abiHash : String) (row : Wire.PreparedRow) : List Param :=
  [arbitrumChainId, .text row.txHash, .int row.logIndex, .int row.blockNumber,
    .text row.blockHash, .timestamp row.blockTimestamp, .text row.contractAddress,
    .contract row.contractName, .event row.eventName, .text row.eventSignature,
    .asset row.asset, .numeric (row.amountRaw.map fun raw => (raw : ℚ)),
    .numeric (row.amountNormalized.map Decimal.toRat), .boolean row.isValuable,
    .text row.fromAddress, .text row.toAddress, .text "tentative", .boolean true,
    .json (some (.event row.rawEvent row.decoded)), .text abiHash]

/-- `push_values` of `insert_dead_letters`. -/
def deadLetterColumns (row : Wire.DeadLetterRow) : List Param :=
  [arbitrumChainId, .int row.blockNumber, .text row.blockHash, .text row.txHash,
    .int row.logIndex, .text row.contractAddress, .texts row.topics, .bytes row.data,
    .text row.attemptedAbiHash, .text row.errorMessage]

/-- `insert_events` and `insert_dead_letters` of one chunk of blocks. -/
def blockChunkInserts (abiHash : String) (prepared : List Wire.PreparedRow)
    (dead : List Wire.DeadLetterRow) : List Insert :=
  chunked batchInsertSize (eventColumns abiHash) prepared ++
    chunked batchInsertSize deadLetterColumns dead

/-! ## The callers -/

section Callers

variable (reads : OrchReads)

/-- The statements of the loop over the candidates. -/
def walkInserts : ProfileWalk → List RawEvent → List Insert
  | _, [] => []
  | s, e :: rest =>
      (if e.eventName = .NewRound then
        orchStakeByRoundInserts e ((extractRound e).or s.currentRound) (readSnapshots reads s e)
      else []) ++ walkInserts (profileStep reads s e) rest

/-- The statements of `run_profile_backfill`. -/
def profileInserts (includeTentative : Bool) (limit : ℕ) (db : Db) : List Insert :=
  walkInserts reads (startWalk (db.loadCheckpoint .stakerOrchProfile)
    (profileBatch includeTentative limit db) db) (profileBatch includeTentative limit db)

variable (lib : ReceiptLibrary) (args : ReceiptArgs) (weather : ReceiptWeather)

/-- The statements of `run_tx_receipts_backfill`. -/
def receiptsInserts (s : ReceiptState) : List Insert :=
  match (fetchAll lib weather (loadCandidates args s) s.rpcCallCache).2 with
  | .error _ => []
  | .ok receipts => txReceiptsInserts receipts.reduceOption

end Callers

/-- The calls that insert many rows. -/
inductive BulkCall where
  | profile (reads : OrchReads) (includeTentative : Bool) (limit : ℕ) (db : Db)
  | receipts (lib : ReceiptLibrary) (args : ReceiptArgs) (weather : ReceiptWeather)
      (s : ReceiptState)
  | flush (raw : PriceRow → Option String) (buffers : BulkBuffers)
  | blockChunk (abiHash : String) (prepared : List Wire.PreparedRow)
      (dead : List Wire.DeadLetterRow)

/-- Their statements. -/
def BulkCall.inserts : BulkCall → List Insert
  | profile reads includeTentative limit db => profileInserts reads includeTentative limit db
  | receipts lib args weather s => receiptsInserts lib args weather s
  | flush raw buffers => flushInserts raw buffers
  | blockChunk abiHash prepared dead => blockChunkInserts abiHash prepared dead

/-! ## The conditions -/

/-- A `NewRound` at which a walk knows a round: its own, an earlier one of the walk, or the one
from before the walk. -/
def RoundKnown (before : List RawEvent) (e : RawEvent) (first : Option ℤ) : Prop :=
  (extractRound e).isSome ∨
    (∃ e' ∈ before, e'.eventName = .NewRound ∧ (extractRound e').isSome) ∨ first.isSome

/-- At most 4681 orchestrators are known at each `NewRound` of a run at which a round is known. -/
def SnapshotsFit (reads : OrchReads) (includeTentative : Bool) (limit : ℕ) (db : Db) : Prop :=
  ∀ before e after, profileBatch includeTentative limit db = before ++ e :: after →
    e.eventName = .NewRound →
    RoundKnown before e (loadCurrentRoundBefore (db.loadCheckpoint .stakerOrchProfile) db) →
      (knownFirst includeTentative limit db ∪ learned reads before).card ≤ 4681

/-- Some receipt cannot be read, or at most 5957 transactions of the batch have one. -/
def ReceiptsFit (lib : ReceiptLibrary) (args : ReceiptArgs) (weather : ReceiptWeather)
    (s : ReceiptState) : Prop :=
  (∃ c ∈ loadCandidates args s, ∃ err, fetchReceiptRow lib weather s.rpcCallCache c = .error err) ∨
    ((loadCandidates args s).filter fun c =>
      decide (fetchReceiptRow lib weather s.rpcCallCache c ≠ .ok none)).length ≤ 5957

/-- The calls whose statements stay within the limit. -/
def BulkCall.Fits : BulkCall → Prop
  | profile reads includeTentative limit db => SnapshotsFit reads includeTentative limit db
  | receipts lib args weather s => ReceiptsFit lib args weather s
  | flush _ _ => True
  | blockChunk _ _ _ => True

/-! ## Snapshots -/

section Snapshots

variable (reads : OrchReads)

theorem length_readSnapshots (s : ProfileWalk) (e : RawEvent) :
    (readSnapshots reads s e).length = s.knownOrchs.card := by
  have same : (sortKeys s.knownOrchs).toFinset = s.knownOrchs := by
    ext orch
    rw [List.mem_toFinset, mem_sortKeys]
  rw [readSnapshots, List.length_map, ← List.toFinset_card_of_nodup (nodup_sortKeys _), same]

/-- The statement of one `NewRound`. -/
theorem orchStakeByRoundInserts_within_iff {candidate : RawEvent} {currentRound : Option ℤ}
    {snapshots : List (Address × OrchestratorSnapshot)} :
    (∀ insert ∈ orchStakeByRoundInserts candidate currentRound snapshots,
        insert.length ≤ bindLimit) ↔ (currentRound.isSome → snapshots.length ≤ 4681) := by
  unfold orchStakeByRoundInserts
  split
  · next none =>
      rw [List.isEmpty_iff.mp none]
      exact iff_of_true (fun _ member => absurd member List.not_mem_nil) fun _ => Nat.zero_le _
  · cases currentRound with
    | none => exact iff_of_true (fun _ member => absurd member List.not_mem_nil) nofun
    | some round =>
        have wide : ∀ row, (orchStakeColumns candidate round row).length = 14 := fun _ => rfl
        rw [List.forall_mem_singleton, length_boundBy_le_iff wide (by decide)]
        simp [bindLimit]

/-- A property of each place of a list, of its head and of the places after. -/
theorem forall_split_cons {α : Type} {head : α} {rest : List α} {holds : List α → α → Prop} :
    (∀ before e after, head :: rest = before ++ e :: after → holds before e) ↔
      holds [] head ∧
        ∀ before e after, rest = before ++ e :: after → holds (head :: before) e := by
  constructor
  · intro all
    exact ⟨all [] head rest rfl, fun before e after split =>
      all (head :: before) e after (by rw [split, List.cons_append])⟩
  · rintro ⟨here, later⟩ before e after split
    rcases List.cons_eq_append_iff.mp split with ⟨rfl, same⟩ | ⟨before', rfl, same⟩
    · cases same
      exact here
    · exact later before' e after same

/-- What a walk knows of rounds after its first event. -/
theorem roundKnown_cons (s : ProfileWalk) (head : RawEvent) {e : RawEvent}
    {before : List RawEvent} :
    RoundKnown (head :: before) e s.currentRound ↔
      RoundKnown before e (profileStep reads s head).currentRound := by
  unfold RoundKnown profileStep
  rw [List.exists_mem_cons_iff]
  split
  · next newRound =>
      simp only [newRound, true_and, Option.isSome_or, Bool.or_eq_true]
      exact or_congr_right (by rw [or_assoc, or_left_comm])
  · next other =>
      simp only [other, false_and, false_or]

/-- The statements of a walk, from what is known along it. -/
theorem walkInserts_within_iff (s : ProfileWalk) (walked : List RawEvent) :
    (∀ insert ∈ walkInserts reads s walked, insert.length ≤ bindLimit) ↔
      ∀ before e after, walked = before ++ e :: after → e.eventName = .NewRound →
        RoundKnown before e s.currentRound → (s.knownOrchs ∪ learned reads before).card ≤ 4681 := by
  induction walked generalizing s with
  | nil =>
      refine iff_of_true (fun _ member => absurd member List.not_mem_nil) ?_
      intro before e after split
      exact absurd split (by simp)
  | cons head rest inductionHypothesis =>
      have here : (∀ insert ∈ (if head.eventName = .NewRound then
            orchStakeByRoundInserts head ((extractRound head).or s.currentRound)
              (readSnapshots reads s head) else []), insert.length ≤ bindLimit) ↔
          (head.eventName = .NewRound → RoundKnown [] head s.currentRound →
            (s.knownOrchs ∪ learned reads []).card ≤ 4681) := by
        have nothing : s.knownOrchs ∪ learned reads [] = s.knownOrchs := Finset.union_empty _
        rw [nothing]
        split
        · next newRound =>
            rw [orchStakeByRoundInserts_within_iff, length_readSnapshots]
            simp [newRound, RoundKnown]
        · next other => simp [other]
      rw [walkInserts, List.forall_mem_append, here, inductionHypothesis, forall_split_cons]
      refine and_congr_right fun _ => ?_
      simp only [knownOrchs_profileStep_union, ← roundKnown_cons reads s head]

end Snapshots

/-! ## Receipts -/

section Receipts

variable {lib : ReceiptLibrary} {args : ReceiptArgs} {weather : ReceiptWeather} {s : ReceiptState}

/-- The rows of a list of fetches are as many as the receipts that are not `null`. -/
theorem length_reduceOption_of_mapM {f : ReceiptCandidate → Except String (Option ReceiptRow)}
    {candidates : List ReceiptCandidate} {receipts : List (Option ReceiptRow)}
    (fetched : candidates.mapM f = .ok receipts) :
    receipts.reduceOption.length = (candidates.filter fun c => decide (f c ≠ .ok none)).length := by
  induction candidates generalizing receipts with
  | nil =>
      cases fetched
      rfl
  | cons c rest inductionHypothesis =>
      rw [List.mapM_cons] at fetched
      obtain ⟨receipt, own, fetched⟩ := bind_eq_ok.mp fetched
      obtain ⟨later, others, fetched⟩ := bind_eq_ok.mp fetched
      cases pure_eq_ok.mp fetched
      have same := inductionHypothesis others
      cases receipt with
      | none => rw [List.reduceOption_cons_of_none, same, List.filter_cons_of_neg (by simp [own])]
      | some row =>
          rw [List.reduceOption_cons_of_some, List.length_cons, same,
            List.filter_cons_of_pos (by simp [own]), List.length_cons]

/-- The statement of a batch of receipts. -/
theorem receiptsInserts_within_iff :
    (∀ insert ∈ receiptsInserts lib args weather s, insert.length ≤ bindLimit) ↔
      ReceiptsFit lib args weather s := by
  unfold receiptsInserts fetchAll ReceiptsFit
  cases fetched : (loadCandidates args s).mapM (fetchReceiptRow lib weather s.rpcCallCache) with
  | error err =>
      obtain ⟨c, listed, failed⟩ := exists_of_mapM_error fetched
      exact iff_of_true (fun _ member => absurd member List.not_mem_nil)
        (Or.inl ⟨c, listed, err, failed⟩)
  | ok receipts =>
      have succeeds : ¬ ∃ c ∈ loadCandidates args s, ∃ err,
          fetchReceiptRow lib weather s.rpcCallCache c = .error err := by
        rintro ⟨c, listed, err, failed⟩
        obtain ⟨receipt, _, read⟩ := (mem_of_mapM_ok fetched).1 c listed
        rw [failed] at read
        cases read
      rw [or_iff_right succeeds, ← length_reduceOption_of_mapM fetched]
      simp only [txReceiptsInserts]
      split
      · next none =>
          rw [List.isEmpty_iff.mp none]
          exact iff_of_true (fun _ member => absurd member List.not_mem_nil) (Nat.zero_le _)
      · have wide : ∀ r, (receiptColumns r).length = 11 := fun _ => rfl
        rw [List.forall_mem_singleton, length_boundBy_le_iff wide (by decide)]
        exact Iff.rfl

/-- A limit of at most 5957 transactions is small enough. -/
theorem receiptsFit_of_batchLimit (small : args.batchLimit ≤ 5957) :
    ReceiptsFit lib args weather s :=
  Or.inr ((List.length_filter_le _ _).trans ((List.length_take_le _ _).trans small))

end Receipts

/-! ## All writers -/

theorem flushInserts_within (raw : PriceRow → Option String) (buffers : BulkBuffers) :
    ∀ insert ∈ flushInserts raw buffers, insert.length ≤ bindLimit := by
  have positive : 0 < flushThreshold := by decide
  have valuations : ∀ r, (valuationColumns r).length = 12 := fun _ => rfl
  have prices : ∀ r, (priceColumns raw r).length = 11 := fun _ => rfl
  have attempts : ∀ r, (attemptColumns r).length = 5 := fun _ => rfl
  intro insert member
  rcases List.mem_append.mp member with member | member
  · rcases List.mem_append.mp member with member | member
    · exact length_le_of_mem_chunked valuations positive (by decide) member
    · exact length_le_of_mem_chunked prices positive (by decide) member
  · exact length_le_of_mem_chunked attempts positive (by decide) member

theorem blockChunkInserts_within (abiHash : String) (prepared : List Wire.PreparedRow)
    (dead : List Wire.DeadLetterRow) :
    ∀ insert ∈ blockChunkInserts abiHash prepared dead, insert.length ≤ bindLimit := by
  have positive : 0 < batchInsertSize := by decide
  have events : ∀ row, (eventColumns abiHash row).length = 20 := fun _ => rfl
  have deadLetters : ∀ row, (deadLetterColumns row).length = 10 := fun _ => rfl
  intro insert member
  rcases List.mem_append.mp member with member | member
  · exact length_le_of_mem_chunked events positive (by decide) member
  · exact length_le_of_mem_chunked deadLetters positive (by decide) member

/-- **The statements of a call stay within the limit exactly if it does not insert too many
snapshots of one round, or too many receipts.** -/
theorem inserts_within_iff (call : BulkCall) :
    (∀ insert ∈ call.inserts, insert.length ≤ bindLimit) ↔ call.Fits := by
  cases call with
  | profile reads includeTentative limit db => exact walkInserts_within_iff reads _ _
  | receipts lib args weather s => exact receiptsInserts_within_iff
  | flush raw buffers => exact iff_of_true (flushInserts_within raw buffers) trivial
  | blockChunk abiHash prepared dead =>
      exact iff_of_true (blockChunkInserts_within abiHash prepared dead) trivial

/-! ## A long batch -/

/-- One bond in each block. -/
def bondIn (block : ℕ) : RawEvent := (Receipts.bondOf (toString block) block).stored block

/-- As many transactions without a row. -/
def bonds (n : ℕ) : ReceiptState := ⟨(List.range n).map bondIn, ∅, ∅, none⟩

/-- `--include-tentative --batch-limit 6000`. -/
def longArgs : ReceiptArgs := ⟨true, 6000, by decide⟩

/-- All of them are selected, up to the limit. -/
theorem length_loadCandidates_bonds {n : ℕ} (short : n ≤ longArgs.batchLimit) :
    (loadCandidates longArgs (bonds n)).length = n := by
  have selected : ((bonds n).rawProtocolEvents.filter fun e => longArgs.selects e &&
      decide ((bonds n).floor ≤ e.blockNumber) && decide (e.txHash ∉ (bonds n).txReceipts)) =
        (List.range n).map bondIn := by
    refine List.filter_eq_self.mpr fun e member => ?_
    obtain ⟨block, _, rfl⟩ := List.mem_map.mp member
    have above : (0 : ℤ) ≤ block := Int.natCast_nonneg block
    simp [bonds, bondIn, ReceiptState.floor, ReceiptArgs.selects, longArgs, PreparedRow.stored,
      Receipts.bondOf, above, Finmap.notMem_empty]
  have distinct : ((List.range n).map (candidateOf ∘ bondIn)).Nodup := by
    refine (List.nodup_map_iff fun a b same => ?_).mpr List.nodup_range
    exact Int.ofNat_inj.mp (congrArg ReceiptCandidate.blockNumber same)
  rw [loadCandidates, selected, List.map_map, distinct.dedup,
    (orderedBatch_perm_of_short (by simpa using short)).length_eq, List.length_map,
    List.length_range]

/-- More than 5957 of them are too many. -/
theorem not_receiptsFit_bonds {n : ℕ} (long : 5957 < n) (short : n ≤ longArgs.batchLimit) :
    ¬ ReceiptsFit Receipts.plainLibrary longArgs Receipts.plainServing.weather (bonds n) := by
  have fetched : ∀ c, ∃ row, fetchReceiptRow Receipts.plainLibrary Receipts.plainServing.weather
      (bonds n).rpcCallCache c = .ok (some row) := by
    intro c
    obtain ⟨row, read, _⟩ := Receipts.fetchReceiptRow_of_recoverable (s := bonds n)
      Receipts.plainServing (c := c) fun _ cached => nomatch cached
    exact ⟨row, read⟩
  rintro (⟨c, _, err, failed⟩ | few)
  · obtain ⟨row, read⟩ := fetched c
    rw [read] at failed
    cases failed
  · have all : ((loadCandidates longArgs (bonds n)).filter fun c =>
        decide (fetchReceiptRow Receipts.plainLibrary Receipts.plainServing.weather
          (bonds n).rpcCallCache c ≠ .ok none)) = loadCandidates longArgs (bonds n) := by
      refine List.filter_eq_self.mpr fun c _ => ?_
      obtain ⟨row, read⟩ := fetched c
      rw [read]
      rfl
    rw [all, length_loadCandidates_bonds short] at few
    exact absurd few (not_le_of_gt long)

/-- A batch of 5958 receipts binds more parameters than a statement can. -/
theorem longBatch_exceeds : ¬ ∀ (call : BulkCall), ∀ insert ∈ call.inserts,
    insert.length ≤ bindLimit := by
  intro claim
  have fits : ∀ n, ReceiptsFit Receipts.plainLibrary longArgs Receipts.plainServing.weather
      (bonds n) := fun n => receiptsInserts_within_iff.mp (claim (.receipts _ _ _ (bonds n)))
  exact not_receiptsFit_bonds (by decide) (by decide) (fits 5958)

end ProtocolExplorer.Writers
