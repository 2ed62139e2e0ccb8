import ProtocolExplorer.Indexer.InsertEvents
import ProtocolExplorer.Lib.OrderedBatch

/-!
# Backfilling a chunk of blocks

`backfill_chunk` fetches one contract's logs of a block range and the timestamps of their
blocks, both through `rpc_call_cache`, decodes them and commits the rows together with the
contract's checkpoint.  A cached answer is never fetched again, also when the chain has
changed since.  A failed chunk writes nothing but its cached answers.

A block is identified by its hash: `blocks` is what each hash stands for, and a chain is a
list of hashes, the genesis first.

* `mem_chainLogs` — the logs of a chain;
* `resumeFrom_le` — the next chunk starts right above the checkpoint;
* `backfillChunk_commits` — what a chunk commits.
-/

set_option autoImplicit false

namespace ProtocolExplorer.Indexer

open ProtocolExplorer.Lib
open ProtocolExplorer.Store

/-! ## Blocks and logs -/

/-- What `decode_one` reads off the topics and data of a log. -/
@[ext]
structure LogFields where
  eventName : EventName
  asset : Option Asset
  amountNormalized : Option Numeric
  isValuable : Bool
  fromAddress : Option Address
  toAddress : Option Address
  decoded : Decoded
  amount_of_asset : asset.isSome → amountNormalized.isSome

instance : DecidableEq LogFields := fun _ _ => decidable_of_iff _ LogFields.ext_iff.symm

/-- A log of an indexed contract. -/
structure ChainLog where
  contractName : ContractKind
  txHash : TxHash
  logIndex : ℕ
  /-- `is_strict_event` of its first topic. -/
  isStrict : Bool
  /-- `none` when decoding fails. -/
  fields : Option LogFields
  deriving DecidableEq

/-- What a block hash stands for; the timestamp is in seconds. -/
structure Block where
  timestamp : ℤ
  logs : List ChainLog

/-- A log as `eth_getLogs` answers it. -/
structure RawLog where
  blockNumber : ℕ
  blockHash : BlockHash
  log : ChainLog
  deriving DecidableEq

/-- The unique key of a log. -/
def RawLog.key (raw : RawLog) : TxHash × ℕ := (raw.log.txHash, raw.log.logIndex)

/-- `decode_one`, given the instant of the block. -/
def RawLog.decodeOne (raw : RawLog) (blockTimestamp : Timestamp) : Option PreparedRow :=
  raw.log.fields.map fun fields =>
    { txHash := raw.log.txHash
      logIndex := raw.log.logIndex
      blockNumber := raw.blockNumber
      blockHash := raw.blockHash
      blockTimestamp
      contractName := raw.log.contractName
      eventName := fields.eventName
      asset := fields.asset
      amountNormalized := fields.amountNormalized
      isValuable := fields.isValuable
      fromAddress := fields.fromAddress
      toAddress := fields.toAddress
      decoded := fields.decoded
      amount_of_asset := fields.amount_of_asset }

/-- A row is the row of a log, whatever timestamp its block was given. -/
def IsRowOf (row : PreparedRow) (raw : RawLog) : Prop :=
  raw.decodeOne row.blockTimestamp = some row

instance (row : PreparedRow) (raw : RawLog) : Decidable (IsRowOf row raw) :=
  inferInstanceAs (Decidable (_ = _))

theorem RawLog.isRowOf_of_decodeOne {raw : RawLog} {blockTimestamp : Timestamp}
    {row : PreparedRow} (decoded : raw.decodeOne blockTimestamp = some row) : IsRowOf row raw := by
  obtain ⟨fields, _, rfl⟩ := Option.map_eq_some_iff.mp decoded
  exact decoded

section OfRow

variable {row : PreparedRow} {raw : RawLog}

theorem IsRowOf.blockNumber_eq (own : IsRowOf row raw) : row.blockNumber = raw.blockNumber := by
  obtain ⟨fields, _, same⟩ := Option.map_eq_some_iff.mp own
  rw [← same]

theorem IsRowOf.blockHash_eq (own : IsRowOf row raw) : row.blockHash = raw.blockHash := by
  obtain ⟨fields, _, same⟩ := Option.map_eq_some_iff.mp own
  rw [← same]

theorem IsRowOf.key_eq (own : IsRowOf row raw) : preparedKey row = raw.key := by
  obtain ⟨fields, _, same⟩ := Option.map_eq_some_iff.mp own
  rw [← same]
  rfl

end OfRow

variable (blocks : BlockHash → Block)

/-- The logs of a chain. -/
def chainLogs (chain : List BlockHash) : List RawLog :=
  chain.zipIdx.flatMap fun (hash, number) =>
    (blocks hash).logs.map fun log => ⟨number, hash, log⟩

theorem mem_chainLogs {blocks : BlockHash → Block} {chain : List BlockHash} {raw : RawLog} :
    raw ∈ chainLogs blocks chain ↔
      chain[raw.blockNumber]? = some raw.blockHash ∧ raw.log ∈ (blocks raw.blockHash).logs := by
  obtain ⟨number, hash, log⟩ := raw
  simp only [chainLogs, List.mem_flatMap, List.mem_map, Prod.exists, List.mem_zipIdx_iff_getElem?]
  constructor
  · rintro ⟨hash', number', placed, log', inBlock, same⟩
    cases same
    exact ⟨placed, inBlock⟩
  · rintro ⟨placed, inBlock⟩
    exact ⟨hash, number, placed, log, inBlock, rfl⟩

/-! ## Cached calls -/

/-- The answers in `rpc_call_cache` that a chunk asks for. -/
structure RpcCache where
  logs : Table (ContractKind × ℕ × ℕ) (List RawLog)
  timestamps : Table ℕ ℤ

def RpcCache.empty : RpcCache := ⟨∅, ∅⟩

/-- The provider's answer to `eth_getLogs`. -/
def getLogs (chain : List BlockHash) (contract : ContractKind) (fromBlock toBlock : ℕ) :
    List RawLog :=
  (chainLogs blocks chain).filter fun raw => decide (raw.log.contractName = contract ∧
    fromBlock ≤ raw.blockNumber ∧ raw.blockNumber ≤ toBlock)

/-- The cached answer, or the provider's. -/
def fetchLogs (chain : List BlockHash) (cache : RpcCache) (contract : ContractKind)
    (fromBlock toBlock : ℕ) : List RawLog :=
  (cache.logs.lookup (contract, fromBlock, toBlock)).getD
    (getLogs blocks chain contract fromBlock toBlock)

/-- `fetch_block_timestamps`, in the order given: every answer is cached, and a block the
provider does not have ends the fetch. -/
def fetchBlockTimestamps (chain : List BlockHash) : List ℕ → RpcCache → RpcCache × Bool
  | [], cache => (cache, true)
  | number :: rest, cache =>
      match cache.timestamps.lookup number <|> chain[number]?.map fun hash => (blocks hash).timestamp
      with
      | none => (cache, false)
      | some timestamp =>
          fetchBlockTimestamps chain rest
            { cache with timestamps := Table.insertNew cache.timestamps number timestamp }

/-- The blocks of some logs, ascending. -/
def blockNumbers (logs : List RawLog) : List ℕ :=
  orderBy id (logs.map RawLog.blockNumber).dedup

/-- Decode with the cached timestamp of the block. -/
def RpcCache.decode (cache : RpcCache) (raw : RawLog) : Option PreparedRow :=
  (cache.timestamps.lookup raw.blockNumber).bind fun seconds =>
    raw.decodeOne (toTimestamp seconds)

/-! ## A chunk -/

/-- Rows with consecutive ids. -/
def numbered (firstId : ℤ) (rows : List PreparedRow) : NumberedRows :=
  rows.zipIdx.map fun (row, index) => (firstId + index, row)

theorem mem_numbered (firstId : ℤ) {rows : List PreparedRow} {row : PreparedRow} :
    (∃ id, (id, row) ∈ numbered firstId rows) ↔ row ∈ rows := by
  simp only [numbered, List.mem_map, Prod.exists, Prod.mk.injEq, List.mem_zipIdx_iff_getElem?]
  rw [List.mem_iff_getElem?]
  constructor
  · rintro ⟨id, row', index, placed, _, rfl⟩
    exact ⟨index, placed⟩
  · rintro ⟨index, placed⟩
    exact ⟨_, row, index, placed, rfl, rfl⟩

/-- `resume_from`. -/
def resumeFrom (requestedFrom : ℕ) (checkpoint : Option ℤ) : ℕ :=
  match checkpoint with
  | some cp => if requestedFrom ≤ cp.toNat then cp.toNat + 1 else requestedFrom
  | none => requestedFrom

/-- The next chunk starts right above the checkpoint. -/
theorem resumeFrom_le {requestedFrom number : ℕ} {checkpoint : Option ℤ}
    (requested : requestedFrom ≤ number) (above : ∀ cp ∈ checkpoint, 0 ≤ cp ∧ cp < number) :
    resumeFrom requestedFrom checkpoint ≤ number := by
  unfold resumeFrom
  cases checkpoint with
  | none => exact requested
  | some cp =>
      have past := above cp rfl
      show (if requestedFrom ≤ cp.toNat then cp.toNat + 1 else requestedFrom) ≤ number
      split <;> omega

/-- The checkpoint of the daemon's indexer. -/
abbrev indexerCheckpoint (contract : ContractKind) : CheckpointName := .indexer contract ""

/-- The transaction of a chunk: its rows and its checkpoint. -/
def commitChunk (contract : ContractKind) (firstId : ℤ) (chunkEnd : ℕ) (prepared : List PreparedRow)
    (db : Db) : Db :=
  let stored := { db with
    rawProtocolEvents := insertEvents (numbered firstId prepared) db.rawProtocolEvents }
  stored.advanceCheckpoint (indexerCheckpoint contract) chunkEnd

/-- `backfill_chunk`: the cache afterwards, and the database if the chunk commits. -/
def backfillChunk (chain : List BlockHash) (contract : ContractKind) (firstId : ℤ)
    (chunkStart chunkEnd : ℕ) (cache : RpcCache) (db : Db) : RpcCache × Option Db :=
  let rawLogs := fetchLogs blocks chain cache contract chunkStart chunkEnd
  let cache := { cache with
    logs := Table.insertNew cache.logs (contract, chunkStart, chunkEnd) rawLogs }
  if rawLogs.isEmpty then
    (cache, some (db.advanceCheckpoint (indexerCheckpoint contract) chunkEnd))
  else
    let (cache, answered) := fetchBlockTimestamps blocks chain (blockNumbers rawLogs) cache
    if !answered || rawLogs.any fun raw => raw.log.isStrict && (cache.decode raw).isNone then
      (cache, none)
    else
      (cache, some (commitChunk contract firstId chunkEnd (rawLogs.filterMap cache.decode) db))

/-- The cache after a chunk whose calls fail once the logs and some timestamps are there. -/
def failedChunk (chain : List BlockHash) (contract : ContractKind) (headers chunkStart chunkEnd : ℕ)
    (cache : RpcCache) : RpcCache :=
  let rawLogs := fetchLogs blocks chain cache contract chunkStart chunkEnd
  (fetchBlockTimestamps blocks chain ((blockNumbers rawLogs).take headers)
    { cache with
      logs := Table.insertNew cache.logs (contract, chunkStart, chunkEnd) rawLogs }).1

/-! ## What a chunk commits -/

section Commit

variable {blocks} {chain : List BlockHash} {contract : ContractKind} {firstId : ℤ}
  {chunkStart chunkEnd : ℕ} {cache : RpcCache} {db db' : Db}

@[simp] theorem commitChunk_rawProtocolEvents (prepared : List PreparedRow) :
    (commitChunk contract firstId chunkEnd prepared db).rawProtocolEvents =
      insertEvents (numbered firstId prepared) db.rawProtocolEvents := rfl

theorem loadCheckpoint_commitChunk (prepared : List PreparedRow) (name : CheckpointName) :
    (commitChunk contract firstId chunkEnd prepared db).loadCheckpoint name =
      if name = indexerCheckpoint contract then
        some ((db.loadCheckpoint (indexerCheckpoint contract)).elim (chunkEnd : ℤ)
          fun previous => max previous chunkEnd)
      else db.loadCheckpoint name :=
  Db.loadCheckpoint_advanceCheckpoint ..

/-- A commit moves one checkpoint, to the end of the chunk. -/
theorem checkpoint_commitChunk_cases {prepared : List PreparedRow} {other : ContractKind} {cp : ℤ}
    (loaded : cp ∈ (commitChunk contract firstId chunkEnd prepared db).loadCheckpoint
      (indexerCheckpoint other)) :
    cp ∈ db.loadCheckpoint (indexerCheckpoint other) ∨ other = contract ∧ cp = chunkEnd := by
  rw [loadCheckpoint_commitChunk] at loaded
  split at loaded
  · next same =>
      cases same
      cases loaded
      cases earlier : db.loadCheckpoint (indexerCheckpoint contract) with
      | none => exact Or.inr ⟨rfl, rfl⟩
      | some previous =>
          rcases max_choice previous (chunkEnd : ℤ) with kept | moved
          · exact Or.inl (congrArg some kept.symm)
          · exact Or.inr ⟨rfl, moved⟩
  · exact Or.inl loaded

/-- Answered timestamps are in the cache. -/
theorem isSome_lookup_fetchBlockTimestamps {numbers : List ℕ} {number : ℕ}
    (wanted : number ∈ numbers ∨ (cache.timestamps.lookup number).isSome)
    (answered : (fetchBlockTimestamps blocks chain numbers cache).2 = true) :
    ((fetchBlockTimestamps blocks chain numbers cache).1.timestamps.lookup number).isSome := by
  induction numbers generalizing cache with
  | nil => exact wanted.resolve_left List.not_mem_nil
  | cons head rest inductionHypothesis =>
      cases found : cache.timestamps.lookup head <|>
          chain[head]?.map fun hash => (blocks hash).timestamp with
      | none => simp [fetchBlockTimestamps, found] at answered
      | some timestamp =>
          simp only [fetchBlockTimestamps, found] at answered ⊢
          refine inductionHypothesis ?_ answered
          rw [Table.insertNew, Table.lookup_upsert]
          rcases wanted with listed | cached
          · rcases List.mem_cons.mp listed with rfl | later
            · simp
            · exact Or.inl later
          · refine Or.inr ?_
            split
            · rfl
            · exact cached

/-- A decoded row belongs to its log. -/
theorem RpcCache.isRowOf_of_decode {raw : RawLog} {row : PreparedRow}
    (decoded : cache.decode raw = some row) : IsRowOf row raw := by
  obtain ⟨seconds, _, own⟩ := Option.bind_eq_some_iff.mp decoded
  exact raw.isRowOf_of_decodeOne own

/-- **A chunk that commits stores rows of its logs, one for each log that decodes, and moves
the checkpoint to its end.** -/
theorem backfillChunk_commits (committed : (backfillChunk blocks chain contract firstId chunkStart
      chunkEnd cache db).2 = some db') :
    ∃ prepared : List PreparedRow, db' = commitChunk contract firstId chunkEnd prepared db ∧
      (∀ row ∈ prepared, ∃ raw ∈ fetchLogs blocks chain cache contract chunkStart chunkEnd,
        IsRowOf row raw) ∧
      ∀ raw ∈ fetchLogs blocks chain cache contract chunkStart chunkEnd,
        raw.log.fields.isSome → ∃ row ∈ prepared, IsRowOf row raw := by
  unfold backfillChunk at committed
  generalize fetchLogs blocks chain cache contract chunkStart chunkEnd = rawLogs at committed ⊢
  generalize RpcCache.mk _ _ = logsCached at committed
  cases empty : rawLogs.isEmpty with
  | true =>
      rw [List.isEmpty_iff] at empty
      subst empty
      simp only [List.isEmpty_nil, if_true, Option.some.injEq] at committed
      exact ⟨[], committed.symm, by simp, by simp⟩
  | false =>
      simp only [empty, Bool.false_eq_true, if_false] at committed
      split at committed
      · cases committed
      · next passes =>
          cases committed
          rw [Bool.or_eq_true, not_or, Bool.not_eq_true', Bool.not_eq_false] at passes
          refine ⟨_, rfl, fun row listed => ?_, fun raw fetched decodes => ?_⟩
          · obtain ⟨raw, fetched, decoded⟩ := List.mem_filterMap.mp listed
            exact ⟨raw, fetched, RpcCache.isRowOf_of_decode decoded⟩
          · have listed : raw.blockNumber ∈ blockNumbers rawLogs := by
              rw [blockNumbers, mem_orderBy, List.mem_dedup]
              exact List.mem_map_of_mem fetched
            obtain ⟨seconds, cached⟩ := Option.isSome_iff_exists.mp
              (isSome_lookup_fetchBlockTimestamps (Or.inl listed) passes.1)
            obtain ⟨fields, carried⟩ := Option.isSome_iff_exists.mp decodes
            obtain ⟨row, decoded⟩ : ∃ row, raw.decodeOne (toTimestamp seconds) = some row :=
              ⟨_, Option.map_eq_some_iff.mpr ⟨fields, carried, rfl⟩⟩
            refine ⟨row, List.mem_filterMap.mpr ⟨raw, fetched, ?_⟩, raw.isRowOf_of_decodeOne decoded⟩
            rw [RpcCache.decode, cached]
            exact decoded

end Commit

end ProtocolExplorer.Indexer
