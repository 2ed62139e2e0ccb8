import ProtocolExplorer.Gateway.Directory
import ProtocolExplorer.Indexer.ReplayCache
import ProtocolExplorer.Rollups.Writers
import ProtocolExplorer.Seed.CrossCheck
import ProtocolExplorer.Staker.Pending
import ProtocolExplorer.Staker.Profile
import ProtocolExplorer.Staker.TxReceipts
import ProtocolExplorer.Valuator.Columns
import ProtocolExplorer.Valuator.SeedPass

/-!
# The replay

`replay::run` truncates the derived tables and rebuilds them pass by pass: indexer, finality,
valuator, staker, rollups, views.  Unless the raw events are kept it also deletes the checkpoints,
all but the two recorded timestamps of the finality pass.

Calls are answered from `rpc_call_cache`; with `--allow-live-rpc` a provider stands behind it.

* `noSeedCandidates_drainSeeds` — the batches of the seed pass leave no candidate;
* `run_ok` — **the stages of a replay that returns**.
-/

set_option autoImplicit false

namespace ProtocolExplorer.Orchestrator

open ProtocolExplorer.Lib
open ProtocolExplorer.Store
open ProtocolExplorer.Staker
open ProtocolExplorer.Valuator
open ProtocolExplorer.Rollups
open ProtocolExplorer.Indexer
open ProtocolExplorer.Seed (SeedEvent TextLibrary MapOrder runCrossCheck)

/-! ## Surroundings -/

/-- What `rpc_call_cache` answers to the passes. -/
structure CachedAnswers where
  logs : Wire.RpcCache
  pricing : RawEvent → ArchiveReads
  bonding : BondingReads
  orchestrators : OrchReads
  /-- `eth_getTransactionReceipt`. -/
  receipts : Table TxHash (Option Receipt)

/-- The SQLite source: its priced rows, and the events that are checked against. -/
structure SeedSource where
  rows : List SourceRow
  events : List SeedEvent

/-- `Runtime`: the configuration, and the surroundings of a run. -/
structure Runtime where
  decoder : Wire.Decoder
  /-- The address and the ABI of a contract. -/
  job : ContractKind → Wire.BackfillJob
  livepeerArbitrumGenesisBlock : ℕ
  defaultValuationVersion : Version
  decimals : DecimalLibrary
  feeds : PriceFeeds
  texts : TextLibrary
  sourceSqlite : Option SeedSource
  /-- The provider, and what the cached answers become with it. -/
  archive : Wire.Archive
  live : CachedAnswers → CachedAnswers
  /-- The timestamps of the latest and the last finalized L1 block. -/
  l1 : Option (ℤ × ℤ)
  now : Timestamp
  /-- The ids that the transactions of a contract's chunks draw. -/
  ids : ContractKind → ℕ → ℕ → ℤ
  /-- An inserted row as the passes read it, its payload being JSON. -/
  columns : Wire.StoredRow → RawEvent
  /-- The order in which priced candidates are joined. -/
  joined : PassName → List RawEvent → List RawEvent
  joined_perm : ∀ pass candidates, (joined pass candidates).Perm candidates
  mapOrder : MapOrder

structure ReplayOpts where
  fromBlock : Option ℕ
  toBlock : Option ℕ
  version : Option Version
  includeTentative : Bool
  keepRawEvents : Bool
  allowLiveRpc : Bool
  skipSeedImport : Bool
  skipCrossCheck : Bool

/-- The tables a replay reads or writes. -/
structure ReplayDb extends Db where
  rpcCallCache : CachedAnswers
  seededEventPrices : List SeededPrice
  decodeFailures : Table (TxHash × ℤ) Wire.DeadLetterRow
  txReceipts : Table TxHash ReceiptRow
  /-- The checkpoint `tx_receipts_backfill`. -/
  txReceiptsCheckpoint : Option ℤ
  broadcasterProfile : Finset Address

/-! ## Reset -/

/-- The checkpoints that are kept when the raw events are not. -/
def isReplayInput : CheckpointName → Bool
  | .replayFinalityLatestL1Ts => true
  | .replayFinalityFinalizedL1Ts => true
  | _ => false

/-- `DELETE FROM indexer_checkpoints WHERE name NOT IN …`. -/
def deleteCheckpoints (checkpoints : Table CheckpointName ℤ) : Table CheckpointName ℤ :=
  Table.rewriteKeys checkpoints.lookup (checkpoints.keys.filter fun name => isReplayInput name) ∅

/-- `REBUILDABLE_DERIVED_TABLES`. -/
def truncateDerived (s : ReplayDb) : ReplayDb :=
  { s with
    eventValuations := ∅
    valuationAttempts := ∅
    tokenPricesByBlock := ∅
    valuatorCursors := ∅
    stakeBalancesByBlock := ∅
    delegatorRegistry := ∅
    gatewayBalancesByBlock := ∅
    gatewayFlows := ∅
    gatewayClaimantsByBlock := ∅
    orchStakeByRound := ∅
    txReceipts := ∅
    orchPayoutsDaily := ∅
    orchRewardsDaily := ∅
    ticketsDaily := ∅
    eventMetricsDaily := ∅
    reorgEvents := []
    reorgMutations := [] }

/-- `truncate_for_replay`. -/
def truncateForReplay (keepRawEvents : Bool) (s : ReplayDb) : ReplayDb :=
  let truncated := truncateDerived s
  if keepRawEvents then truncated
  else
    { truncated with
      rawProtocolEvents := []
      decodeFailures := ∅
      indexerCheckpoints := deleteCheckpoints s.indexerCheckpoints
      txReceiptsCheckpoint := none }

/-- `refresh_derived_matviews`. -/
def refreshDerivedMatviews (s : ReplayDb) : ReplayDb :=
  { s with
    toDb := refreshOrchestratorProfile s.toDb
    broadcasterProfile := Gateway.broadcasterProfile s.toDb }

/-! ## The seed pass -/

section SeedPass

variable (version : Version) (includeTentative : Bool) (seeds : List SeededPrice)

/-- The loop over the batches.  It ends when a batch has inserted nothing; a batch more would
change nothing, and every other one values a row of the join. -/
def drainSeeds (db : Db) : Db :=
  (fun db => (insertSeedBatch version includeTentative seeds db).2)^[
    (seedJoin version includeTentative seeds db).length + 1] db

/-- `run_seed_pass`. -/
def runSeedPass (now : Timestamp) (db : Db) : Db :=
  let count : ℤ := seeds.length
  let marker := (db.valuatorCursors.lookup (version, .SEED)).bind Cursor.seedMaxId
  if !includeTentative && hasValuations version db && decide (marker = some count) then db
  else
    let valued :=
      if hasSeedCandidates version includeTentative seeds db then
        drainSeeds version includeTentative seeds db
      else db
    if includeTentative then valued else recordSeedMarker now version count valued

variable {version includeTentative seeds}

/-- After a batch the join has lost what is valued by then. -/
theorem seedJoin_insertSeedBatch (db : Db) :
    seedJoin version includeTentative seeds
        (insertSeedBatch version includeTentative seeds db).2 =
      (seedJoin version includeTentative seeds db).filter fun candidate =>
        !decide ((candidate.1.id, version, candidate.2.asset) ∈
          (insertSeedBatch version includeTentative seeds db).2.eventValuations.keys) := by
  have grown : Table.Grown _ db.eventValuations
      (insertSeedBatch version includeTentative seeds db).2.eventValuations := grown_insertSeedBatch
  have events : (insertSeedBatch version includeTentative seeds db).2.rawProtocolEvents =
      db.rawProtocolEvents := rfl
  generalize (insertSeedBatch version includeTentative seeds db).2 = after at grown events
  unfold seedJoin
  rw [events, List.filter_flatMap]
  refine List.flatMap_congr fun e _ => ?_
  rw [List.filter_map, List.filter_filter]
  refine congrArg (List.map _) (List.filter_congr fun seed _ => ?_)
  unfold isSeedCandidate
  by_cases valued : (e.id, version, seed.asset) ∈ db.eventValuations.keys
  · have still := Finmap.mem_keys.mpr (grown.mem (Finmap.mem_keys.mp valued))
    simp [valued, still]
  · simp [valued, Bool.and_comm]

/-- A batch shortens the join, until nothing is left of it. -/
theorem length_seedJoin_insertSeedBatch (db : Db) :
    (seedJoin version includeTentative seeds
        (insertSeedBatch version includeTentative seeds db).2).length ≤
      (seedJoin version includeTentative seeds db).length - 1 := by
  rw [seedJoin_insertSeedBatch]
  cases batched : seedBatch version includeTentative seeds db with
  | nil =>
      have none : seedJoin version includeTentative seeds db = [] := by
        rw [List.eq_nil_iff_forall_not_mem]
        intro candidate member
        obtain ⟨stored, listed, passes⟩ := mem_seedJoin.mp member
        exact Bool.eq_false_iff.mp (seedBatch_eq_nil_iff.mp batched)
          (hasSeedCandidates_iff.mpr ⟨_, stored, _, listed, passes⟩)
      rw [none]
      exact Nat.zero_le _
  | cons first rest =>
      have inBatch : first ∈ seedBatch version includeTentative seeds db :=
        batched ▸ List.mem_cons_self ..
      have joined : first ∈ seedJoin version includeTentative seeds db :=
        mem_orderBy.mp (List.mem_of_mem_take inBatch)
      have row : seedValuation version first.1.id first.1.toPreparedRow first.2 ∈
          seedRows version includeTentative seeds db := List.mem_map.mpr ⟨first, inBatch, rfl⟩
      have valued : (first.1.id, version, first.2.asset) ∈
          (insertSeedBatch version includeTentative seeds db).2.eventValuations.keys :=
        Finmap.mem_keys.mpr ((Table.mem_foldl_insertNew ValuationRow.key id db.eventValuations).mpr
          (Or.inr ⟨_, row, rfl⟩))
      refine Nat.le_sub_one_of_lt (List.length_filter_lt_length_iff_exists.mpr ⟨first, joined, ?_⟩)
      simp [valued]

/-- **The batches of the seed pass leave no candidate.** -/
theorem noSeedCandidates_drainSeeds (db : Db) : hasSeedCandidates version includeTentative seeds
    (drainSeeds version includeTentative seeds db) = false := by
  have shrinks : ∀ (n : ℕ) (db : Db), (seedJoin version includeTentative seeds
      ((fun db => (insertSeedBatch version includeTentative seeds db).2)^[n] db)).length ≤
        (seedJoin version includeTentative seeds db).length - n := by
    intro n
    induction n with
    | zero => exact fun db => le_refl _
    | succ n inductionHypothesis =>
        intro db
        rw [Function.iterate_succ_apply]
        have first := @length_seedJoin_insertSeedBatch version includeTentative seeds db
        have rest := inductionHypothesis (insertSeedBatch version includeTentative seeds db).2
        omega
  have nothing : seedJoin version includeTentative seeds
      (drainSeeds version includeTentative seeds db) = [] := by
    refine List.length_eq_zero_iff.mp (Nat.le_zero.mp ((shrinks _ db).trans ?_))
    omega
  rw [← Bool.not_eq_true, hasSeedCandidates_iff]
  rintro ⟨e, stored, seed, listed, passes⟩
  have member : (e, seed) ∈ seedJoin version includeTentative seeds
      (drainSeeds version includeTentative seeds db) := mem_seedJoin.mpr ⟨stored, listed, passes⟩
  rw [nothing] at member
  cases member

end SeedPass

/-! ## The passes -/

section Passes

variable (rt : Runtime) (opts : ReplayOpts)

/-- `run_eth`, `run_lpt` and `run_multi_asset`. -/
def runPricing (pass : PassName) (version : Version) (answers : CachedAnswers) (db : Db) :
    Except String Db :=
  runOnchainPass pass version (passResults pass rt.decimals rt.feeds answers.pricing)
    opts.includeTentative
    (rt.joined pass (passCandidates pass version opts.includeTentative db)) db

/-- `run_all` of the valuator. -/
def runAll (version : Version) (answers : CachedAnswers) (seeds : List SeededPrice) (db : Db) :
    Except String Db := do
  let seeded := runSeedPass version opts.includeTentative seeds rt.now db
  let eth ← runPricing rt opts .ETH version answers seeded
  let lpt ← runPricing rt opts .LPT version answers eth
  runPricing rt opts .MULTI version answers lpt

/-- The batch limit of the daily rollups. -/
def rollupBatchLimit : ℕ := 10000

/-- The passes of the staker and the rollups. -/
def runStakerAndRollups (answers : CachedAnswers) (db : Db) : Except String Db := do
  let flow := (runFlowBackfill opts.includeTentative db).1
  let pending ← withContext "staker pending"
    (refreshPending answers.bonding opts.includeTentative flow)
  let profile := (runProfileBackfill answers.orchestrators opts.includeTentative
    orchProfileBatchLimit pending).1
  let payouts := orchPayouts.runOnce opts.includeTentative rollupBatchLimit profile
  let rewards := orchRewards.runOnce opts.includeTentative rollupBatchLimit payouts
  return tickets.runOnce opts.includeTentative rollupBatchLimit rewards

/-- The finality pass. -/
def runFinality (db : Db) : Except String Db :=
  if opts.allowLiveRpc then do
    let (latestTs, finalizedTs) ← withContext
      "replay with --allow-live-rpc requires configured L1 provider for finality" rt.l1
    return Finality.runOnce rt.now latestTs finalizedTs db
  else withContext "missing replay finality input checkpoint" (Finality.runOnceReplay rt.now db)

/-- The passes after the indexer. -/
def rebuild (version : Version) (answers : CachedAnswers) (seeds : List SeededPrice) (db : Db) :
    Except String Db := do
  let marked ← runFinality rt opts db
  let valued ← runAll rt opts version answers seeds marked
  runStakerAndRollups opts answers valued

end Passes

/-! ## The indexer -/

section Indexer

variable (rt : Runtime) (opts : ReplayOpts)

/-- The contracts, in the order in which they are indexed. -/
def replayContracts : List ContractKind :=
  [.BondingManager, .TicketBroker, .LivepeerToken, .RoundsManager, .Governor]

/-- The surroundings of a contract's chunks. -/
def indexerWeather (contract : ContractKind) (turn : ℕ) : Wire.Moment :=
  if opts.allowLiveRpc then ⟨rt.archive, none, rt.ids contract turn⟩
  else Wire.replayWeather (rt.ids contract) turn

/-- One contract; it is skipped if the cache has no logs for its address. -/
def indexContract (fromBlock toBlock : ℕ) (s : Wire.LiveState) (contract : ContractKind) :
    Except String Wire.LiveState :=
  if Wire.hasCachedLogsForContract rt.decoder (rt.job contract) s.cache then
    let w := Wire.runBackfill rt.decoder (rt.job contract) (indexerWeather rt opts contract) true
      fromBlock toBlock s.cache s.db
    if w.result = .ok then .ok ⟨w.state.cache, w.state.db⟩ else .error "indexer"
  else .ok s

/-- The events of the indexed rows, as they were inserted. -/
def eventsOf (table : Table (TxHash × ℤ) Wire.StoredRow) : List RawEvent :=
  orderBy (·.id) ((sortKeys (table.keys.image toLex)).filterMap fun key =>
    (table.lookup (ofLex key)).map rt.columns)

/-- The checkpoints the indexer has written, under their names. -/
def indexerCheckpoints (written : Table String ℤ) (db : Db) : Db :=
  replayContracts.foldl (fun db contract =>
    (written.lookup (Wire.checkpointName contract "")).elim db
      (db.advanceCheckpoint (.indexer contract ""))) db

/-- The loop over the contracts, on truncated tables. -/
def indexAll (toBlock : ℕ) (s : ReplayDb) : Except String ReplayDb := do
  let fromBlock := opts.fromBlock.getD rt.livepeerArbitrumGenesisBlock
  let indexed ← replayContracts.foldlM (indexContract rt opts fromBlock toBlock)
    ⟨s.rpcCallCache.logs, .empty⟩
  return { s with
    toDb := indexerCheckpoints indexed.db.indexerCheckpoints
      { s.toDb with rawProtocolEvents := eventsOf rt indexed.db.rawProtocolEvents }
    rpcCallCache := { s.rpcCallCache with logs := indexed.cache }
    decodeFailures := indexed.db.decodeFailures }

end Indexer

/-! ## The run -/

section Run

variable (rt : Runtime) (opts : ReplayOpts)

/-- `run_import`, unless it is skipped or there is no source. -/
def importSource (s : ReplayDb) : ReplayDb :=
  if opts.skipSeedImport then s
  else rt.sourceSqlite.elim s fun source =>
    { s with seededEventPrices := importSeeds source.rows s.seededEventPrices }

/-- `run_cross_check`, which reads only. -/
def crossCheck (s : ReplayDb) : Except String Unit :=
  if opts.skipCrossCheck then .ok ()
  else rt.sourceSqlite.elim (.ok ()) fun source =>
    match runCrossCheck rt.texts rt.mapOrder s.rawProtocolEvents source.events with
    | .failed => .error "cross-check"
    | .panicked => .error "panicked"
    | .report _ => .ok ()

/-- The tables before the passes: truncated, with seeds and events. -/
def prepare (toBlock : ℕ) (s : ReplayDb) : Except String ReplayDb :=
  let seeded := importSource rt opts (truncateForReplay opts.keepRawEvents s)
  if opts.keepRawEvents then .ok seeded else indexAll rt opts toBlock seeded

/-- The answers the passes get. -/
def answersOf (s : ReplayDb) : CachedAnswers :=
  if opts.allowLiveRpc then rt.live s.rpcCallCache else s.rpcCallCache

/-- The end of a replay, after the passes. -/
def finish (prepared : ReplayDb) (rebuilt : Db) : Except String ReplayDb := do
  let passed : ReplayDb := { prepared with toDb := rebuilt }
  crossCheck rt opts passed
  return refreshDerivedMatviews passed

/-- `run`. -/
def run (s : ReplayDb) : Except String ReplayDb := do
  let toBlock ← withContext
    "replay requires explicit --to-block so it does not depend on live head state" opts.toBlock
  let prepared ← prepare rt opts toBlock s
  let version := opts.version.getD rt.defaultValuationVersion
  let rebuilt ← rebuild rt opts version (answersOf rt opts prepared) prepared.seededEventPrices
    prepared.toDb
  finish rt opts prepared rebuilt

variable {rt opts} {s after : ReplayDb}

/-- **The stages of a replay that returns.** -/
theorem run_ok (ran : run rt opts s = .ok after) : ∃ toBlock prepared rebuilt,
    opts.toBlock = some toBlock ∧ prepare rt opts toBlock s = .ok prepared ∧
      rebuild rt opts (opts.version.getD rt.defaultValuationVersion) (answersOf rt opts prepared)
        prepared.seededEventPrices prepared.toDb = .ok rebuilt ∧
      after = refreshDerivedMatviews { prepared with toDb := rebuilt } := by
  obtain ⟨toBlock, bounded, prepares⟩ := bind_eq_ok.mp ran
  obtain ⟨prepared, isPrepared, rebuilds⟩ := bind_eq_ok.mp prepares
  obtain ⟨rebuilt, isRebuilt, finishes⟩ := bind_eq_ok.mp rebuilds
  obtain ⟨_, _, refreshed⟩ := bind_eq_ok.mp finishes
  exact ⟨toBlock, prepared, rebuilt, withContext_eq_ok.mp bounded, isPrepared, isRebuilt,
    (pure_eq_ok.mp refreshed).symm⟩

end Run

end ProtocolExplorer.Orchestrator
