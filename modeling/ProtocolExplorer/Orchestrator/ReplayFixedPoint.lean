import ProtocolExplorer.Gateway.Programs
import ProtocolExplorer.Orchestrator.KeptCheckpoints
import ProtocolExplorer.Rollups.CrashSafety
import ProtocolExplorer.Staker.ReceiptCompleteness
import ProtocolExplorer.Valuator.MultiAsset

/-!
# What a replay leaves to be done

A replay calls each of its passes once.  Each table is rebuilt as far as one call goes, and two of
the tables that are truncated have passes that are not called: the receipts and the gateway
balances.

* `rebuild_frame` — the passes keep the log as the finality pass marks it;
* `sameRows_rebuild_of_idle` — on a log without an eligible event they write no row;
* `fixedPoint_iff_idle` — **another call of every pass changes nothing if no event of the window is
  eligible**, and only then unless an earlier checkpoint or unusable receipts stop the receipts pass.
-/

set_option autoImplicit false

namespace ProtocolExplorer.Orchestrator

open ProtocolExplorer.Lib
open ProtocolExplorer.Store
open ProtocolExplorer.Staker
open ProtocolExplorer.Valuator
open ProtocolExplorer.Rollups
open ProtocolExplorer.Gateway
open ProtocolExplorer.Finality

/-! ## The window -/

section Window

variable (rt : Runtime) (opts : ReplayOpts)

/-- The events of the window with their finality: those that are kept, or those that the cached logs
decode to. -/
def windowEvents (s : ReplayDb) : Except String (List RawEvent) := do
  let toBlock ← withContext
    "replay requires explicit --to-block so it does not depend on live head state" opts.toBlock
  let prepared ← prepare rt opts toBlock s
  let marked ← runFinality rt opts prepared.toDb
  return marked.rawProtocolEvents

/-- Where the receipts pass starts after a replay. -/
def receiptsFloor (s : ReplayDb) : ℤ :=
  if opts.keepRawEvents then s.txReceiptsCheckpoint.getD 0 else 0

/-- The tables of the receipts pass. -/
def receiptState (s : ReplayDb) : ReceiptState :=
  ⟨s.rawProtocolEvents, s.txReceipts, s.rpcCallCache.receipts, s.txReceiptsCheckpoint⟩

/-- Another call of each pass whose tables a replay is to rebuild writes no row. -/
structure AtFixedPoint (lib : ReceiptLibrary) (s : ReplayDb) : Prop where
  valuations : ∀ db, runAll rt opts (opts.version.getD rt.defaultValuationVersion)
    (answersOf rt opts s) s.seededEventPrices s.toDb = .ok db → SameRows s.toDb db
  stakeRows : SameRows s.toDb (runFlowBackfill opts.includeTentative s.toDb).1
  pendingAmounts : ∀ db, refreshPending (answersOf rt opts s).bonding opts.includeTentative s.toDb =
    some db → SameRows s.toDb db
  orchStakeByRound : SameRows s.toDb (runProfileBackfill (answersOf rt opts s).orchestrators
    opts.includeTentative orchProfileBatchLimit s.toDb).1
  orchPayoutsDaily : SameRows s.toDb
    (orchPayouts.runOnce opts.includeTentative rollupBatchLimit s.toDb)
  orchRewardsDaily : SameRows s.toDb
    (orchRewards.runOnce opts.includeTentative rollupBatchLimit s.toDb)
  ticketsDaily : SameRows s.toDb (tickets.runOnce opts.includeTentative rollupBatchLimit s.toDb)
  gatewayBalances : ∀ blocks broker (w w' : World), w.db = s.toDb →
    (runGatewayBackfill batchLimits opts.includeTentative).runAlone (World.act blocks broker) w =
      some (w', ⟨⟩) → SameRows s.toDb w'.db
  txReceipts : ∀ (args : ReceiptArgs) (weather : ReceiptWeather),
    args.includeTentative = opts.includeTentative →
      (runTxReceiptsBackfill lib args weather (receiptState s)).1.txReceipts = s.txReceipts

end Window

/-! ## What the stages keep -/

section Stages

variable {rt : Runtime} {opts : ReplayOpts} {s after : ReplayDb} {db db' : Db}

/-- Truncated tables that nothing before the passes writes. -/
structure Truncated (opts : ReplayOpts) (s prepared : ReplayDb) : Prop where
  rowless : prepared.stakeBalancesByBlock = ∅
  unmutated : prepared.reorgMutations = []
  txReceipts : prepared.txReceipts = ∅
  receipts : prepared.rpcCallCache.receipts = s.rpcCallCache.receipts
  checkpoint : prepared.txReceiptsCheckpoint.getD 0 = receiptsFloor opts s

theorem truncated_importSource :
    Truncated opts s (importSource rt opts (truncateForReplay opts.keepRawEvents s)) := by
  have reset : Truncated opts s (truncateForReplay opts.keepRawEvents s) := by
    have floor : receiptsFloor opts s = if opts.keepRawEvents then s.txReceiptsCheckpoint.getD 0
        else 0 := rfl
    cases keep : opts.keepRawEvents <;> exact ⟨rfl, rfl, rfl, rfl, by rw [floor, keep]; rfl⟩
  unfold importSource
  split
  · exact reset
  · cases rt.sourceSqlite with
    | none => exact reset
    | some source =>
        exact ⟨reset.rowless, reset.unmutated, reset.txReceipts, reset.receipts, reset.checkpoint⟩

theorem indexerCheckpoints_frame (written : Table String ℤ) (db : Db) :
    ∃ checkpoints, indexerCheckpoints written db = { db with indexerCheckpoints := checkpoints } := by
  have each : ∀ (contracts : List ContractKind) (db : Db), ∃ checkpoints,
      contracts.foldl (fun db contract =>
        (written.lookup (Indexer.Wire.checkpointName contract "")).elim db
          (db.advanceCheckpoint (.indexer contract ""))) db =
        { db with indexerCheckpoints := checkpoints } := by
    intro contracts
    induction contracts with
    | nil => exact fun db => ⟨db.indexerCheckpoints, rfl⟩
    | cons contract rest inductionHypothesis =>
        intro db
        rw [List.foldl_cons]
        cases written.lookup (Indexer.Wire.checkpointName contract "") with
        | none => exact inductionHypothesis db
        | some block =>
            exact inductionHypothesis (db.advanceCheckpoint (.indexer contract "") block)
  exact each replayContracts db

theorem truncated_indexAll {toBlock : ℕ} {prepared indexed : ReplayDb}
    (truncated : Truncated opts s prepared)
    (indexes : indexAll rt opts toBlock prepared = .ok indexed) : Truncated opts s indexed := by
  obtain ⟨written, _, built⟩ := bind_eq_ok.mp indexes
  obtain rfl := pure_eq_ok.mp built
  obtain ⟨checkpoints, frame⟩ := indexerCheckpoints_frame written.db.indexerCheckpoints
    { prepared.toDb with rawProtocolEvents := eventsOf rt written.db.rawProtocolEvents }
  exact
    { rowless := by rw [frame]; exact truncated.rowless
      unmutated := by rw [frame]; exact truncated.unmutated
      txReceipts := truncated.txReceipts
      receipts := truncated.receipts
      checkpoint := truncated.checkpoint }

theorem truncated_prepare {toBlock : ℕ} {prepared : ReplayDb}
    (isPrepared : prepare rt opts toBlock s = .ok prepared) : Truncated opts s prepared := by
  unfold prepare at isPrepared
  dsimp only at isPrepared
  split at isPrepared
  · cases isPrepared
    exact truncated_importSource
  · exact truncated_indexAll truncated_importSource isPrepared

/-! ## What the passes keep -/

/-- The finality pass marks rows and moves checkpoints. -/
theorem runFinality_frame (marks : runFinality rt opts db = .ok db') :
    ∃ events checkpoints, db' =
      { db with rawProtocolEvents := events, indexerCheckpoints := checkpoints } := by
  unfold runFinality at marks
  split at marks
  · obtain ⟨stamps, _, marked⟩ := bind_eq_ok.mp marks
    exact ⟨_, _, (pure_eq_ok.mp marked).symm⟩
  · obtain ⟨latestTs, _, rest⟩ := Option.bind_eq_some_iff.mp (withContext_eq_ok.mp marks)
    obtain ⟨finalizedTs, _, marked⟩ := Option.bind_eq_some_iff.mp rest
    exact ⟨_, _, (Option.some.inj marked).symm⟩

theorem runPricing_rawProtocolEvents {pass : PassName} {version : Version}
    {answers : CachedAnswers} (priced : runPricing rt opts pass version answers db = .ok db') :
    db'.rawProtocolEvents = db.rawProtocolEvents := by
  have advanced : ∀ (minUnresolved frontier : Option Timestamp) (flushed : Db),
      (advance (version, pass) minUnresolved frontier opts.includeTentative
        flushed).rawProtocolEvents = flushed.rawProtocolEvents := by
    intro minUnresolved frontier flushed
    cases opts.includeTentative <;> cases frontier <;> rfl
  have written := runOnchainPass_eq priced
  dsimp only at written
  rw [written, advanced, (ValuatorSystem.outcomesGrow_flush _ _).events]
  exact (ValuatorSystem.outcomesGrow_foldl_recordNext _ _).events

theorem runSeedPass_rawProtocolEvents {version : Version} {includeTentative : Bool}
    {seeds : List SeededPrice} (now : Timestamp) (db : Db) :
    (runSeedPass version includeTentative seeds now db).rawProtocolEvents =
      db.rawProtocolEvents := by
  have drained : ∀ (n : ℕ) (db : Db), ((fun db =>
      (insertSeedBatch version includeTentative seeds db).2)^[n] db).rawProtocolEvents =
        db.rawProtocolEvents := by
    intro n
    induction n with
    | zero => exact fun _ => rfl
    | succ n inductionHypothesis => exact fun db => inductionHypothesis _
  simp only [runSeedPass, drainSeeds]
  split
  · rfl
  · split <;> split <;> first | exact drained _ db | rfl

theorem runAll_rawProtocolEvents {version : Version} {answers : CachedAnswers}
    {seeds : List SeededPrice} (valued : runAll rt opts version answers seeds db = .ok db') :
    db'.rawProtocolEvents = db.rawProtocolEvents := by
  obtain ⟨eth, ethPriced, rest⟩ := bind_eq_ok.mp valued
  obtain ⟨lpt, lptPriced, multiPriced⟩ := bind_eq_ok.mp rest
  rw [runPricing_rawProtocolEvents multiPriced, runPricing_rawProtocolEvents lptPriced,
    runPricing_rawProtocolEvents ethPriced, runSeedPass_rawProtocolEvents]

theorem runStakerAndRollups_rawProtocolEvents {answers : CachedAnswers}
    (passed : runStakerAndRollups opts answers db = .ok db') :
    db'.rawProtocolEvents = db.rawProtocolEvents := by
  obtain ⟨pending, refreshed, rest⟩ := bind_eq_ok.mp passed
  obtain rfl := pure_eq_ok.mp rest
  have rolled : ∀ {Row Key Label Sums Stored : Type} [AddCommMonoid Sums] [AddCommMonoid Stored]
      [DecidableEq Label] [DecidableEq Key] (r : DailyRollup Row Key Label Sums Stored) (db : Db),
      (r.runOnce opts.includeTentative rollupBatchLimit db).rawProtocolEvents =
        db.rawProtocolEvents := fun r db =>
    congrArg SourceTables.rawProtocolEvents (DailyRollup.sourceTables_runOnce rollupBatchLimit db)
  rw [rolled, rolled, rolled]
  obtain ⟨rows, checkpoints, profile⟩ :
      ∃ rows checkpoints, (runProfileBackfill answers.orchestrators opts.includeTentative
        orchProfileBatchLimit pending).1 =
          { pending with orchStakeByRound := rows, indexerCheckpoints := checkpoints } :=
    runProfileBackfill_frame answers.orchestrators
  rw [profile]
  obtain ⟨stake, rfl⟩ := refreshPending_frame (withContext_eq_ok.mp refreshed)
  exact runFlowBackfill_rawProtocolEvents opts.includeTentative db

end Stages

/-! ## The passes that a replay does not call -/

section Uncalled

variable {includeTentative : Bool}

/-- The gateway pass writes no row of an idle log. -/
theorem sameRows_runGatewayBackfill {blocks : BlockHash → Indexer.Block}
    {broker : BlockHash → (call : BrokerCall) → call.Answer} {limits : BatchLimits} {w w' : World}
    (idle : Idle includeTentative w.db.rawProtocolEvents)
    (ran : (runGatewayBackfill limits includeTentative).runAlone (World.act blocks broker) w =
      some (w', ⟨⟩)) : SameRows w.db w'.db := by
  have touches : ∀ names e, brokerEvent names includeTentative e = true →
      e.eligible includeTentative = true := by
    intro names e passes
    simp only [brokerEvent, Bool.and_eq_true] at passes
    exact passes.1.1.1
  have none : ∀ selects : RawEvent → Bool, (∀ e, selects e = true →
      e.eligible includeTentative = true) → w.db.rawProtocolEvents.filter selects = [] :=
    fun selects implies => (idle.without fun _ => true).filter_eq_nil fun e selected =>
      ⟨rfl, implies e selected⟩
  have flows : ∀ block limit, fetchFlowCandidatesAfter includeTentative block limit w.db = [] := by
    intro block limit
    rw [fetchFlowCandidatesAfter, missingFlows, none]
    · exact List.take_nil
    · intro e passes
      exact touches _ e (Bool.and_eq_true_iff.mp passes).1
  have claimants : ∀ block limit,
      fetchClaimantCandidatesAfter includeTentative block limit w.db = [] := by
    intro block limit
    rw [fetchClaimantCandidatesAfter, missingClaimants, none]
    · exact List.take_nil
    · intro e passes
      exact touches _ e (Bool.and_eq_true_iff.mp (Bool.and_eq_true_iff.mp passes).1).1
  have balances : ∀ block limit,
      fetchBalanceCandidatesAfter includeTentative block limit w.db = [] := by
    intro block limit
    rw [fetchBalanceCandidatesAfter, missingBalances, latestTouches, none]
    · exact List.take_nil
    · exact touches _
  obtain ⟨scanned, fetched, walks⟩ : ∃ scanned fetched,
      (walkFlows (fetchFlowCandidatesAfter includeTentative
          (w.db.loadCheckpoint (.gateway .flow)) limits.flow w.db) >>= fun _ =>
        walkClaimants (fetchClaimantCandidatesAfter includeTentative
          (w.db.loadCheckpoint (.gateway .claimant)) limits.claimant w.db) >>= fun _ =>
        walkBalances (w.db.loadCheckpoint (.gateway .balance)) (fetchBalanceCandidatesAfter
          includeTentative (w.db.loadCheckpoint (.gateway .balance)) limits.balance w.db)).runAlone
        (World.act blocks broker) { w with scanned := scanned, fetched := fetched } =
          some (w', ⟨⟩) := ⟨_, _, ran⟩
  rw [flows, claimants, balances] at walks
  cases loaded : w.db.loadCheckpoint (.gateway .balance) with
  | none =>
      rw [loaded] at walks
      cases walks
      exact SameRows.refl w.db
  | some block =>
      -- without a candidate the last walk repeats its checkpoint
      rw [loaded] at walks
      cases walks
      exact sameRows_advanceCheckpoint ..

/-- Nor does the receipts pass. -/
theorem txReceipts_of_idle {lib : ReceiptLibrary} {args : ReceiptArgs} {weather : ReceiptWeather}
    {s : ReceiptState} (idle : Idle args.includeTentative s.rawProtocolEvents) :
    (runTxReceiptsBackfill lib args weather s).1.txReceipts = s.txReceipts := by
  have nothing : loadCandidates args s = [] := by
    rw [List.eq_nil_iff_forall_not_mem]
    intro c listed
    obtain ⟨e, pending, _⟩ := pending_of_mem_loadCandidates listed
    have eligible : e.eligible args.includeTentative = true := pending.selected
    rw [idle e pending.stored] at eligible
    cases eligible
  unfold runTxReceiptsBackfill
  rw [nothing]
  exact finish_txReceipts ..

/-- A serving provider leaves the rows of a recoverable table only if none is missing. -/
theorem complete_of_sameReceipts {lib : ReceiptLibrary} {args : ReceiptArgs}
    (serving : Receipts.Serving lib) {s : ReceiptState}
    (recoverable : Receipts.Recoverable lib args s)
    (same : (runTxReceiptsBackfill lib args serving.weather s).1.txReceipts = s.txReceipts) :
    Receipts.Complete args s := by
  rcases Receipts.serving_progress serving recoverable with complete | ⟨_, fewer⟩
  · exact complete
  · have events := (Receipts.callGrows lib args serving.weather s).events
    unfold Receipts.missing at fewer
    rw [same, events] at fewer
    exact absurd fewer (lt_irrefl _)

end Uncalled

/-! ## The fixed point -/

section FixedPoint

variable {rt : Runtime} {opts : ReplayOpts} {s after : ReplayDb} {events : List RawEvent}

/-- **The passes keep the log as the finality pass marks it.** -/
theorem rebuild_rawProtocolEvents {version : Version} {answers : CachedAnswers}
    {seeds : List SeededPrice} {db rebuilt marked : Db}
    (passed : rebuild rt opts version answers seeds db = .ok rebuilt)
    (marks : runFinality rt opts db = .ok marked) :
    rebuilt.rawProtocolEvents = marked.rawProtocolEvents := by
  obtain ⟨own, isMarked, rest⟩ := bind_eq_ok.mp passed
  obtain ⟨valued, isValued, staked⟩ := bind_eq_ok.mp rest
  obtain rfl : marked = own := Except.ok.inj (marks.symm.trans isMarked)
  rw [runStakerAndRollups_rawProtocolEvents staked, runAll_rawProtocolEvents isValued]

/-- **On a log without an eligible event they write no row.** -/
theorem sameRows_rebuild_of_idle {version : Version} {answers : CachedAnswers}
    {seeds : List SeededPrice} {db rebuilt marked : Db}
    (passed : rebuild rt opts version answers seeds db = .ok rebuilt)
    (marks : runFinality rt opts db = .ok marked)
    (idle : Idle opts.includeTentative marked.rawProtocolEvents)
    (rowless : marked.stakeBalancesByBlock = ∅) (unmutated : marked.reorgMutations = []) :
    SameRows marked rebuilt := by
  obtain ⟨own, isMarked, rest⟩ := bind_eq_ok.mp passed
  obtain ⟨valued, isValued, staked⟩ := bind_eq_ok.mp rest
  obtain rfl : marked = own := Except.ok.inj (marks.symm.trans isMarked)
  obtain ⟨cursors, priced⟩ := runAll_of_unpriced rt version answers seeds (idle.without isPriced)
  obtain rfl : _ = valued := Except.ok.inj (priced.symm.trans isValued)
  have quiet : Quiet opts.includeTentative { marked with valuatorCursors := cursors } :=
    ⟨idle.without movesStake, idle.without rollsUp, rowless, unmutated⟩
  obtain ⟨block, own', isStaked, last⟩ := runStakerAndRollups_of_quiet quiet answers
  obtain rfl : own' = rebuilt := Except.ok.inj (isStaked.symm.trans staked)
  have stillIdle : Idle opts.includeTentative (({ marked with valuatorCursors := cursors } :
      Db).advanceCheckpoint .stakerFlowBackfillV2 block).rawProtocolEvents := idle
  have profile := sameRows_runProfileBackfill stillIdle answers.orchestrators orchProfileBatchLimit
  have valuator : SameRows marked { marked with valuatorCursors := cursors } := ⟨_, _, rfl⟩
  exact ((valuator.trans (sameRows_advanceCheckpoint ..)).trans profile).trans last

/-- On an idle log without stake rows another call of every pass changes nothing. -/
theorem atFixedPoint_of_idle {lib : ReceiptLibrary}
    (idle : Idle opts.includeTentative s.rawProtocolEvents)
    (rowless : s.stakeBalancesByBlock = ∅) (unmutated : s.reorgMutations = []) :
    AtFixedPoint rt opts lib s where
  valuations db valued := by
    obtain ⟨cursors, priced⟩ := runAll_of_unpriced rt
      (opts.version.getD rt.defaultValuationVersion) (answersOf rt opts s) s.seededEventPrices
      (idle.without isPriced)
    obtain rfl : _ = db := Except.ok.inj (priced.symm.trans valued)
    exact ⟨_, _, rfl⟩
  stakeRows := by
    obtain ⟨block, same⟩ := runFlowBackfill_of_unstaked (idle.without movesStake)
    rw [same]
    exact sameRows_advanceCheckpoint ..
  pendingAmounts db refreshed := by
    have same := refreshPending_of_unstaked (idle.without movesStake) rowless
      (answersOf rt opts s).bonding
    obtain rfl : s.toDb = db := Option.some.inj (same.symm.trans refreshed)
    exact SameRows.refl _
  orchStakeByRound := sameRows_runProfileBackfill idle _ _
  orchPayoutsDaily := sameRows_runOnce sumsEligible_orchPayouts (idle.without rollsUp) unmutated _
  orchRewardsDaily := sameRows_runOnce sumsEligible_orchRewards (idle.without rollsUp) unmutated _
  ticketsDaily := sameRows_runOnce sumsEligible_tickets (idle.without rollsUp) unmutated _
  gatewayBalances blocks broker w w' same ran := by
    rw [← same]
    exact sameRows_runGatewayBackfill (same ▸ idle) ran
  txReceipts args weather own := by
    refine txReceipts_of_idle ?_
    rw [own]
    exact idle

/-- The receipts that are cached give rows. -/
def ReceiptsUsable (lib : ReceiptLibrary) (s : ReplayDb) : Prop :=
  ∀ tx answer, s.rpcCallCache.receipts.lookup tx = some answer → Receipts.IsReceipt lib tx answer

/-- What a replay leaves at its end. -/
structure Left (rt : Runtime) (opts : ReplayOpts) (s after : ReplayDb) (events : List RawEvent) :
    Prop where
  window : windowEvents rt opts s = .ok events
  log : after.rawProtocolEvents = events
  txReceipts : after.txReceipts = ∅
  receipts : after.rpcCallCache.receipts = s.rpcCallCache.receipts
  checkpoint : after.txReceiptsCheckpoint.getD 0 = receiptsFloor opts s
  idle : Idle opts.includeTentative events →
    after.stakeBalancesByBlock = ∅ ∧ after.reorgMutations = []

theorem left_of_run (ran : run rt opts s = .ok after) : ∃ events, Left rt opts s after events := by
  obtain ⟨toBlock, prepared, rebuilt, bounded, isPrepared, passed, rfl⟩ := run_ok ran
  have truncated := truncated_prepare isPrepared
  obtain ⟨marked, isMarked, _⟩ := bind_eq_ok.mp passed
  have log := rebuild_rawProtocolEvents passed isMarked
  obtain ⟨events, checkpoints, frame⟩ := runFinality_frame isMarked
  refine ⟨marked.rawProtocolEvents, ?_, log, truncated.txReceipts, truncated.receipts,
    truncated.checkpoint, fun idle => ?_⟩
  · exact bind_eq_ok.mpr ⟨toBlock, withContext_eq_ok.mpr bounded, bind_eq_ok.mpr ⟨prepared, isPrepared,
      bind_eq_ok.mpr ⟨marked, isMarked, rfl⟩⟩⟩
  · have rowless : marked.stakeBalancesByBlock = ∅ := by rw [frame]; exact truncated.rowless
    have unmutated : marked.reorgMutations = [] := by rw [frame]; exact truncated.unmutated
    obtain ⟨_, _, rfl⟩ := sameRows_rebuild_of_idle passed isMarked idle rowless unmutated
    exact ⟨rowless, unmutated⟩

/-- If the receipts pass starts below every event and no receipt is unusable, only an idle window
leaves it nothing to do. -/
theorem Left.idle_of_fixedPoint {lib : ReceiptLibrary} (serving : Receipts.Serving lib)
    (left : Left rt opts s after events)
    (above : ∀ e ∈ events, receiptsFloor opts s ≤ e.blockNumber) (usable : ReceiptsUsable lib s)
    (fixed : AtFixedPoint rt opts lib after) : Idle opts.includeTentative events := by
  let args : ReceiptArgs := ⟨opts.includeTentative, 5000, by decide⟩
  have recoverable : Receipts.Recoverable lib args (receiptState after) := by
    intro e pending
    refine ⟨⟨e, pending, rfl, ?_⟩, fun answer cached => usable e.txHash answer (left.receipts ▸ cached)⟩
    have floor : (receiptState after).floor = receiptsFloor opts s := left.checkpoint
    rw [floor]
    exact above e (left.log ▸ pending.stored)
  have complete := complete_of_sameReceipts serving recoverable
    (fixed.txReceipts args serving.weather rfl)
  intro e stored
  by_contra notIneligible
  have indexed : e ∈ after.rawProtocolEvents := left.log.symm ▸ stored
  have rowed : e.txHash ∈ after.txReceipts :=
    complete e indexed (Bool.not_eq_false _ ▸ notIneligible)
  rw [left.txReceipts] at rowed
  exact Finmap.notMem_empty rowed

/-- The window of a replay that keeps a final log is the log. -/
theorem windowEvents_of_kept {toBlock : ℕ} {latestTs finalizedTs : ℤ}
    (keep : opts.keepRawEvents = true) (bounded : opts.toBlock = some toBlock)
    (unread : rt.sourceSqlite = none)
    (final : ∀ e ∈ s.rawProtocolEvents, e.finality = .finalized)
    (recorded : Recorded rt latestTs finalizedTs s.toDb) :
    windowEvents rt opts s = .ok s.rawProtocolEvents := by
  have recorded' : Recorded rt latestTs finalizedTs (truncateDerived s).toDb :=
    ⟨recorded.provided, recorded.latest, recorded.finalized⟩
  obtain ⟨checkpoints, marked, _⟩ := runFinality_of_final opts recorded' final
  exact bind_eq_ok.mpr ⟨toBlock, withContext_eq_ok.mpr bounded, bind_eq_ok.mpr
    ⟨_, prepare_of_kept opts toBlock keep unread, bind_eq_ok.mpr ⟨_, marked, rfl⟩⟩⟩

/-- Nothing has been indexed. -/
def blank : ReplayDb := { unwritten with toDb := persistReplayInputs 5000 4000 Db.empty }

end FixedPoint

end ProtocolExplorer.Orchestrator
