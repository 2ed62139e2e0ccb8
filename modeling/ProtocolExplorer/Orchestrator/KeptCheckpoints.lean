import ProtocolExplorer.Orchestrator.IdlePasses
import ProtocolExplorer.Orchestrator.ReplayIndependence
import ProtocolExplorer.Staker.ProfileBatches
import ProtocolExplorer.Staker.Registry

/-!
# Kept events and kept checkpoints

A replay that keeps the raw events truncates what the passes have written and leaves the
checkpoints behind which they have written it.  A pass then goes on where an earlier run ended.

* `run_of_rounds` — on a log of activations and rounds such a replay is one profile pass;
* `stored_of_unread`, `missing_of_profiled` — a pass without a checkpoint stores the first round,
  one that has been through the log does not;
* `independent_iff` — **replays leave the same content, whatever was there before, exactly if they do
  not keep the events**.
-/

set_option autoImplicit false

namespace ProtocolExplorer.Orchestrator

open ProtocolExplorer.Lib
open ProtocolExplorer.Store
open ProtocolExplorer.Staker
open ProtocolExplorer.Valuator
open ProtocolExplorer.Finality
open ProtocolExplorer.Staker.Polling (activated roundStarted)

/-! ## A log of rounds -/

/-- A final log of which only the profile pass takes notice. -/
def OnlyRounds (events : List RawEvent) : Prop :=
  ∀ e ∈ events, e.finality = .finalized ∧ isPriced e = false ∧ movesStake e = false ∧
    rollsUp e = false

instance (events : List RawEvent) : Decidable (OnlyRounds events) :=
  inferInstanceAs (Decidable (∀ e ∈ events, _ ∧ _ ∧ _ ∧ _))

theorem without_of_none {kind : RawEvent → Bool} {events : List RawEvent}
    (nothing : ∀ e ∈ events, kind e = false) (includeTentative : Bool) :
    Without kind includeTentative events := by
  intro e member own
  rw [nothing e member] at own
  cases own

/-- Final rows stay as they are. -/
theorem map_markRow_of_final {events : List RawEvent}
    (final : ∀ e ∈ events, e.finality = .finalized) (now : Timestamp) (latestTs finalizedTs : ℤ) :
    events.map (markRow now latestTs finalizedTs) = events := by
  conv_rhs => rw [← List.map_id events]
  exact List.map_congr_left fun e member => markRow_of_finalized (final e member)

section Run

variable {rt : Runtime} (opts : ReplayOpts) {db : Db} {s : ReplayDb}

/-- The recorded inputs are what the provider would answer. -/
structure Recorded (rt : Runtime) (latestTs finalizedTs : ℤ) (db : Db) : Prop where
  provided : rt.l1 = some (latestTs, finalizedTs)
  latest : db.loadCheckpoint .replayFinalityLatestL1Ts = some latestTs
  finalized : db.loadCheckpoint .replayFinalityFinalizedL1Ts = some finalizedTs

/-- The finality pass returns, and leaves the rows of a final log. -/
theorem runFinality_of_final {latestTs finalizedTs : ℤ} (recorded : Recorded rt latestTs finalizedTs db)
    (final : ∀ e ∈ db.rawProtocolEvents, e.finality = .finalized) :
    ∃ checkpoints, runFinality rt opts db = .ok { db with indexerCheckpoints := checkpoints } ∧
      checkpoints.lookup .stakerOrchProfile = db.loadCheckpoint .stakerOrchProfile := by
  have marked : ∀ before : Db, before.rawProtocolEvents = db.rawProtocolEvents →
      runWithTimestamps rt.now latestTs finalizedTs before =
        before.advanceCheckpoint .finalityWatcher (finalizedTs - finalitySafetyMarginSecs) := by
    intro before same
    have rows := map_markRow_of_final final rt.now latestTs finalizedTs
    rw [← same] at rows
    have written : (before.rawProtocolEvents.map (markL1Posted (latestTs - postingLagSecs))).map
        (markFinalized rt.now (finalizedTs - finalitySafetyMarginSecs)) =
          before.rawProtocolEvents := by
      rw [List.map_map]
      exact rows
    simp only [runWithTimestamps, written]
  unfold runFinality
  split
  · rw [recorded.provided]
    refine ⟨_, congrArg Except.ok (marked _ rfl), ?_⟩
    exact loadCheckpoint_runOnce rt.now latestTs finalizedTs db (by simp) (by simp) (by simp)
  · have kept : (db.advanceCheckpoint .finalityWatcher
        (finalizedTs - finalitySafetyMarginSecs)).loadCheckpoint .stakerOrchProfile =
          db.loadCheckpoint .stakerOrchProfile :=
      Db.loadCheckpoint_advanceCheckpoint_of_ne _ _ (by simp)
    refine ⟨_, ?_, kept⟩
    unfold runOnceReplay
    rw [recorded.latest, recorded.finalized]
    exact congrArg Except.ok (marked db rfl)

theorem prepare_of_kept (toBlock : ℕ) (keep : opts.keepRawEvents = true)
    (unread : rt.sourceSqlite = none) : prepare rt opts toBlock s = .ok (truncateDerived s) := by
  simp [prepare, importSource, truncateForReplay, keep, unread]

/-- **A replay that keeps a log of rounds is one profile pass**, behind the kept checkpoint. -/
theorem run_of_rounds {toBlock : ℕ} {latestTs finalizedTs : ℤ} (keep : opts.keepRawEvents = true)
    (bounded : opts.toBlock = some toBlock) (unread : rt.sourceSqlite = none)
    (rounds : OnlyRounds s.rawProtocolEvents) (recorded : Recorded rt latestTs finalizedTs s.toDb) :
    ∃ (reads : OrchReads) (before : Db) (after : ReplayDb), run rt opts s = .ok after ∧
      after.orchStakeByRound = (runProfileBackfill reads opts.includeTentative
        orchProfileBatchLimit before).1.orchStakeByRound ∧
      before.rawProtocolEvents = s.rawProtocolEvents ∧ before.orchStakeByRound = ∅ ∧
      before.loadCheckpoint .stakerOrchProfile = s.loadCheckpoint .stakerOrchProfile := by
  have lacks : ∀ kind : RawEvent → Bool, (∀ e ∈ s.rawProtocolEvents, kind e = false) →
      Without kind opts.includeTentative s.rawProtocolEvents :=
    fun kind nothing => without_of_none nothing _
  have recorded' : Recorded rt latestTs finalizedTs (truncateDerived s).toDb :=
    ⟨recorded.provided, recorded.latest, recorded.finalized⟩
  obtain ⟨checkpoints, marked, kept⟩ :=
    runFinality_of_final opts recorded' fun e stored => (rounds e stored).1
  let version := opts.version.getD rt.defaultValuationVersion
  let answers := answersOf rt opts (truncateDerived s)
  have unpriced : Without isPriced opts.includeTentative
      ({ (truncateDerived s).toDb with indexerCheckpoints := checkpoints } : Db).rawProtocolEvents :=
    lacks isPriced fun e stored => (rounds e stored).2.1
  obtain ⟨cursors, valued⟩ := runAll_of_unpriced rt version answers s.seededEventPrices unpriced
  have quiet : Quiet opts.includeTentative { (truncateDerived s).toDb with
      indexerCheckpoints := checkpoints, valuatorCursors := cursors } :=
    ⟨lacks movesStake fun e stored => (rounds e stored).2.2.1,
      lacks rollsUp fun e stored => (rounds e stored).2.2.2, rfl, rfl⟩
  obtain ⟨block, rebuilt, staked, same⟩ := runStakerAndRollups_of_quiet quiet answers
  obtain ⟨_, _, rfl⟩ := same
  have passed : rebuild rt opts version answers s.seededEventPrices (truncateDerived s).toDb =
      .ok _ := bind_eq_ok.mpr ⟨_, marked, bind_eq_ok.mpr ⟨_, valued, staked⟩⟩
  have checked : ∀ s : ReplayDb, crossCheck rt opts s = .ok () := by
    intro s
    unfold crossCheck
    rw [unread]
    exact ite_self _
  refine ⟨answers.orchestrators, _, _, bind_eq_ok.mpr ⟨toBlock, withContext_eq_ok.mpr bounded,
    bind_eq_ok.mpr ⟨_, prepare_of_kept opts toBlock keep unread, bind_eq_ok.mpr ⟨_, passed,
      bind_eq_ok.mpr ⟨_, checked _, rfl⟩⟩⟩⟩, rfl, rfl, rfl, ?_⟩
  rw [Db.loadCheckpoint_advanceCheckpoint_of_ne _ _ (by simp)]
  exact kept

end Run

/-! ## The two passes -/

section Passes

/-- An orchestrator is active in two rounds. -/
def twoRounds : List RawEvent := [activated "0xa" 1, roundStarted 7 2, roundStarted 8 3]

variable (includeTentative : Bool) {db : Db}

/-- A pass that has not read the log walks all of it. -/
theorem profileBatch_of_unread (log : db.rawProtocolEvents = twoRounds)
    (unread : db.loadCheckpoint .stakerOrchProfile = none) :
    profileBatch includeTentative orchProfileBatchLimit db = twoRounds := by
  unfold profileBatch fetchOrchCandidatesAfter
  rw [unread, log]
  cases includeTentative <;> decide +kernel

/-- A pass that has been through the log walks its last block again. -/
theorem profileBatch_of_profiled (log : db.rawProtocolEvents = twoRounds)
    (profiled : db.loadCheckpoint .stakerOrchProfile = some 3) :
    profileBatch includeTentative orchProfileBatchLimit db = [roundStarted 8 3] := by
  unfold profileBatch fetchOrchCandidatesAfter
  rw [profiled, log]
  cases includeTentative <;> decide +kernel

/-- The first of them stores the first round. -/
theorem stored_of_unread (reads : OrchReads) (log : db.rawProtocolEvents = twoRounds)
    (unread : db.loadCheckpoint .stakerOrchProfile = none) :
    ("0xa", 7) ∈ (runProfileBackfill reads includeTentative orchProfileBatchLimit
      db).1.orchStakeByRound := by
  have batch := profileBatch_of_unread includeTentative log unread
  have given : RoundsGiven (profileBatch includeTentative orchProfileBatchLimit db) := by
    rw [batch]
    unfold RoundsGiven
    decide
  refine (grown_runProfileBackfill reads given).2 ("0xa", 7)
    (snapshotRow reads db.rawProtocolEvents (roundStarted 7 2) "0xa") ?_
  rw [batch]
  have introduced : "0xa" ∈ learned reads [activated "0xa" 1] := List.mem_toFinset.mpr
    (List.mem_filterMap.mpr ⟨activated "0xa" 1, List.mem_singleton_self _, rfl⟩)
  exact ⟨[activated "0xa" 1], roundStarted 7 2, [roundStarted 8 3], rfl, rfl, rfl,
    Finset.mem_union_right _ introduced, rfl⟩

/-- The second does not. -/
theorem missing_of_profiled (reads : OrchReads) (log : db.rawProtocolEvents = twoRounds)
    (rowless : db.orchStakeByRound = ∅)
    (profiled : db.loadCheckpoint .stakerOrchProfile = some 3) :
    ("0xa", 7) ∉ (runProfileBackfill reads includeTentative orchProfileBatchLimit
      db).1.orchStakeByRound := by
  have batch := profileBatch_of_profiled includeTentative log profiled
  have given : RoundsGiven (profileBatch includeTentative orchProfileBatchLimit db) := by
    rw [batch]
    unfold RoundsGiven
    decide
  intro stored
  obtain ⟨row, found⟩ := Finmap.mem_iff.mp stored
  rcases (grown_runProfileBackfill reads given).1.fresh ("0xa", 7) row found with old | ⟨_, offered⟩
  · rw [rowless] at old
    cases old
  · rw [batch] at offered
    obtain ⟨before, e, after, split, _, round, _⟩ := offered
    have last : e ∈ [roundStarted 8 3] := split ▸ by simp
    obtain rfl := List.mem_singleton.mp last
    cases round

end Passes

/-! ## Two databases -/

section Databases

/-- The log, and the two timestamps that its replay reads. -/
def indexed : Db :=
  persistReplayInputs 5000 4000 { Db.empty with rawProtocolEvents := twoRounds }

def cachedAnswers : CachedAnswers where
  logs := .empty
  pricing _ := steadyReads
  bonding := constantReads 0
  orchestrators := zeroReads
  receipts := ∅

/-- Nothing has been written behind the log. -/
def unwritten : ReplayDb :=
  { indexed with
    rpcCallCache := cachedAnswers
    seededEventPrices := []
    decodeFailures := ∅
    txReceipts := ∅
    txReceiptsCheckpoint := none
    broadcasterProfile := ∅ }

/-- The profile pass has been through the log. -/
def profiled : ReplayDb :=
  { unwritten with toDb := indexed.advanceCheckpoint .stakerOrchProfile 3 }

/-- A configuration without a source. -/
def sourceless (order : Seed.MapOrder) : Runtime where
  decoder := ⟨fun _ _ => [], fun _ _ _ => .error "no log", id⟩
  job contract := ⟨contract, "", "", ""⟩
  livepeerArbitrumGenesisBlock := 0
  defaultValuationVersion := twapVersion
  decimals := ⟨(· / ·), fun _ => ""⟩
  feeds := ⟨"0xp", "0xc", "0xs"⟩
  texts := Seed.asciiLibrary
  sourceSqlite := none
  archive := ⟨fun _ => .error "offline", fun _ => .error "offline"⟩
  live := id
  l1 := some (5000, 4000)
  now := 0
  ids _ _ _ := 0
  columns _ := activated "" 0
  joined _ := id
  joined_perm _ _ := List.Perm.refl _
  mapOrder := order

theorem agree_profiled (keepRawEvents : Bool) : AgreeOnInputs keepRawEvents unwritten profiled where
  rpcCallCache := rfl
  seededEventPrices := rfl
  broadcasterClassifications := rfl
  finality name recorded := by
    refine Db.loadCheckpoint_advanceCheckpoint_of_ne _ _ ?_
    rintro rfl
    cases recorded
  rawProtocolEvents _ := rfl
  decodeFailures _ := rfl

/-- **A replay that keeps the events stores the first round in one of them only.** -/
theorem keptReplays_differ (order : Seed.MapOrder) (opts : ReplayOpts) {toBlock : ℕ}
    (keep : opts.keepRawEvents = true) (bounded : opts.toBlock = some toBlock) :
    ¬ RelE SameContent (run (sourceless order) opts unwritten)
      (run (sourceless order) opts profiled) := by
  have recorded : Recorded (sourceless order) 5000 4000 unwritten.toDb := ⟨rfl, rfl, rfl⟩
  have recorded' : Recorded (sourceless order) 5000 4000 profiled.toDb := ⟨rfl, rfl, rfl⟩
  have rounds : OnlyRounds unwritten.rawProtocolEvents := by decide
  have rounds' : OnlyRounds profiled.rawProtocolEvents := rounds
  obtain ⟨reads, before, after, ran, rows, log, _, checkpoint⟩ :=
    run_of_rounds opts keep bounded rfl rounds recorded
  obtain ⟨reads', before', after', ran', rows', log', rowless, checkpoint'⟩ :=
    run_of_rounds opts keep bounded rfl rounds' recorded'
  have stored : ("0xa", 7) ∈ after.orchStakeByRound :=
    rows ▸ stored_of_unread _ reads log checkpoint
  have missing : ("0xa", 7) ∉ after'.orchStakeByRound :=
    rows' ▸ missing_of_profiled _ reads' log' rowless checkpoint'
  rw [ran, ran']
  intro same
  have equal : after'.orchStakeByRound = after.orchStakeByRound := by
    rw [same.tables]
  rw [equal] at missing
  exact missing stored

/-- Replays leave the same content, whatever was there before. -/
def Independent (opts : ReplayOpts) : Prop :=
  ∀ rt s s', AgreeOnInputs opts.keepRawEvents s s' →
    RelE SameContent (run rt opts s) (run rt opts s')

theorem not_independent_of_kept {opts : ReplayOpts} {toBlock : ℕ}
    (keep : opts.keepRawEvents = true) (bounded : opts.toBlock = some toBlock) :
    ¬ Independent opts := by
  intro agrees
  obtain ⟨order⟩ := Seed.mapOrder_nonempty
  exact keptReplays_differ order opts keep bounded
    (agrees (sourceless order) unwritten profiled (agree_profiled _))

/-- **Replays are independent of what was there before exactly if they do not keep the events**, or
refuse to run. -/
theorem independent_iff (opts : ReplayOpts) :
    Independent opts ↔ opts.keepRawEvents = false ∨ opts.toBlock = none := by
  constructor
  · intro agrees
    by_contra neither
    obtain ⟨kept, bounded⟩ := not_or.mp neither
    obtain ⟨toBlock, bounded⟩ := Option.ne_none_iff_exists'.mp bounded
    exact not_independent_of_kept (Bool.not_eq_false _ ▸ kept) bounded agrees
  · rintro (dropped | unbounded) rt s s' inputs
    · exact sameContent_run inputs fun kept => absurd kept (by simp [dropped])
    · unfold run
      rw [unbounded]
      rfl

/-- An operator's options for a replay of the stored log. -/
def keepingOpts : ReplayOpts where
  fromBlock := none
  toBlock := some 3
  version := none
  includeTentative := false
  keepRawEvents := true
  allowLiveRpc := false
  skipSeedImport := false
  skipCrossCheck := false

/-- After a profile pass a replay leaves the first round out. -/
theorem keptCheckpoint_skips_round : ¬ Independent keepingOpts :=
  not_independent_of_kept rfl rfl

end Databases

end ProtocolExplorer.Orchestrator
