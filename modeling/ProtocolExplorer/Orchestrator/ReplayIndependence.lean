import ProtocolExplorer.Lib.Overlooked
import ProtocolExplorer.Orchestrator.Replay

/-!
# What a replay finds of an earlier run

A reset leaves `indexer_checkpoints` and the materialized views, in part or as they are.  The passes
before the profile pass overlook them, each but for its own checkpoint; the profile pass also looks
at a view, behind its checkpoint.

* `alike_truncateForReplay` — what two resets leave;
* `alike_runFlowBackfill`, `alike_runProfileBackfill`, `alike_runOnce` — what a pass reads of it;
* `sameContent_run` — **two replays with the same inputs leave the same content**, if they delete the
  checkpoints or find the same ones.
-/

set_option autoImplicit false

namespace ProtocolExplorer.Orchestrator

open ProtocolExplorer.Lib
open ProtocolExplorer.Store
open ProtocolExplorer.Staker
open ProtocolExplorer.Valuator
open ProtocolExplorer.Rollups
open ProtocolExplorer.Indexer

/-! ## What is left -/

/-- What a reset may leave of an earlier run. -/
structure Leftovers where
  indexerCheckpoints : Table CheckpointName ℤ
  orchestratorProfile : Table Address OrchestratorProfile

/-- A database with the leftovers of another one. -/
def leave (old : Leftovers) (db : Db) : Db :=
  { db with
    indexerCheckpoints := old.indexerCheckpoints
    orchestratorProfile := old.orchestratorProfile }

def leftoversOf (db : Db) : Leftovers := ⟨db.indexerCheckpoints, db.orchestratorProfile⟩

/-- The checkpoints that a replay reads. -/
def isRead : CheckpointName → Bool
  | .replayFinalityLatestL1Ts => true
  | .replayFinalityFinalizedL1Ts => true
  | .stakerFlowBackfillV2 => true
  | .stakerOrchProfile => true
  | .rollup name => decide (name ≠ .eventMetricsDaily)
  | .rollupReorg name => decide (name ≠ .eventMetricsDaily)
  | _ => false

/-- Two databases differ in leftovers only, and agree on the checkpoints that are read. -/
structure Alike (db db' : Db) : Prop where
  tables : ∃ old, db' = leave old db
  checkpoints : ∀ name, isRead name = true → db'.loadCheckpoint name = db.loadCheckpoint name

/-- And on the view that the profile pass reads behind its checkpoint. -/
structure AlikeWithProfiles (db db' : Db) : Prop extends Alike db db' where
  profiles : (db.loadCheckpoint .stakerOrchProfile).isSome = true →
    db'.orchestratorProfile = db.orchestratorProfile

/-- A program that overlooks leftovers keeps them. -/
theorem leftoversOf_of_overlooks {f : Db → Db} (overlooks : Overlooks leave leave f) (db : Db) :
    leftoversOf (f db) = leftoversOf db := by
  have same : f db = leave (leftoversOf db) (f db) := overlooks (leftoversOf db) db
  exact (congrArg leftoversOf same).trans rfl

section Alike

variable {db db' : Db}

/-- Leftovers that agree with those of a database agree with those of its results. -/
theorem Alike.of_leave {old : Leftovers} {after : Db}
    (same : ∀ name, isRead name = true →
      (leave old db).loadCheckpoint name = db.loadCheckpoint name)
    (kept : leftoversOf after = leftoversOf db) : Alike after (leave old after) := by
  refine ⟨⟨old, rfl⟩, fun name read => ?_⟩
  have checkpoints : after.indexerCheckpoints = db.indexerCheckpoints :=
    congrArg Leftovers.indexerCheckpoints kept
  have own : after.loadCheckpoint name = db.loadCheckpoint name :=
    congrArg (fun table => Finmap.lookup name table) checkpoints
  rw [own]
  exact same name read

theorem Alike.of_overlooks {f : Db → Db} (overlooks : Overlooks leave leave f)
    (alike : Alike db db') : Alike (f db) (f db') := by
  obtain ⟨⟨old, rfl⟩, same⟩ := alike
  rw [overlooks old db]
  exact Alike.of_leave same (leftoversOf_of_overlooks overlooks db)

theorem AlikeWithProfiles.of_overlooks {f : Db → Db} (overlooks : Overlooks leave leave f)
    (alike : AlikeWithProfiles db db') : AlikeWithProfiles (f db) (f db') := by
  refine ⟨alike.toAlike.of_overlooks overlooks, fun stored => ?_⟩
  have left := fun db => leftoversOf_of_overlooks overlooks db
  have own : ∀ db, (f db).orchestratorProfile = db.orchestratorProfile := fun db =>
    congrArg Leftovers.orchestratorProfile (left db)
  have kept : (f db).indexerCheckpoints = db.indexerCheckpoints :=
    congrArg Leftovers.indexerCheckpoints (left db)
  rw [own, own]
  rw [Db.loadCheckpoint, kept] at stored
  exact alike.profiles stored

theorem Alike.advanceCheckpoint (alike : Alike db db') (name : CheckpointName) (value : ℤ) :
    Alike (db.advanceCheckpoint name value) (db'.advanceCheckpoint name value) := by
  obtain ⟨⟨old, rfl⟩, same⟩ := alike
  refine ⟨⟨⟨((leave old db).advanceCheckpoint name value).indexerCheckpoints,
    old.orchestratorProfile⟩, rfl⟩, fun other read => ?_⟩
  rw [Db.loadCheckpoint_advanceCheckpoint, Db.loadCheckpoint_advanceCheckpoint]
  split
  · next own => rw [← own, same other read]
  · exact same other read

theorem Alike.setCheckpoint (alike : Alike db db') (name : CheckpointName) (value : ℤ) :
    Alike (db.setCheckpoint name value) (db'.setCheckpoint name value) := by
  obtain ⟨⟨old, rfl⟩, same⟩ := alike
  refine ⟨⟨⟨((leave old db).setCheckpoint name value).indexerCheckpoints,
    old.orchestratorProfile⟩, rfl⟩, fun other read => ?_⟩
  by_cases own : other = name
  · have stored : ∀ db : Db, (db.setCheckpoint name value).loadCheckpoint name = some value :=
      fun db => Table.lookup_upsert_self db.indexerCheckpoints name fun _ => value
    rw [own, stored, stored]
  · rw [Db.loadCheckpoint_setCheckpoint_of_ne _ _ own, Db.loadCheckpoint_setCheckpoint_of_ne _ _ own]
    exact same other read

theorem AlikeWithProfiles.advanceCheckpoint (alike : AlikeWithProfiles db db')
    {name : CheckpointName} (other : name ≠ .stakerOrchProfile) (value : ℤ) :
    AlikeWithProfiles (db.advanceCheckpoint name value) (db'.advanceCheckpoint name value) := by
  refine ⟨alike.toAlike.advanceCheckpoint name value, fun stored => ?_⟩
  rw [Db.loadCheckpoint_advanceCheckpoint_of_ne _ _ other.symm] at stored
  exact alike.profiles stored

theorem AlikeWithProfiles.setCheckpoint (alike : AlikeWithProfiles db db')
    {name : CheckpointName} (other : name ≠ .stakerOrchProfile) (value : ℤ) :
    AlikeWithProfiles (db.setCheckpoint name value) (db'.setCheckpoint name value) := by
  refine ⟨alike.toAlike.setCheckpoint name value, fun stored => ?_⟩
  rw [Db.loadCheckpoint_setCheckpoint_of_ne _ _ other.symm] at stored
  exact alike.profiles stored

end Alike

/-! ## The passes overlook the leftovers -/

section Valuator

variable {version : Version} {includeTentative : Bool} {seeds : List SeededPrice}

theorem overlooks_runSeedPass (now : Timestamp) :
    Overlooks leave leave (runSeedPass version includeTentative seeds now) := by
  intro old db
  have drained : drainSeeds version includeTentative seeds (leave old db) =
      leave old (drainSeeds version includeTentative seeds db) := by
    have batch : Overlooks leave leave
        fun db => (insertSeedBatch version includeTentative seeds db).2 := fun _ _ => rfl
    exact batch.iterate ((seedJoin version includeTentative seeds db).length + 1) old db
  have candidates : hasSeedCandidates version includeTentative seeds (leave old db) =
      hasSeedCandidates version includeTentative seeds db := rfl
  have gate : hasValuations version (leave old db) = hasValuations version db := rfl
  have cursors : (leave old db).valuatorCursors = db.valuatorCursors := rfl
  simp only [runSeedPass, candidates, drained, gate, cursors]
  split
  · rfl
  · split <;> split <;> rfl

theorem overlooksE_flushInto (buffers : BulkBuffers) :
    OverlooksE leave leave (flushInto buffers) := by
  have valuations : ∀ rows, OverlooksE leave leave (insertValuationsInto rows) := by
    intro rows old db
    unfold insertValuationsInto guardedWrite
    split <;> rfl
  have prices : ∀ rows, OverlooksE leave leave (insertPricesInto rows) := by
    intro rows old db
    unfold insertPricesInto guardedWrite
    split <;> rfl
  have attempt : ∀ rows, Overlooks leave leave (insertAttempts rows) := fun _ _ _ => rfl
  have attempts : Overlooks leave leave fun db : Db =>
      (buffers.attempts.toChunks flushThreshold).foldl (fun db rows => insertAttempts rows db) db :=
    overlooks_foldl attempt _
  exact OverlooksE.bind (OverlooksE.bind attempts.ok (overlooksE_foldlM prices _))
    (overlooksE_foldlM valuations _)

/-- The leftovers below a loop. -/
def leaveLoop (old : Leftovers) (loop : LptLoop) : LptLoop :=
  { loop with db := leave old loop.db }

theorem overlooksE_runOnchainPass (pass : PassName) (results : RawEvent → PricingResults)
    (joined : List RawEvent) :
    OverlooksE leave leave (runOnchainPass pass version results includeTentative joined) := by
  have body : ∀ e, OverlooksE leaveLoop leaveLoop (joinInto pass version results · e) := by
    intro e old loop
    unfold joinInto maybeFlushInto
    dsimp only [leaveLoop]
    split
    · rw [overlooksE_flushInto _ old loop.db]
      cases flushInto (recordEvent pass version (results e) e loop.buffers).1 loop.db <;> rfl
    · rfl
  have ending : OverlooksE leaveLoop leave fun loop : LptLoop =>
      flushInto loop.buffers loop.db >>= fun flushed =>
        .ok (advance (version, pass) loop.minUnresolved (frontierOf pass flushed) includeTentative
          flushed) := by
    intro old loop
    have last : OverlooksE leave leave fun flushed : Db =>
        (.ok (advance (version, pass) loop.minUnresolved (frontierOf pass flushed)
          includeTentative flushed) : Except String Db) := by
      refine Overlooks.ok fun old flushed => ?_
      have frontier : frontierOf pass (leave old flushed) = frontierOf pass flushed := rfl
      unfold advance
      rw [frontier]
      cases includeTentative <;> cases frontierOf pass flushed <;> rfl
    exact OverlooksE.bind last (overlooksE_flushInto loop.buffers) old loop.db
  intro old db
  exact OverlooksE.bind ending (overlooksE_foldlM body joined) old ⟨BulkBuffers.new, none, db⟩

theorem overlooksE_runAll (rt : Runtime) (opts : ReplayOpts) (version : Version)
    (answers : CachedAnswers) (seeds : List SeededPrice) :
    OverlooksE leave leave (runAll rt opts version answers seeds) := by
  have pricing : ∀ pass, OverlooksE leave leave (runPricing rt opts pass version answers) :=
    fun pass old db => overlooksE_runOnchainPass pass _
      (rt.joined pass (passCandidates pass version opts.includeTentative db)) old db
  intro old db
  unfold runAll
  rw [overlooks_runSeedPass]
  exact OverlooksE.bind (OverlooksE.bind (pricing .MULTI) (pricing .LPT)) (pricing .ETH) old _

end Valuator

section Staker

variable {includeTentative : Bool} {db db' : Db}

theorem overlooks_persistReplay (bucket : Address × List RawEvent) :
    Overlooks leave leave (persistReplay · bucket) := by
  have row : ∀ write, Overlooks leave leave (upsertStakeRow bucket.1 · write) := fun _ _ _ => rfl
  have registry : Overlooks leave leave fun stored : Db =>
      (replayDelegator bucket.1 bucket.2).registry.elim stored (upsertRegistry bucket.1 stored) := by
    intro old stored
    cases (replayDelegator bucket.1 bucket.2).registry <;> rfl
  exact registry.comp (overlooks_foldl row (replayDelegator bucket.1 bucket.2).rows)

/-- **The flow pass reads its own checkpoint only.** -/
theorem alike_runFlowBackfill (alike : AlikeWithProfiles db db') :
    AlikeWithProfiles (runFlowBackfill includeTentative db).1
      (runFlowBackfill includeTentative db').1 := by
  have checkpoint : db'.loadCheckpoint .stakerFlowBackfillV2 =
      db.loadCheckpoint .stakerFlowBackfillV2 := alike.checkpoints _ rfl
  have batch : flowBatch includeTentative db' = flowBatch includeTentative db := by
    obtain ⟨old, rfl⟩ := alike.tables
    unfold flowBatch
    rw [checkpoint]
    rfl
  have replays : flowReplays includeTentative db' = flowReplays includeTentative db := by
    unfold flowReplays
    rw [batch]
    obtain ⟨old, rfl⟩ := alike.tables
    rfl
  have target : flowTarget includeTentative db' = flowTarget includeTentative db := by
    unfold flowTarget
    rw [batch, checkpoint]
  rw [runFlowBackfill_fst, runFlowBackfill_fst, replays, target]
  exact (alike.of_overlooks (overlooks_foldl overlooks_persistReplay _)).advanceCheckpoint
    (by simp) _

theorem overlooksE_refreshPending (message : String) (reads : BondingReads) :
    OverlooksE leave leave fun db =>
      withContext message (refreshPending reads includeTentative db) := by
  intro old db
  have write : ∀ update, Overlooks leave leave (writePending · update) := fun _ _ _ => rfl
  have claimed : claims includeTentative (leave old db) = claims includeTentative db := rfl
  have reconciled : reconcileExactStakeRows reads (leave old db) =
      (reconcileExactStakeRows reads db).map (leave old) := by
    unfold reconcileExactStakeRows
    by_cases all : ∀ key ∈ db.stakeBalancesByBlock.keys, (reads.getDelegator key.1 key.2).isSome
    · rw [if_pos all]
      exact if_pos all
    · rw [if_neg all]
      exact if_neg all
  simp only [refreshPending, claimed, reconciled]
  cases reconcileExactStakeRows reads db with
  | none => rfl
  | some stored =>
      exact congrArg Except.ok (overlooks_foldl write _ old stored)

/-- The leftovers below a walk. -/
def leaveWalk (old : Leftovers) (walk : ProfileWalk) : ProfileWalk :=
  { walk with db := leave old walk.db }

theorem overlooks_profileStep (reads : OrchReads) (candidate : RawEvent) :
    Overlooks leaveWalk leaveWalk (profileStep reads · candidate) := by
  have insert : ∀ round snapshots,
      Overlooks leave leave (insertOrchStakeByRoundBatch candidate round snapshots) := by
    intro round snapshots old db
    cases round <;> rfl
  intro old walk
  unfold profileStep
  split
  · have snapshots : readSnapshots reads (leaveWalk old walk) candidate =
        readSnapshots reads walk candidate := rfl
    have db : (leaveWalk old walk).db = leave old walk.db := rfl
    have written : ∀ round, insertOrchStakeByRoundBatch candidate round
        (readSnapshots reads walk candidate) (leave old walk.db) =
          leave old (insertOrchStakeByRoundBatch candidate round
            (readSnapshots reads walk candidate) walk.db) := fun round => insert round _ old walk.db
    simp only [snapshots, db, written]
    rfl
  · rfl

/-- **The profile pass reads its own checkpoint, and behind it the view.** -/
theorem alike_runProfileBackfill (reads : OrchReads) (includeTentative : Bool) (limit : ℕ)
    (alike : AlikeWithProfiles db db') :
    Alike (runProfileBackfill reads includeTentative limit db).1
      (runProfileBackfill reads includeTentative limit db').1 := by
  have checkpoint : db'.loadCheckpoint .stakerOrchProfile = db.loadCheckpoint .stakerOrchProfile :=
    alike.checkpoints _ rfl
  obtain ⟨⟨⟨old, rfl⟩, same⟩, profiles⟩ := alike
  have known : loadKnownOrchestratorsBefore (db.loadCheckpoint .stakerOrchProfile) (leave old db) =
      loadKnownOrchestratorsBefore (db.loadCheckpoint .stakerOrchProfile) db := by
    unfold loadKnownOrchestratorsBefore
    cases stored : db.loadCheckpoint .stakerOrchProfile with
    | none => rfl
    | some block =>
        have view : (leave old db).orchestratorProfile = db.orchestratorProfile :=
          profiles (by rw [stored]; rfl)
        simp only [Option.elim_some, profiledBefore, view]
        rfl
  have batch : ∀ block, fetchOrchCandidatesAfter includeTentative block limit (leave old db) =
      fetchOrchCandidatesAfter includeTentative block limit db := fun _ => rfl
  have started : ∀ candidates,
      startWalk (db.loadCheckpoint .stakerOrchProfile) candidates (leave old db) =
        leaveWalk old (startWalk (db.loadCheckpoint .stakerOrchProfile) candidates db) := by
    intro candidates
    unfold startWalk
    rw [known]
    rfl
  have walked : ∀ candidates : List RawEvent, (candidates.foldl (profileStep reads)
      (startWalk (db.loadCheckpoint .stakerOrchProfile) candidates (leave old db))).db =
        leave old (candidates.foldl (profileStep reads)
          (startWalk (db.loadCheckpoint .stakerOrchProfile) candidates db)).db := by
    intro candidates
    rw [started]
    exact congrArg ProfileWalk.db (overlooks_foldl (overlooks_profileStep reads) candidates old _)
  have kept : ∀ candidates : List RawEvent, leftoversOf (candidates.foldl (profileStep reads)
      (startWalk (db.loadCheckpoint .stakerOrchProfile) candidates db)).db = leftoversOf db := by
    intro candidates
    have own := overlooks_foldl (overlooks_profileStep reads) candidates (leftoversOf db)
      (startWalk (db.loadCheckpoint .stakerOrchProfile) candidates db)
    exact (congrArg (fun walk => leftoversOf walk.db) own).trans rfl
  simp only [runProfileBackfill, checkpoint, batch, walked]
  have walkedAlike := Alike.of_leave same
    (kept (fetchOrchCandidatesAfter includeTentative (db.loadCheckpoint .stakerOrchProfile) limit db))
  cases ((fetchOrchCandidatesAfter includeTentative (db.loadCheckpoint .stakerOrchProfile) limit
      db).getLast?.map fun e => e.blockNumber).or (db.loadCheckpoint .stakerOrchProfile) with
  | none => exact walkedAlike
  | some block => exact walkedAlike.advanceCheckpoint _ block

end Staker

section Rollups

variable {Row Key Label Sums Stored : Type} [AddCommMonoid Sums] [AddCommMonoid Stored]
  [DecidableEq Label] [DecidableEq Key] {r : DailyRollup Row Key Label Sums Stored}
  {db db' : Db}

/-- The table of a rollup is not among the leftovers. -/
structure KeepsTables (r : DailyRollup Row Key Label Sums Stored) : Prop where
  table : ∀ old db, r.table (leave old db) = r.table db
  withTable : ∀ rows, Overlooks leave leave (r.withTable rows)

/-- **A rollup reads its two checkpoints only.** -/
theorem alike_runOnce (keeps : KeepsTables r) (named : r.name ≠ .eventMetricsDaily)
    (includeTentative : Bool) (limit : ℕ) (alike : Alike db db') :
    Alike (r.runOnce includeTentative limit db) (r.runOnce includeTentative limit db') := by
  have reorgs : Alike (r.processReorgMutations includeTentative db)
      (r.processReorgMutations includeTentative db') := by
    have checkpoint : db'.loadCheckpoint (.rollupReorg r.name) =
        db.loadCheckpoint (.rollupReorg r.name) := alike.checkpoints _ (by simpa [isRead] using named)
    obtain ⟨old, rfl⟩ := alike.tables
    have pending : r.pendingMutations (leave old db) = r.pendingMutations db := by
      unfold DailyRollup.pendingMutations
      rw [checkpoint]
      rfl
    have largest : r.maxMutationId (leave old db) = r.maxMutationId db := by
      unfold DailyRollup.maxMutationId
      rw [pending, checkpoint]
    have affected : r.affectedKeys includeTentative (leave old db) =
        r.affectedKeys includeTentative db := by
      unfold DailyRollup.affectedKeys
      rw [pending, keeps.table]
      rfl
    have rebuilt : ∀ keys, Overlooks leave leave (r.rebuildKeys includeTentative keys) := by
      intro keys old db
      unfold DailyRollup.rebuildKeys
      rw [keeps.table, keeps.withTable]
      rfl
    unfold DailyRollup.processReorgMutations
    rw [pending, largest, affected]
    split
    · exact alike
    · exact (alike.of_overlooks (rebuilt _)).advanceCheckpoint _ _
  unfold DailyRollup.runOnce
  generalize r.processReorgMutations includeTentative db = before at reorgs
  generalize r.processReorgMutations includeTentative db' = before' at reorgs
  have checkpoint : r.checkpoint before' = r.checkpoint before :=
    reorgs.checkpoints _ (by simpa [isRead] using named)
  obtain ⟨old, rfl⟩ := reorgs.tables
  have fetched : r.fetchRows includeTentative limit (leave old before) =
      r.fetchRows includeTentative limit before := by
    unfold DailyRollup.fetchRows DailyRollup.pendingRows
    rw [checkpoint]
    rfl
  have largest : ∀ rows, r.maxEventId rows (leave old before) = r.maxEventId rows before := by
    intro rows
    unfold DailyRollup.maxEventId
    rw [checkpoint]
  have upserted : ∀ rows keys, Overlooks leave leave (r.upsertBatch rows keys) := by
    intro rows keys old db
    unfold DailyRollup.upsertBatch
    rw [keeps.table, keeps.withTable]
    rfl
  rw [DailyRollup.foldBatch_eq, DailyRollup.foldBatch_eq, fetched, largest]
  exact (reorgs.of_overlooks (upserted _ _)).advanceCheckpoint _ _

end Rollups

/-! ## The stages -/

section Stages

variable {rt : Runtime} {opts : ReplayOpts} {db db' : Db}

theorem alike_runWithTimestamps (alike : AlikeWithProfiles db db') (now : Timestamp)
    (latestTs finalizedTs : ℤ) :
    AlikeWithProfiles (Finality.runWithTimestamps now latestTs finalizedTs db)
      (Finality.runWithTimestamps now latestTs finalizedTs db') := by
  have marks : Overlooks leave leave fun db : Db =>
      { db with rawProtocolEvents := (db.rawProtocolEvents.map (Finality.markL1Posted
          (latestTs - Finality.postingLagSecs))).map (Finality.markFinalized now
            (finalizedTs - Finality.finalitySafetyMarginSecs)) } := fun _ _ => rfl
  exact (alike.of_overlooks marks).advanceCheckpoint (by simp) _

theorem alike_runFinality (alike : AlikeWithProfiles db db') :
    RelE AlikeWithProfiles (runFinality rt opts db) (runFinality rt opts db') := by
  unfold runFinality
  split
  · cases rt.l1 with
    | none => rfl
    | some stamps =>
        obtain ⟨latestTs, finalizedTs⟩ := stamps
        exact alike_runWithTimestamps ((alike.setCheckpoint (by simp) latestTs).setCheckpoint
          (by simp) finalizedTs) rt.now latestTs finalizedTs
  · unfold Finality.runOnceReplay
    rw [alike.checkpoints .replayFinalityLatestL1Ts rfl,
      alike.checkpoints .replayFinalityFinalizedL1Ts rfl]
    cases db.loadCheckpoint .replayFinalityLatestL1Ts with
    | none => rfl
    | some latestTs =>
        cases db.loadCheckpoint .replayFinalityFinalizedL1Ts with
        | none => rfl
        | some finalizedTs => exact alike_runWithTimestamps alike rt.now latestTs finalizedTs

/-- A pass that overlooks the leftovers, in two runs. -/
theorem relE_of_overlooksE {f : Db → Except String Db} (overlooks : OverlooksE leave leave f)
    (alike : AlikeWithProfiles db db') : RelE AlikeWithProfiles (f db) (f db') := by
  obtain ⟨⟨⟨old, rfl⟩, same⟩, profiles⟩ := alike
  have own := overlooks (leftoversOf db) db
  rw [overlooks old db]
  cases result : f db with
  | error err => rfl
  | ok after =>
      have kept : leftoversOf after = leftoversOf db := by
        have again : f db = (f db).map (leave (leftoversOf db)) := own
        rw [result] at again
        exact (congrArg leftoversOf (Except.ok.inj again)).trans rfl
      refine ⟨Alike.of_leave same kept, fun stored => ?_⟩
      have checkpoints : after.indexerCheckpoints = db.indexerCheckpoints :=
        congrArg Leftovers.indexerCheckpoints kept
      rw [Db.loadCheckpoint, checkpoints] at stored
      exact (profiles stored).trans (congrArg Leftovers.orchestratorProfile kept).symm

theorem alike_runStakerAndRollups (answers : CachedAnswers) (alike : AlikeWithProfiles db db') :
    RelE Alike (runStakerAndRollups opts answers db) (runStakerAndRollups opts answers db') := by
  unfold runStakerAndRollups
  refine RelE.bind (relE_of_overlooksE (overlooksE_refreshPending _ _)
    (alike_runFlowBackfill alike)) fun pending pending' stakes => ?_
  have profiled := alike_runProfileBackfill answers.orchestrators opts.includeTentative
    orchProfileBatchLimit stakes
  have payouts := alike_runOnce (r := orchPayouts) ⟨fun _ _ => rfl, fun _ _ _ => rfl⟩ (by decide)
    opts.includeTentative rollupBatchLimit profiled
  have rewards := alike_runOnce (r := orchRewards) ⟨fun _ _ => rfl, fun _ _ _ => rfl⟩ (by decide)
    opts.includeTentative rollupBatchLimit payouts
  exact alike_runOnce (r := tickets) ⟨fun _ _ => rfl, fun _ _ _ => rfl⟩ (by decide)
    opts.includeTentative rollupBatchLimit rewards

theorem alike_rebuild (version : Version) (answers : CachedAnswers) (seeds : List SeededPrice)
    (alike : AlikeWithProfiles db db') :
    RelE Alike (rebuild rt opts version answers seeds db)
      (rebuild rt opts version answers seeds db') := by
  unfold rebuild
  exact (alike_runFinality alike).bind fun marked marked' marks =>
    (relE_of_overlooksE (overlooksE_runAll rt opts version answers seeds) marks).bind
      fun valued valued' values => alike_runStakerAndRollups answers values

end Stages

/-! ## The whole replay -/

/-- Two databases with the same inputs of a replay. -/
structure AgreeOnInputs (keepRawEvents : Bool) (s s' : ReplayDb) : Prop where
  rpcCallCache : s'.rpcCallCache = s.rpcCallCache
  seededEventPrices : s'.seededEventPrices = s.seededEventPrices
  broadcasterClassifications : s'.broadcasterClassifications = s.broadcasterClassifications
  finality : ∀ name, isReplayInput name = true → s'.loadCheckpoint name = s.loadCheckpoint name
  rawProtocolEvents : keepRawEvents = true → s'.rawProtocolEvents = s.rawProtocolEvents
  decodeFailures : keepRawEvents = true → s'.decodeFailures = s.decodeFailures

/-- The leftovers that a replay reads are the same. -/
structure SameLeftovers (s s' : ReplayDb) : Prop where
  checkpoints : ∀ name, isRead name = true → s'.loadCheckpoint name = s.loadCheckpoint name
  profiles : (s.loadCheckpoint .stakerOrchProfile).isSome = true →
    s'.orchestratorProfile = s.orchestratorProfile

/-- The same content in every table but `indexer_checkpoints`. -/
structure SameContent (s s' : ReplayDb) : Prop where
  tables : s'.toDb = { s.toDb with indexerCheckpoints := s'.indexerCheckpoints }
  decodeFailures : s'.decodeFailures = s.decodeFailures
  txReceipts : s'.txReceipts = s.txReceipts
  broadcasterProfile : s'.broadcasterProfile = s.broadcasterProfile

/-- Alike, with the same inputs of the passes. -/
structure PreparedAlike (s s' : ReplayDb) : Prop extends AlikeWithProfiles s.toDb s'.toDb where
  rpcCallCache : s'.rpcCallCache = s.rpcCallCache
  seededEventPrices : s'.seededEventPrices = s.seededEventPrices
  decodeFailures : s'.decodeFailures = s.decodeFailures
  txReceipts : s'.txReceipts = s.txReceipts

section Replay

variable {rt : Runtime} {opts : ReplayOpts} {s s' : ReplayDb}

/-- Both resets leave the same tables. -/
theorem truncated_tables {keepRawEvents : Bool} (inputs : AgreeOnInputs keepRawEvents s s') :
    (truncateForReplay keepRawEvents s').toDb =
      leave (leftoversOf (truncateForReplay keepRawEvents s').toDb)
        (truncateForReplay keepRawEvents s).toDb := by
  cases keepRawEvents with
  | true =>
      simp only [truncateForReplay, truncateDerived, if_true, leave, leftoversOf,
        inputs.broadcasterClassifications, inputs.rawProtocolEvents rfl]
  | false =>
      simp only [truncateForReplay, truncateDerived, Bool.false_eq_true, if_false, leave,
        leftoversOf, inputs.broadcasterClassifications]

theorem lookup_deleteCheckpoints (checkpoints : Table CheckpointName ℤ) (name : CheckpointName) :
    (deleteCheckpoints checkpoints).lookup name =
      if isReplayInput name = true then checkpoints.lookup name else none := by
  rw [deleteCheckpoints, Table.lookup_rewriteKeys]
  by_cases kept : isReplayInput name = true
  · rw [if_pos kept]
    split
    · rfl
    · next absent =>
        have missing : name ∉ checkpoints := fun stored =>
          absent (Finset.mem_filter.mpr ⟨Finmap.mem_keys.mpr stored, kept⟩)
        rw [Finmap.lookup_eq_none.mpr missing]
        rfl
  · have absent : name ∉ checkpoints.keys.filter fun name => isReplayInput name = true :=
      fun member => kept (Finset.mem_filter.mp member).2
    rw [if_neg kept, if_neg absent]
    rfl

/-- **A reset makes two databases alike**: one that keeps the raw events does if their leftovers
agree. -/
theorem alike_truncateForReplay {keepRawEvents : Bool} (inputs : AgreeOnInputs keepRawEvents s s')
    (left : keepRawEvents = true → SameLeftovers s s') :
    PreparedAlike (truncateForReplay keepRawEvents s) (truncateForReplay keepRawEvents s') := by
  cases keepRawEvents with
  | true =>
      exact
        { tables := ⟨_, truncated_tables inputs⟩
          checkpoints := (left rfl).checkpoints
          profiles := (left rfl).profiles
          rpcCallCache := inputs.rpcCallCache
          seededEventPrices := inputs.seededEventPrices
          decodeFailures := inputs.decodeFailures rfl
          txReceipts := rfl }
  | false =>
      have deleted : ∀ (s : ReplayDb) name, (truncateForReplay false s).loadCheckpoint name =
          if isReplayInput name = true then s.loadCheckpoint name else none :=
        fun s name => lookup_deleteCheckpoints s.indexerCheckpoints name
      refine
        { tables := ⟨_, truncated_tables inputs⟩
          checkpoints := fun name _ => ?_
          profiles := fun stored => ?_
          rpcCallCache := inputs.rpcCallCache
          seededEventPrices := inputs.seededEventPrices
          decodeFailures := rfl
          txReceipts := rfl }
      · rw [deleted, deleted]
        split
        · next kept => exact inputs.finality name kept
        · rfl
      · rw [deleted] at stored
        cases stored

theorem alike_importSource (alike : PreparedAlike s s') :
    PreparedAlike (importSource rt opts s) (importSource rt opts s') := by
  unfold importSource
  split
  · exact alike
  · cases rt.sourceSqlite with
    | none => exact alike
    | some source =>
        exact { alike with
          seededEventPrices := congrArg (importSeeds source.rows) alike.seededEventPrices }

theorem alike_indexAll (toBlock : ℕ) (alike : PreparedAlike s s') :
    RelE PreparedAlike (indexAll rt opts toBlock s) (indexAll rt opts toBlock s') := by
  unfold indexAll
  rw [alike.rpcCallCache]
  refine RelE.bind (RelE.refl _) fun indexed indexed' same => ?_
  subst same
  have events : Overlooks leave leave fun db : Db =>
      { db with rawProtocolEvents := eventsOf rt indexed.db.rawProtocolEvents } :=
    fun _ _ => rfl
  have advanced : AlikeWithProfiles
      (indexerCheckpoints indexed.db.indexerCheckpoints
        { s.toDb with rawProtocolEvents := eventsOf rt indexed.db.rawProtocolEvents })
      (indexerCheckpoints indexed.db.indexerCheckpoints
        { s'.toDb with rawProtocolEvents := eventsOf rt indexed.db.rawProtocolEvents }) := by
    refine List.foldl_rel (alike.toAlikeWithProfiles.of_overlooks events) fun contract _ _ _ same => ?_
    cases indexed.db.indexerCheckpoints.lookup (Wire.checkpointName contract "") with
    | none => exact same
    | some block => exact same.advanceCheckpoint (by simp) block
  exact
    { advanced with
      rpcCallCache := rfl
      seededEventPrices := alike.seededEventPrices
      decodeFailures := rfl
      txReceipts := alike.txReceipts }

theorem alike_prepare (toBlock : ℕ) (inputs : AgreeOnInputs opts.keepRawEvents s s')
    (left : opts.keepRawEvents = true → SameLeftovers s s') :
    RelE PreparedAlike (prepare rt opts toBlock s) (prepare rt opts toBlock s') := by
  have imported : PreparedAlike (importSource rt opts (truncateForReplay opts.keepRawEvents s))
      (importSource rt opts (truncateForReplay opts.keepRawEvents s')) :=
    alike_importSource (alike_truncateForReplay inputs left)
  unfold prepare
  dsimp only
  split
  · exact imported
  · exact alike_indexAll toBlock imported

theorem sameContent_finish {db db' : Db} (prepared : PreparedAlike s s') (rebuilt : Alike db db') :
    RelE SameContent (finish rt opts s db) (finish rt opts s' db') := by
  obtain ⟨old, rfl⟩ := rebuilt.tables
  have checked : crossCheck rt opts { s' with toDb := leave old db } =
      crossCheck rt opts { s with toDb := db } := rfl
  simp only [finish, checked]
  exact RelE.bind (RelE.refl _) fun _ _ _ =>
    ⟨rfl, prepared.decodeFailures, prepared.txReceipts, rfl⟩

/-- **A replay leaves the same content whatever it finds**, if it deletes the checkpoints, or finds
the same leftovers. -/
theorem sameContent_run (inputs : AgreeOnInputs opts.keepRawEvents s s')
    (left : opts.keepRawEvents = true → SameLeftovers s s') :
    RelE SameContent (run rt opts s) (run rt opts s') := by
  unfold run
  refine RelE.bind (RelE.refl _) fun toBlock toBlock' same => ?_
  subst same
  refine RelE.bind (alike_prepare toBlock inputs left) fun prepared prepared' alike => ?_
  have answers : answersOf rt opts prepared' = answersOf rt opts prepared := by
    unfold answersOf
    rw [alike.rpcCallCache]
  rw [answers, alike.seededEventPrices]
  exact RelE.bind (alike_rebuild _ _ _ alike.toAlikeWithProfiles) fun db db' rebuilt =>
    sameContent_finish alike rebuilt

end Replay

end ProtocolExplorer.Orchestrator
