import ProtocolExplorer.Store.Database

/-!
# The finality watcher

One iteration marks rows by block timestamp only: `l1_posted` up to the posting lag
behind L1 head, `finalized` up to a safety margin behind L1 finality.  Block hashes are
not looked at.  `run_once` first records both L1 timestamps, which is what
`run_once_replay` reads back.

`runWithTimestamps_rawProtocolEvents` says that an iteration acts row by row, and
`markRow_cases` lists what it can do to one row: leave it, post it, or stamp it
finalized at the current clock.  Everything else of the row is unchanged
(`markRow_toPreparedRow`, `markRow_id`, `markRow_isCanonical`).
-/

set_option autoImplicit false

namespace ProtocolExplorer.Finality

open ProtocolExplorer.Store

/-- `POSTING_LAG_SECS`. -/
def postingLagSecs : ℤ := 600

/-- `FINALITY_SAFETY_MARGIN_SECS`. -/
def finalitySafetyMarginSecs : ℤ := 60

/-! ## The two updates, on one row -/

/-- `SET finality = 'l1_posted'` on a tentative canonical row old enough. -/
def markL1Posted (cutoff : ℤ) (e : RawEvent) : RawEvent :=
  if e.finality = .tentative ∧ e.isCanonical = true ∧ e.blockTimestamp ≤ toTimestamp cutoff then
    { e with finality := .l1Posted }
  else e

/-- `SET finality = 'finalized', finalized_at = now()` on a canonical row old enough that is
not finalized yet. -/
def markFinalized (now : Timestamp) (cutoff : ℤ) (e : RawEvent) : RawEvent :=
  if (e.finality = .tentative ∨ e.finality = .l1Posted) ∧ e.isCanonical = true ∧
      e.blockTimestamp ≤ toTimestamp cutoff then
    { e with finality := .finalized, finalizedAt := some now }
  else e

/-- Both updates of one iteration. -/
def markRow (now : Timestamp) (latestTs finalizedTs : ℤ) (e : RawEvent) : RawEvent :=
  markFinalized now (finalizedTs - finalitySafetyMarginSecs)
    (markL1Posted (latestTs - postingLagSecs) e)

/-! ## The iteration -/

/-- `run_with_timestamps`, at clock `now`. -/
def runWithTimestamps (now : Timestamp) (latestTs finalizedTs : ℤ) (db : Db) : Db :=
  let l1PostedCutoff := latestTs - postingLagSecs
  let finalizedCutoff := finalizedTs - finalitySafetyMarginSecs
  let posted :=
    { db with rawProtocolEvents := db.rawProtocolEvents.map (markL1Posted l1PostedCutoff) }
  let finalized :=
    { posted with
      rawProtocolEvents := posted.rawProtocolEvents.map (markFinalized now finalizedCutoff) }
  finalized.advanceCheckpoint .finalityWatcher finalizedCutoff

/-- `persist_replay_inputs`. -/
def persistReplayInputs (latestTs finalizedTs : ℤ) (db : Db) : Db :=
  (db.setCheckpoint .replayFinalityLatestL1Ts latestTs).setCheckpoint
    .replayFinalityFinalizedL1Ts finalizedTs

/-- `run_once`, given the timestamps the L1 provider answered. -/
def runOnce (now : Timestamp) (latestTs finalizedTs : ℤ) (db : Db) : Db :=
  runWithTimestamps now latestTs finalizedTs (persistReplayInputs latestTs finalizedTs db)

/-- `run_once_replay`: fails when a recorded input is missing. -/
def runOnceReplay (now : Timestamp) (db : Db) : Option Db := do
  let latestTs ← db.loadCheckpoint .replayFinalityLatestL1Ts
  let finalizedTs ← db.loadCheckpoint .replayFinalityFinalizedL1Ts
  return runWithTimestamps now latestTs finalizedTs db

/-! ## What an iteration does to the rows -/

theorem runWithTimestamps_rawProtocolEvents (now : Timestamp) (latestTs finalizedTs : ℤ)
    (db : Db) :
    (runWithTimestamps now latestTs finalizedTs db).rawProtocolEvents =
      db.rawProtocolEvents.map (markRow now latestTs finalizedTs) := by
  simp only [runWithTimestamps, Db.advanceCheckpoint_rawProtocolEvents, List.map_map]
  rfl

@[simp] theorem runOnce_rawProtocolEvents (now : Timestamp) (latestTs finalizedTs : ℤ)
    (db : Db) :
    (runOnce now latestTs finalizedTs db).rawProtocolEvents =
      db.rawProtocolEvents.map (markRow now latestTs finalizedTs) :=
  runWithTimestamps_rawProtocolEvents ..

/-- An iteration only moves the finality checkpoints. -/
theorem loadCheckpoint_runOnce {name : CheckpointName} (now : Timestamp)
    (latestTs finalizedTs : ℤ) (db : Db) (own : name ≠ .finalityWatcher)
    (latest : name ≠ .replayFinalityLatestL1Ts)
    (finalized : name ≠ .replayFinalityFinalizedL1Ts) :
    (runOnce now latestTs finalizedTs db).loadCheckpoint name = db.loadCheckpoint name := by
  rw [runOnce, runWithTimestamps, Db.loadCheckpoint_advanceCheckpoint_of_ne _ _ own]
  show (persistReplayInputs latestTs finalizedTs db).loadCheckpoint name = _
  rw [persistReplayInputs, Db.loadCheckpoint_setCheckpoint_of_ne _ _ finalized,
    Db.loadCheckpoint_setCheckpoint_of_ne _ _ latest]

variable {now : Timestamp} {latestTs finalizedTs : ℤ} {e : RawEvent}

/-- What one iteration can do to a row. -/
theorem markRow_cases (now : Timestamp) (latestTs finalizedTs : ℤ) (e : RawEvent) :
    markRow now latestTs finalizedTs e = e ∨
      (e.finality = .tentative ∧ e.isCanonical = true ∧
        markRow now latestTs finalizedTs e = { e with finality := .l1Posted }) ∨
      (e.finality ≠ .finalized ∧ e.isCanonical = true ∧
        e.blockTimestamp ≤ toTimestamp (finalizedTs - finalitySafetyMarginSecs) ∧
        markRow now latestTs finalizedTs e =
          { e with finality := .finalized, finalizedAt := some now }) := by
  by_cases posts : e.finality = .tentative ∧ e.isCanonical = true ∧
      e.blockTimestamp ≤ toTimestamp (latestTs - postingLagSecs)
  · by_cases old : e.blockTimestamp ≤ toTimestamp (finalizedTs - finalitySafetyMarginSecs)
    · exact Or.inr (Or.inr ⟨by simp [posts.1], posts.2.1, old,
        by simp [markRow, markL1Posted, markFinalized, posts, old]⟩)
    · exact Or.inr (Or.inl ⟨posts.1, posts.2.1,
        by simp [markRow, markL1Posted, markFinalized, posts, old]⟩)
  · have kept : markL1Posted (latestTs - postingLagSecs) e = e := if_neg posts
    rw [markRow, kept, markFinalized]
    split
    · next finalizes =>
        refine Or.inr (Or.inr ⟨?_, finalizes.2.1, finalizes.2.2, rfl⟩)
        rcases finalizes.1 with tentative | posted
        · simp [tentative]
        · simp [posted]
    · exact Or.inl rfl

@[simp] theorem markRow_toPreparedRow :
    (markRow now latestTs finalizedTs e).toPreparedRow = e.toPreparedRow := by
  rcases markRow_cases now latestTs finalizedTs e with same | ⟨_, _, same⟩ | ⟨_, _, _, same⟩ <;>
    rw [same]

@[simp] theorem markRow_id : (markRow now latestTs finalizedTs e).id = e.id := by
  rcases markRow_cases now latestTs finalizedTs e with same | ⟨_, _, same⟩ | ⟨_, _, _, same⟩ <;>
    rw [same]

@[simp] theorem markRow_isCanonical :
    (markRow now latestTs finalizedTs e).isCanonical = e.isCanonical := by
  rcases markRow_cases now latestTs finalizedTs e with same | ⟨_, _, same⟩ | ⟨_, _, _, same⟩ <;>
    rw [same]

/-- A finalized row is never touched again. -/
theorem markRow_of_finalized (isFinal : e.finality = .finalized) :
    markRow now latestTs finalizedTs e = e := by
  rcases markRow_cases now latestTs finalizedTs e with same | ⟨tentative, _, _⟩ | ⟨pending, _⟩
  · exact same
  · rw [isFinal] at tentative
    cases tentative
  · exact absurd isFinal pending

/-- A row that is finalized after an iteration was finalized before it, or was canonical
and old enough and now carries the clock of the iteration. -/
theorem finalized_markRow
    (isFinal : (markRow now latestTs finalizedTs e).finality = .finalized) :
    markRow now latestTs finalizedTs e = e ∨
      (e.finality ≠ .finalized ∧ e.isCanonical = true ∧
        e.blockTimestamp ≤ toTimestamp (finalizedTs - finalitySafetyMarginSecs) ∧
        markRow now latestTs finalizedTs e =
          { e with finality := .finalized, finalizedAt := some now }) := by
  rcases markRow_cases now latestTs finalizedTs e with same | ⟨_, _, posted⟩ | stamped
  · exact Or.inl same
  · rw [posted] at isFinal
    cases isFinal
  · exact Or.inr stamped

end ProtocolExplorer.Finality
