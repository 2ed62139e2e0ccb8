import ProtocolExplorer.Indexer.Chunk
import ProtocolExplorer.Lib.AdaptiveChunks

/-!
# Driving a backfill

`drive_backfill` walks a block range in chunks of an adaptive size: a transient failure halves
the batch and tries the same start again, a success doubles it, anything else ends the walk.
`run_backfill` starts above the checkpoint unless it is told not to resume.

The surroundings of every chunk are arbitrary, so chunks succeed and fail in any order.

* `driveBackfill_laws` — **what holds of every walk**: its chunks, batch sizes, retries, end,
  coverage, and what it has committed.
-/

set_option autoImplicit false

namespace ProtocolExplorer.Indexer.Wire

open ProtocolExplorer.Lib
open ProtocolExplorer.Store

/-! ## The loop -/

/-- `DEFAULT_BATCH_BLOCKS`. -/
def defaultBatchBlocks : ℕ := 5000

/-- `MAX_BATCH_BLOCKS`. -/
def maxBatchBlocks : ℕ := 9000

/-- `MIN_BATCH_BLOCKS`. -/
def minBatchBlocks : ℕ := 100

/-- `MAX_RETRIES_PER_CHUNK`. -/
def maxRetriesPerChunk : ℕ := 50

def batchPolicy : ChunkPolicy where
  defaultBatch := defaultBatchBlocks
  minBatch := minBatchBlocks
  maxBatch := maxBatchBlocks
  maxRetries := maxRetriesPerChunk
  minBatch_pos := by decide
  minBatch_le := by decide
  le_maxBatch := by decide

/-- `msg.contains`. -/
def mentions (message text : String) : Bool := decide (text.toList <:+: message.toList)

/-- `is_transient`. -/
def isTransient : ChunkError → Bool
  | .strictHalt .. => false
  | .failed message =>
      !mentions message "strict-decode halt" &&
        (mentions message "HTTP error" || mentions message "timeout" || mentions message "rate" ||
          mentions message "status code: 429" || mentions message "status code: 5")

/-- The counters of `DriveSummary`; its final batch size is where the walk stands. -/
structure DriveSummary where
  chunks : ℕ
  logsSeen : ℕ
  eventsInserted : ℕ
  deadLettered : ℕ
  deriving DecidableEq

def DriveSummary.add (summary : DriveSummary) (chunk : ChunkSummary) : DriveSummary where
  chunks := summary.chunks + 1
  logsSeen := summary.logsSeen + chunk.logsSeen
  eventsInserted := summary.eventsInserted + chunk.eventsInserted
  deadLettered := summary.deadLettered + chunk.deadLettered

/-- What a walk carries from chunk to chunk; chunks are counted as they are tried. -/
structure DriveState where
  tried : ℕ
  cache : RpcCache
  db : IndexerDb
  summary : DriveSummary
  lastError : Option ChunkError

/-- A backfill that is about to start. -/
def DriveState.start (cache : RpcCache) (db : IndexerDb) : DriveState :=
  ⟨0, cache, db, ⟨0, 0, 0, 0⟩, none⟩

variable (decoder : Decoder) (job : BackfillJob)

/-- The body of the loop: a chunk in the surroundings of its turn. -/
def runChunk (weather : ℕ → Moment) (s : DriveState) (first last : ℕ) : DriveState × ChunkOutcome :=
  match backfillChunk decoder job (weather s.tried) first last s.cache s.db with
  | (cache, db, .ok chunk) =>
      ({ s with tried := s.tried + 1, cache, db, summary := s.summary.add chunk }, .done)
  | (cache, db, .error err) =>
      ({ s with tried := s.tried + 1, cache, db, lastError := some err },
        if isTransient err then .transient else .fatal)

/-- `drive_backfill`. -/
def driveBackfill (weather : ℕ → Moment) (fromBlock toBlock : ℕ) (s : DriveState) :
    Walk DriveState :=
  batchPolicy.walkRange (runChunk decoder job weather) fromBlock toBlock s

/-- `run_backfill`. -/
def runBackfill (weather : ℕ → Moment) (noResume : Bool) (fromBlock toBlock : ℕ) (cache : RpcCache)
    (db : IndexerDb) : Walk DriveState :=
  let actualFrom := if noResume then fromBlock else resumeFrom job fromBlock db
  driveBackfill decoder job weather actualFrom toBlock (.start cache db)

/-! ## What a walk commits -/

/-- The database with the commits of some chunks, in order. -/
inductive Commits (before : IndexerDb) : List (ℕ × ℕ) → IndexerDb → Prop
  | nothing : Commits before [] before
  | next {after : IndexerDb} {chunks : List (ℕ × ℕ)} (earlier : Commits before chunks after)
      (first last : ℕ) (ids : ℕ → ℤ) (prepared : List PreparedRow) (dead : List DeadLetterRow) :
      Commits before (chunks ++ [(first, last)]) (commitChunk job ids last prepared dead after)

/-- The stored checkpoint of a job. -/
def BackfillJob.checkpoint (db : IndexerDb) : Option ℤ :=
  db.indexerCheckpoints.lookup (checkpointName job.contract job.suffix)

/-- What holds of a walk over a range. -/
structure DriveLaws (fromBlock toBlock : ℕ) (s : DriveState) (w : Walk DriveState) : Prop where
  contiguous : Contiguous fromBlock w.committed
  ascending : w.committed.Pairwise fun a b => a.2 < b.1
  inRange : ∀ chunk ∈ w.committed, fromBlock ≤ chunk.1 ∧ chunk.1 ≤ chunk.2 ∧ chunk.2 ≤ toBlock
  batch : ∀ a ∈ w.attempts, minBatchBlocks ≤ a.batch ∧ a.batch ≤ maxBatchBlocks
  lastBatch : minBatchBlocks ≤ w.stand.batch ∧ w.stand.batch ≤ maxBatchBlocks
  /-- A start is tried once and retried at most so often. -/
  retries : ∀ n, w.tries n ≤ maxRetriesPerChunk + 1
  ends : w.result = .ok ∨ w.result = .error
  covers : w.result = .ok → ∀ n, fromBlock ≤ n → n ≤ toBlock →
    ∃ chunk ∈ w.committed, chunk.1 ≤ n ∧ n ≤ chunk.2
  /-- Failed chunks have left nothing. -/
  commits : Commits job s.db w.committed w.state.db
  checkpoint : job.checkpoint w.state.db =
    match w.committed.getLast? with
    | none => job.checkpoint s.db
    | some chunk => some ((job.checkpoint s.db).elim (chunk.2 : ℤ) fun previous =>
        max previous chunk.2)

section Laws

variable {decoder job} {weather : ℕ → Moment} {s : DriveState} {first last : ℕ}

/-- A chunk that is done has committed. -/
theorem runChunk_done (done : (runChunk decoder job weather s first last).2 = .done) :
    ∃ summary, backfillChunk decoder job (weather s.tried) first last s.cache s.db =
      ((runChunk decoder job weather s first last).1.cache,
        (runChunk decoder job weather s first last).1.db, .ok summary) := by
  unfold runChunk at done ⊢
  split at done
  · next ran => exact ⟨_, ran⟩
  · split_ifs at done

theorem runChunk_cache : (runChunk decoder job weather s first last).1.cache =
    (backfillChunk decoder job (weather s.tried) first last s.cache s.db).1 := by
  unfold runChunk
  generalize backfillChunk decoder job (weather s.tried) first last s.cache s.db = ran
  obtain ⟨cache, db, result⟩ := ran
  cases result <;> rfl

/-- A chunk that is not done has left the database alone. -/
theorem runChunk_failed (failed : (runChunk decoder job weather s first last).2 ≠ .done) :
    (runChunk decoder job weather s first last).1.db = s.db := by
  unfold runChunk at failed ⊢
  split at failed
  · exact absurd rfl failed
  · next ran => exact backfillChunk_error ran

theorem asI64_of_lt {n : ℕ} (small : n < 2 ^ 63) : asI64 n = n := by
  unfold asI64
  rw [Int.bmod_eq_of_le] <;> omega

@[simp] theorem checkpoint_commitChunk (ids : ℕ → ℤ) (chunkEnd : ℕ) (prepared : List PreparedRow)
    (dead : List DeadLetterRow) (db : IndexerDb) :
    job.checkpoint (commitChunk job ids chunkEnd prepared dead db) =
      some ((job.checkpoint db).elim (asI64 chunkEnd) fun previous =>
        max previous (asI64 chunkEnd)) :=
  Table.lookup_upsert_self ..

/-- The checkpoint is the maximum of the old one and the end of the last chunk. -/
theorem Commits.checkpoint_eq {db db' : IndexerDb} {chunks : List (ℕ × ℕ)}
    (committed : Commits job db chunks db') (small : ∀ chunk ∈ chunks, chunk.2 < 2 ^ 63)
    (ascending : chunks.Pairwise fun a b => a.2 ≤ b.2) :
    job.checkpoint db' =
      match chunks.getLast? with
      | none => job.checkpoint db
      | some chunk => some ((job.checkpoint db).elim (chunk.2 : ℤ) fun previous =>
          max previous chunk.2) := by
  induction committed with
  | nothing => rfl
  | @next after chunks earlier first last ids prepared dead inductionHypothesis =>
      obtain ⟨ascendingBefore, _, below⟩ := List.pairwise_append.mp ascending
      have before := inductionHypothesis
        (fun chunk member => small chunk (List.mem_append_left _ member)) ascendingBefore
      have own : last < 2 ^ 63 := small (first, last) (by simp)
      rw [checkpoint_commitChunk, before, asI64_of_lt own, List.getLast?_concat]
      cases reached : chunks.getLast? with
      | none => rfl
      | some chunk =>
          have smaller : (chunk.2 : ℤ) ≤ last := by
            exact_mod_cast below chunk (List.mem_of_getLast? reached) (first, last)
              (List.mem_singleton.mpr rfl)
          simp only [Option.elim_some]
          cases job.checkpoint db with
          | none => simp [max_eq_right smaller]
          | some previous => simp [max_assoc, max_eq_right smaller]

/-- **Every walk obeys its laws.** -/
theorem driveBackfill_laws (decoder : Decoder) (job : BackfillJob) (weather : ℕ → Moment)
    (fromBlock toBlock : ℕ) (s : DriveState) (small : toBlock < 2 ^ 63) :
    DriveLaws job fromBlock toBlock s (driveBackfill decoder job weather fromBlock toBlock s) := by
  have contiguous := ChunkPolicy.contiguous_walkRange batchPolicy (runChunk decoder job weather)
    fromBlock toBlock s
  have inside := ChunkPolicy.committed_walkRange_le batchPolicy (runChunk decoder job weather)
    fromBlock toBlock s
  have stand := ChunkPolicy.within_walkRange batchPolicy (runChunk decoder job weather)
    fromBlock toBlock s
  have commits : Commits job s.db (driveBackfill decoder job weather fromBlock toBlock s).committed
      (driveBackfill decoder job weather fromBlock toBlock s).state.db := by
    refine @ChunkPolicy.walkRange_invariant _ _ _ _ _ _
      (fun chunks (state : DriveState) => Commits job s.db chunks state.db) ?_ ?_ .nothing
    · intro chunks state first last earlier _ _ _ done
      obtain ⟨_, ran⟩ := runChunk_done done
      obtain ⟨_, dispatched, _, committed, _⟩ := backfillChunk_ok ran
      rw [committed]
      exact .next earlier first last _ _ _
    · intro chunks state first last earlier failed
      rw [runChunk_failed failed]
      exact earlier
  exact
    { contiguous
      ascending := contiguous.pairwise
      inRange := fun chunk member => ⟨contiguous.le_first chunk member,
        contiguous.first_le_last chunk member, inside chunk member⟩
      batch := ChunkPolicy.attempts_walkRange batchPolicy _ fromBlock toBlock s
      lastBatch := ⟨stand.min_le, stand.le_max⟩
      retries := ChunkPolicy.tries_walkRange_le batchPolicy _ fromBlock toBlock s
      ends := ChunkPolicy.walkRange_ends batchPolicy _ fromBlock toBlock s
      covers := fun succeeds n above below =>
        ChunkPolicy.walkRange_covers batchPolicy _ fromBlock toBlock s succeeds above below
      commits
      checkpoint := commits.checkpoint_eq
        (fun chunk member => lt_of_le_of_lt (inside chunk member) small)
        (contiguous.pairwise.imp_of_mem fun _ later ascending =>
          le_of_lt (lt_of_lt_of_le ascending (contiguous.first_le_last _ later))) }

end Laws

/-! ## A walk through bad weather -/

/-- Numbers its events, and reads one number from the data. -/
def plainDecoder : Decoder where
  signatureHash _ event := List.replicate 31 0 ++ [UInt8.ofNat event.ctorIdx]
  decodeLogData _ _ logData :=
    match logData.data with
    | [] => .error "buffer overrun"
    | amount :: _ => .ok ⟨fun _ => amount.toNat, fun name => "0x" ++ name, id, fun _ => []⟩
  toLowercase s := String.ofList (s.toList.map Char.toLower)

def plainJob : BackfillJob := ⟨.BondingManager, "", "0xbm", "0xabi"⟩

/-- There are no logs, and every third call fails. -/
def stormy (turn : ℕ) : Moment where
  archive :=
    { getLogs := fun _ => if turn % 3 = 0 then .error "hard timeout 90s exceeded" else .ok (some [])
      getBlockByNumber := fun _ => .error "no header" }
  commitFailure := none
  ids := fun _ => 0

theorem stormyWalk_laws : DriveLaws plainJob 0 12000 (.start .empty .empty)
    (driveBackfill plainDecoder plainJob stormy 0 12000 (.start .empty .empty)) :=
  driveBackfill_laws plainDecoder plainJob stormy 0 12000 (.start .empty .empty) (by decide)

example : (driveBackfill plainDecoder plainJob stormy 0 12000 (.start .empty .empty)).committed =
    [(0, 2499), (2500, 7499), (7500, 11999), (12000, 12000)] := by decide +kernel

end ProtocolExplorer.Indexer.Wire
