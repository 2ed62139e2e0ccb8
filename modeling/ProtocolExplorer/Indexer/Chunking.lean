import ProtocolExplorer.Indexer.Drive
import ProtocolExplorer.Lib.Transition

/-!
# Chunking does not matter

A range is backfilled by any number of invocations: each resumes above the checkpoint or
starts over somewhere below it, each cuts the range into chunks as its failures make it, and
any of them may end in an error.  The provider serves a fixed chain, or fails.

* `ingested_invoke` — the step lemma: what an invocation has stored are logs of the range,
  and no block below the resume point is missing;
* `chunking_independent` — **two such executions that complete have stored the same rows and
  the same dead letters**, ids apart.
-/

set_option autoImplicit false

namespace ProtocolExplorer.Indexer.Wire

open ProtocolExplorer.Lib
open ProtocolExplorer.Store

/-! ## A fixed chain -/

/-- The logs of the job's contract and the header of every block. -/
structure Chain where
  logs : ℕ → List RawLog
  header : ℕ → Header

namespace Chain

variable (chain : Chain)

/-- The logs of a range of blocks. -/
def logsIn (first last : ℕ) : List RawLog :=
  (List.range' first (last + 1 - first)).flatMap chain.logs

variable {chain} in
theorem mem_logsIn {first last : ℕ} {raw : RawLog} :
    raw ∈ chain.logsIn first last ↔ ∃ n, first ≤ n ∧ n ≤ last ∧ raw ∈ chain.logs n := by
  simp only [logsIn, List.mem_flatMap, List.mem_range'_1]
  constructor
  · rintro ⟨n, ⟨above, below⟩, member⟩
    exact ⟨n, above, by omega, member⟩
  · rintro ⟨n, above, below, member⟩
    exact ⟨n, ⟨above, by omega⟩, member⟩

/-- `eth_getLogs` returns the logs of the requested range. -/
def ServesLogs (job : BackfillJob) (call : LogsCall) (answer : Option (List RawLog)) : Prop :=
  ∀ first last, call = job.logsCall first last → answer = some (chain.logsIn first last)

/-- `eth_getBlockByNumber` returns the header of the block. -/
def ServesHeader (number : ℕ) (header : Header) : Prop := header = chain.header number

/-- The timestamps of the chain. -/
def timestampOf (number : ℕ) : Option ℤ := (secondsOf (chain.header number)).toOption

end Chain

/-- The canonical identity of a log. -/
def identity (decoder : Decoder) (raw : RawLog) : Option (TxHash × ℤ) :=
  (u32FromHex raw.logIndex).toOption.map fun index =>
    (decoder.toLowercase raw.transactionHash, asI32 index)

/-- No two logs of a range have one identity. -/
def DistinctLogs (decoder : Decoder) (chain : Chain) (first last : ℕ) : Prop :=
  ∀ raw ∈ chain.logsIn first last, ∀ other ∈ chain.logsIn first last, ∀ key,
    identity decoder raw = some key → identity decoder other = some key → raw = other

section Identity

variable {decoder : Decoder} {raw : RawLog} {blockTs : ℕ → Option ℤ}

/-- A decoded row has the identity of its log. -/
theorem identity_of_decoded {contract : ContractKind} {row : PreparedRow}
    (decoded : decoder.decodeOne contract raw blockTs = .decoded row) :
    identity decoder raw = some row.key := by
  obtain ⟨envelope, event, fields, parsed, _, rfl⟩ := Decoder.decodeOne_decoded decoded
  simp [identity, parsed.logIndex, Except.toOption, PreparedRow.key, Decoder.rowOf]

/-- So has a dead letter. -/
theorem identity_of_deadLetter {abiHash message : String} {dead : DeadLetterRow}
    (made : decoder.deadLetter raw abiHash message = .ok dead) :
    identity decoder raw = some dead.key := by
  obtain ⟨blockNumber, logIndex, data, _, index, _, rfl⟩ := Decoder.deadLetter_ok made
  simp [identity, index, Except.toOption, DeadLetterRow.key]

end Identity

/-! ## Invocations -/

/-- A call of `run_backfill`. -/
structure Invocation where
  noResume : Bool
  fromBlock : ℕ
  toBlock : ℕ
  weather : ℕ → Moment

/-- What invocations leave behind, and whether one has succeeded up to the end of the range. -/
structure BackfillState where
  cache : RpcCache
  db : IndexerDb
  complete : Bool

variable (decoder : Decoder) (job : BackfillJob) (chain : Chain) (origin bound : ℕ)

def invoke (s : BackfillState) (inv : Invocation) : Option BackfillState :=
  let w := runBackfill decoder job inv.weather inv.noResume inv.fromBlock inv.toBlock s.cache s.db
  some
    { cache := w.state.cache
      db := w.state.db
      complete := s.complete || decide (inv.toBlock = bound ∧ w.result = .ok) }

/-- Invocations inside the range that leave no gap above the resume point, while the provider
serves the chain or fails. -/
structure Overlaps (s : BackfillState) (inv : Invocation) : Prop where
  inside : origin ≤ inv.fromBlock ∧ inv.toBlock ≤ bound
  noGap : inv.fromBlock ≤ resumeFrom job origin s.db
  serves : ∀ turn, (inv.weather turn).archive.Answers (chain.ServesLogs job) chain.ServesHeader

/-! ## What has been stored -/

/-- A row of a log of the range. -/
def OfferedEvent (key : TxHash × ℤ) (stored : StoredRow) : Prop :=
  stored.abiHash = job.abiHash ∧ stored.row.key = key ∧ ∃ raw ∈ chain.logsIn origin bound,
    route decoder job raw chain.timestampOf = .ok (.row stored.row)

/-- A dead letter of a log of the range. -/
def OfferedFailure (key : TxHash × ℤ) (dead : DeadLetterRow) : Prop :=
  dead.key = key ∧ ∃ raw ∈ chain.logsIn origin bound,
    route decoder job raw chain.timestampOf = .ok (.deadLetter dead)

/-- Where a log goes, there is a row of its identity. -/
def StoredIn (db : IndexerDb) (raw : RawLog) : Prop :=
  (∀ row, route decoder job raw chain.timestampOf = .ok (.row row) →
    row.key ∈ db.rawProtocolEvents) ∧
  ∀ dead, route decoder job raw chain.timestampOf = .ok (.deadLetter dead) →
    dead.key ∈ db.decodeFailures

/-- The tables have grown by logs of the range, and miss no log below a frontier. -/
structure Ingested (before after : IndexerDb) (reached : ℕ) : Prop where
  events : Table.Grown (OfferedEvent decoder job chain origin bound) before.rawProtocolEvents
    after.rawProtocolEvents
  failures : Table.Grown (OfferedFailure decoder job chain origin bound) before.decodeFailures
    after.decodeFailures
  stored : ∀ n, origin ≤ n → n < reached → ∀ raw ∈ chain.logs n, StoredIn decoder job chain after raw

/-- What an execution keeps: cached answers are the chain's, and no log below the resume point
is missing, nor any of the range once it is complete. -/
structure Keeps (before : IndexerDb) (s : BackfillState) : Prop where
  answered : s.cache.Answered (chain.ServesLogs job) chain.ServesHeader
  ingested : ∃ reached, Ingested decoder job chain origin bound before s.db reached ∧
    resumeFrom job origin s.db ≤ reached ∧ (s.complete = true → bound < reached)

section Steps

variable {decoder job chain origin bound} {before db db' : IndexerDb} {reached : ℕ}

theorem StoredIn.mono {raw : RawLog} (events : ∀ key, key ∈ db.rawProtocolEvents →
      key ∈ db'.rawProtocolEvents) (failures : ∀ key, key ∈ db.decodeFailures →
        key ∈ db'.decodeFailures) (stored : StoredIn decoder job chain db raw) :
    StoredIn decoder job chain db' raw :=
  ⟨fun row routed => events _ (stored.1 row routed),
    fun dead routed => failures _ (stored.2 dead routed)⟩

/-- The cached timestamp of a block is the chain's. -/
theorem timestampOf_eq {cache : RpcCache} (answered : cache.Answered (chain.ServesLogs job)
      chain.ServesHeader) {number : ℕ} (present : (cache.timestampOf number).isSome) :
    cache.timestampOf number = chain.timestampOf number := by
  unfold RpcCache.timestampOf at present ⊢
  cases found : cache.headers.lookup number with
  | none =>
      rw [found] at present
      cases present
  | some header =>
      rw [Option.bind_some, answered.headers number header found]
      rfl

theorem asU64_asI64_le (n : ℕ) : asU64 (asI64 n) ≤ n := by
  have same : Int.bmod n (2 ^ 64) % ((2 ^ 64 : ℕ) : ℤ) = (n : ℤ) % ((2 ^ 64 : ℕ) : ℤ) :=
    Int.bmod_emod
  unfold asU64 asI64
  norm_num at same ⊢
  rw [same]
  omega

theorem asU64_le (n : ℤ) : asU64 n ≤ u64Max := by
  unfold asU64 u64Max
  omega

/-- Where a checkpoint resumes. -/
theorem resumeFrom_of_checkpoint {cp : ℤ} (stored : job.checkpoint db = some cp) :
    resumeFrom job origin db =
      if origin ≤ asU64 cp then min (asU64 cp + 1) u64Max else origin := by
  rw [BackfillJob.checkpoint] at stored
  rw [resumeFrom, stored]

theorem resumeFrom_of_none (stored : job.checkpoint db = none) :
    resumeFrom job origin db = origin := by
  rw [BackfillJob.checkpoint] at stored
  rw [resumeFrom, stored]

theorem le_resumeFrom : origin ≤ resumeFrom job origin db := by
  cases stored : job.checkpoint db with
  | none => exact (resumeFrom_of_none stored).ge
  | some cp =>
      have most := asU64_le cp
      rw [resumeFrom_of_checkpoint stored]
      split_ifs with passed
      · exact le_min (passed.trans (Nat.le_succ _)) (passed.trans most)
      · exact le_refl _

/-- A commit keeps the checkpoint or moves it to the end of the chunk. -/
theorem checkpoint_commitChunk_cases (ids : ℕ → ℤ) (chunkEnd : ℕ) (prepared : List PreparedRow)
    (dead : List DeadLetterRow) :
    ∃ cp, job.checkpoint (commitChunk job ids chunkEnd prepared dead db) = some cp ∧
      (cp = asI64 chunkEnd ∨ job.checkpoint db = some cp) := by
  -- stated for variables, so that no cast is unfolded
  have either : ∀ a b : ℤ, max a b = a ∨ max a b = b := fun a b => max_choice a b
  rw [checkpoint_commitChunk]
  cases job.checkpoint db with
  | none =>
      rw [Option.elim_none]
      exact ⟨_, rfl, Or.inl rfl⟩
  | some previous =>
      rw [Option.elim_some]
      rcases either previous (asI64 chunkEnd) with same | same
      · exact ⟨previous, congrArg some same, Or.inr rfl⟩
      · exact ⟨_, congrArg some same, Or.inl rfl⟩

/-- The resume point moves to the end of the chunk at most. -/
theorem resumeFrom_commitChunk_le (ids : ℕ → ℤ) (chunkEnd : ℕ) (prepared : List PreparedRow)
    (dead : List DeadLetterRow) :
    resumeFrom job origin (commitChunk job ids chunkEnd prepared dead db) ≤
      max (resumeFrom job origin db) (chunkEnd + 1) := by
  obtain ⟨cp, advanced, rfl | kept⟩ := @checkpoint_commitChunk_cases job db ids chunkEnd prepared dead
  · have atMost := asU64_asI64_le chunkEnd
    rw [resumeFrom_of_checkpoint advanced]
    split_ifs
    · exact le_max_of_le_right ((min_le_left _ _).trans (Nat.succ_le_succ atMost))
    · exact le_max_of_le_left le_resumeFrom
  · rw [resumeFrom_of_checkpoint advanced, ← resumeFrom_of_checkpoint kept]
    exact le_max_left _ _

/-- **A chunk that succeeds has ingested its blocks.** -/
theorem ingested_chunk {moment : Moment} {first last : ℕ} {cache cache' : RpcCache}
    {summary : ChunkSummary} (holds : Ingested decoder job chain origin bound before db reached)
    (answered : cache'.Answered (chain.ServesLogs job) chain.ServesHeader)
    (above : origin ≤ first) (noGap : first ≤ reached) (below : last ≤ bound)
    (ran : backfillChunk decoder job moment first last cache db = (cache', db', .ok summary)) :
    Ingested decoder job chain origin bound before db' (max reached (last + 1)) := by
  obtain ⟨raws, dispatched, fetched, rfl, each, all, _⟩ := backfillChunk_ok ran
  obtain rfl : raws = chain.logsIn first last :=
    Option.some.inj (answered.logs _ _ fetched first last rfl)
  have sameRoute : ∀ raw ∈ chain.logsIn first last,
      route decoder job raw cache'.timestampOf = route decoder job raw chain.timestampOf := by
    intro raw member
    obtain ⟨⟨number, own, present⟩, _⟩ := each raw member
    refine route_congr fun number' own' => ?_
    cases own.symm.trans own'
    exact timestampOf_eq answered present
  have inRange : ∀ raw ∈ chain.logsIn first last, raw ∈ chain.logsIn origin bound := by
    intro raw member
    obtain ⟨n, from_first, to_last, own⟩ := Chain.mem_logsIn.mp member
    exact Chain.mem_logsIn.mpr ⟨n, above.trans from_first, to_last.trans below, own⟩
  have routed : ∀ routed, dispatched.Has routed ↔ ∃ raw ∈ chain.logsIn first last,
      route decoder job raw chain.timestampOf = .ok routed := by
    intro routed
    rw [all]
    constructor
    · rintro ⟨raw, member, own⟩
      exact ⟨raw, member, sameRoute raw member ▸ own⟩
    · rintro ⟨raw, member, own⟩
      exact ⟨raw, member, (sameRoute raw member).symm ▸ own⟩
  have events : Table.Grown (OfferedEvent decoder job chain origin bound) db.rawProtocolEvents
      (commitChunk job moment.ids last dispatched.prepared dispatched.deadLetters
        db).rawProtocolEvents := by
    refine Table.grown_foldl_insertNew _ _ (fun w listed => ⟨rfl, rfl, ?_⟩) _
    have prepared : dispatched.Has (.row w.2) := (mem_numbered moment.ids).mp ⟨w.1, listed⟩
    obtain ⟨raw, member, own⟩ := (routed _).mp prepared
    exact ⟨raw, inRange raw member, own⟩
  have failures : Table.Grown (OfferedFailure decoder job chain origin bound) db.decodeFailures
      (commitChunk job moment.ids last dispatched.prepared dispatched.deadLetters
        db).decodeFailures := by
    refine Table.grown_foldl_insertNew DeadLetterRow.key id (fun dead listed => ⟨rfl, ?_⟩) _
    have made : dispatched.Has (.deadLetter dead) := listed
    obtain ⟨raw, member, own⟩ := (routed _).mp made
    exact ⟨raw, inRange raw member, own⟩
  refine ⟨holds.events.trans events, holds.failures.trans failures,
    fun n fromOrigin upTo raw onChain => ?_⟩
  by_cases earlier : n < reached
  · exact (holds.stored n fromOrigin earlier raw onChain).mono (fun _ => events.mem)
      fun _ => failures.mem
  · have member : raw ∈ chain.logsIn first last :=
      Chain.mem_logsIn.mpr ⟨n, by omega, by omega, onChain⟩
    refine ⟨fun row own => ?_, fun dead own => ?_⟩
    · exact mem_insertEvents.mpr (Or.inr ⟨row, (routed (.row row)).mpr ⟨raw, member, own⟩, rfl⟩)
    · exact mem_insertDeadLetters.mpr
        (Or.inr ⟨dead, (routed (.deadLetter dead)).mpr ⟨raw, member, own⟩, rfl⟩)

/-- Where an invocation starts. -/
def Invocation.actualFrom (inv : Invocation) (job : BackfillJob) (db : IndexerDb) : ℕ :=
  if inv.noResume then inv.fromBlock else resumeFrom job inv.fromBlock db

/-- An invocation that leaves no gap starts inside the range and below the resume point. -/
theorem actualFrom_bounds {s : BackfillState} {inv : Invocation}
    (overlaps : Overlaps job chain origin bound s inv) :
    origin ≤ inv.actualFrom job s.db ∧ inv.actualFrom job s.db ≤ resumeFrom job origin s.db := by
  have inside := overlaps.inside.1
  have noGap := overlaps.noGap
  unfold Invocation.actualFrom
  split_ifs
  · exact ⟨inside, noGap⟩
  · refine ⟨inside.trans le_resumeFrom, ?_⟩
    cases stored : job.checkpoint s.db with
    | none =>
        rw [resumeFrom_of_none stored]
        exact noGap
    | some cp =>
        by_cases own : inv.fromBlock ≤ asU64 cp
        · rw [resumeFrom_of_checkpoint stored, resumeFrom_of_checkpoint stored, if_pos own,
            if_pos (inside.trans own)]
        · rw [resumeFrom_of_checkpoint stored, if_neg own]
          exact noGap

/-- **An invocation keeps what executions keep.** -/
theorem keeps_invoke {s s' : BackfillState} {inv : Invocation}
    (holds : Keeps decoder job chain origin bound before s)
    (overlaps : Overlaps job chain origin bound s inv)
    (invoked : invoke decoder job bound s inv = some s') :
    Keeps decoder job chain origin bound before s' := by
  cases invoked
  obtain ⟨reached, ingested, resumes, completed⟩ := holds.ingested
  obtain ⟨above, belowResume⟩ := actualFrom_bounds overlaps
  have walked := @ChunkPolicy.walkRange_invariant _ batchPolicy (runChunk decoder job inv.weather)
    (inv.actualFrom job s.db) inv.toBlock (.start s.cache s.db)
    (fun chunks (state : DriveState) =>
      state.cache.Answered (chain.ServesLogs job) chain.ServesHeader ∧
        ∃ now, Ingested decoder job chain origin bound before state.db now ∧
          resumeFrom job origin state.db ≤ now ∧ reached ≤ now ∧
            frontier (inv.actualFrom job s.db) chunks ≤ now ∧
              origin ≤ frontier (inv.actualFrom job s.db) chunks)
    ?_ ?_ ⟨holds.answered, reached, ingested, resumes, le_refl _, belowResume.trans resumes, above⟩
  · obtain ⟨answered, now, ingestedNow, resumesNow, later, past, _⟩ := walked
    refine ⟨answered, now, ingestedNow, resumesNow, fun complete => ?_⟩
    rcases Bool.or_eq_true_iff.mp complete with before | own
    · exact lt_of_lt_of_le (completed before) later
    · obtain ⟨toEnd, succeeded⟩ := of_decide_eq_true own
      have covered := ChunkPolicy.lt_frontier_walkRange batchPolicy
        (runChunk decoder job inv.weather) (inv.actualFrom job s.db) inv.toBlock
        (.start s.cache s.db) succeeded
      rw [toEnd] at covered
      exact lt_of_lt_of_le covered (toEnd ▸ past)
  · rintro chunks state first last ⟨answered, now, ingestedNow, resumesNow, later, past, fromOrigin⟩
      rfl nonempty inRange done
    obtain ⟨summary, ran⟩ := runChunk_done done
    have answeredAfter := @backfillChunk_answered decoder job (inv.weather state.tried)
      (frontier (inv.actualFrom job s.db) chunks) last state.cache state.db _ _
      (overlaps.serves state.tried) answered
    rw [ran] at answeredAfter
    have ingestedAfter := ingested_chunk ingestedNow answeredAfter fromOrigin past
      (inRange.trans overlaps.inside.2) ran
    obtain ⟨_, _, _, committed, _⟩ := backfillChunk_ok ran
    refine ⟨answeredAfter, max now (last + 1), ingestedAfter, ?_, le_max_of_le_left later, ?_, ?_⟩
    · rw [committed]
      exact (resumeFrom_commitChunk_le ..).trans (max_le_max_right _ resumesNow)
    · rw [frontier_append]
      exact le_max_right _ _
    · rw [frontier_append]
      exact (fromOrigin.trans nonempty).trans (Nat.le_succ _)
  · rintro chunks state first last ⟨answered, now, rest⟩ failed
    refine ⟨?_, now, ?_⟩
    · rw [runChunk_cache]
      exact backfillChunk_answered (overlaps.serves state.tried) answered
    · rw [runChunk_failed failed]
      exact rest

end Steps

/-! ## The result -/

/-- The same rows of logs and the same dead letters; the ids of rows may differ. -/
structure SameContents (db db' : IndexerDb) : Prop where
  events : ∀ key, (db.rawProtocolEvents.lookup key).map (fun stored => (stored.row, stored.abiHash)) =
    (db'.rawProtocolEvents.lookup key).map fun stored => (stored.row, stored.abiHash)
  failures : db.decodeFailures = db'.decodeFailures

variable {decoder job chain origin bound}

theorem identity_of_row {raw : RawLog} {row : PreparedRow} {blockTs : ℕ → Option ℤ}
    (routed : route decoder job raw blockTs = .ok (.row row)) :
    identity decoder raw = some row.key :=
  identity_of_decoded (route_row_iff.mp routed)

theorem identity_of_failure {raw : RawLog} {dead : DeadLetterRow} {blockTs : ℕ → Option ℤ}
    (routed : route decoder job raw blockTs = .ok (.deadLetter dead)) :
    identity decoder raw = some dead.key := by
  obtain ⟨message, made⟩ := route_deadLetter routed
  exact identity_of_deadLetter made

/-- Complete executions store the same identities. -/
theorem Ingested.mem_of_complete {before db db' : IndexerDb} {reached reached' : ℕ}
    (first : Ingested decoder job chain origin bound before db reached)
    (second : Ingested decoder job chain origin bound before db' reached') (past : bound < reached') :
    (∀ key, key ∈ db.rawProtocolEvents → key ∈ db'.rawProtocolEvents) ∧
      ∀ key, key ∈ db.decodeFailures → key ∈ db'.decodeFailures := by
  constructor
  · intro key member
    obtain ⟨stored, found⟩ := Finmap.mem_iff.mp member
    rcases first.events.fresh key stored found with old | ⟨_, _, rfl, raw, listed, routed⟩
    · exact Finmap.mem_iff.mpr ⟨stored, second.events.kept key stored old⟩
    · obtain ⟨n, above, below, onChain⟩ := Chain.mem_logsIn.mp listed
      exact (second.stored n above (lt_of_le_of_lt below past) raw onChain).1 _ routed
  · intro key member
    obtain ⟨dead, found⟩ := Finmap.mem_iff.mp member
    rcases first.failures.fresh key dead found with old | ⟨_, rfl, raw, listed, routed⟩
    · exact Finmap.mem_iff.mpr ⟨dead, second.failures.kept key dead old⟩
    · obtain ⟨n, above, below, onChain⟩ := Chain.mem_logsIn.mp listed
      exact (second.stored n above (lt_of_le_of_lt below past) raw onChain).2 _ routed

/-- **Two complete executions over one range have stored the same.** -/
theorem chunking_independent (decoder : Decoder) (job : BackfillJob) (chain : Chain)
    (origin bound : ℕ) (distinct : DistinctLogs decoder chain origin bound) (db : IndexerDb)
    (fresh : resumeFrom job origin db = origin) {cache cache' : RpcCache}
    (answered : cache.Answered (chain.ServesLogs job) chain.ServesHeader)
    (answered' : cache'.Answered (chain.ServesLogs job) chain.ServesHeader)
    {s s' : BackfillState}
    (run : GuardedRun (invoke decoder job bound) (Overlaps job chain origin bound)
      ⟨cache, db, false⟩ s)
    (run' : GuardedRun (invoke decoder job bound) (Overlaps job chain origin bound)
      ⟨cache', db, false⟩ s')
    (complete : s.complete = true) (complete' : s'.complete = true) :
    SameContents s.db s'.db := by
  have start : Ingested decoder job chain origin bound db db origin :=
    ⟨Table.Grown.refl _, Table.Grown.refl _, fun n above below => absurd below (not_lt.mpr above)⟩
  have keeps : Keeps decoder job chain origin bound db s :=
    run.invariant (fun _ _ _ holds overlaps => keeps_invoke holds overlaps)
      ⟨answered, origin, start, fresh.le, fun absurd => Bool.noConfusion absurd⟩
  have keeps' : Keeps decoder job chain origin bound db s' :=
    run'.invariant (fun _ _ _ holds overlaps => keeps_invoke holds overlaps)
      ⟨answered', origin, start, fresh.le, fun absurd => Bool.noConfusion absurd⟩
  obtain ⟨reached, ingested, _, past⟩ := keeps.ingested
  obtain ⟨reached', ingested', _, past'⟩ := keeps'.ingested
  have forth := ingested.mem_of_complete ingested' (past' complete')
  have back := ingested'.mem_of_complete ingested (past complete)
  constructor
  · refine ingested.events.map_lookup_eq _ ?_ ingested'.events
      fun key => ⟨forth.1 key, back.1 key⟩
    rintro key ⟨id, row, abi⟩ ⟨id', row', abi'⟩ ⟨rfl, rfl, raw, listed, routed⟩
      ⟨rfl, sameKey, raw', listed', routed'⟩
    have same := distinct raw listed raw' listed' _ (identity_of_row routed)
      (sameKey ▸ identity_of_row routed')
    subst same
    cases routed.symm.trans routed'
    rfl
  · refine Finmap.ext_lookup fun key => ?_
    have same := ingested.failures.map_lookup_eq id ?_ ingested'.failures
      (fun key => ⟨forth.2 key, back.2 key⟩) key
    · rwa [Option.map_id_apply, Option.map_id_apply] at same
    · rintro key dead dead' ⟨rfl, raw, listed, routed⟩ ⟨sameKey, raw', listed', routed'⟩
      have same := distinct raw listed raw' listed' _ (identity_of_failure routed)
        (sameKey ▸ identity_of_failure routed')
      subst same
      cases routed.symm.trans routed'
      rfl

/-! ## A smooth and a bumpy execution -/

/-- A provider that serves a chain, with a failure at some turns. -/
def serving (chain : Chain) (failure : ℕ → Option String) (turn : ℕ) : Moment where
  archive :=
    { getLogs := fun call => match failure turn with
        | some err => .error err
        | none => .ok (some (chain.logsIn call.fromBlock call.toBlock))
      getBlockByNumber := fun number => .ok (chain.header number) }
  commitFailure := none
  ids index := 1000 * turn + index

theorem serving_answers (chain : Chain) (failure : ℕ → Option String) (job : BackfillJob)
    (turn : ℕ) : (serving chain failure turn).archive.Answers (chain.ServesLogs job)
      chain.ServesHeader := by
  refine ⟨?_, fun number header answered => (Except.ok.inj answered).symm⟩
  rintro call answer answered first last rfl
  simp only [serving] at answered
  split at answered
  · cases answered
  · exact (Except.ok.inj answered).symm

/-- A bond that decodes. -/
def bondLog : RawLog where
  address := "0xBM"
  topics := [hexText (plainDecoder.signatureHash .BondingManager .Bond)]
  data := "0x05"
  blockNumber := "0x3"
  blockHash := "0xH3"
  transactionHash := "0xAA"
  logIndex := "0x0"

/-- An update without data. -/
def updateLog : RawLog where
  address := "0xBM"
  topics := [hexText (plainDecoder.signatureHash .BondingManager .TranscoderUpdate)]
  data := "0x"
  blockNumber := "0xc8"
  blockHash := "0xH200"
  transactionHash := "0xBB"
  logIndex := "0x1"

/-- A bond in block 3, an update in block 200. -/
def twoLogs : Chain where
  logs n := if n = 3 then [bondLog] else if n = 200 then [updateLog] else []
  header _ := ⟨some "0x64"⟩

def emptyStart : BackfillState := ⟨.empty, .empty, false⟩

/-- The whole range at once. -/
def smoothInvocations : List Invocation := [⟨false, 0, 300, serving twoLogs fun _ => none⟩]

/-- Halvings and an error; a re-run from the start; the rest from the checkpoint. -/
def bumpyInvocations : List Invocation :=
  [⟨false, 0, 300, serving twoLogs fun turn =>
      if turn < 5 then some "timeout" else if turn = 6 then some "disconnected" else none⟩,
    ⟨true, 0, 100, serving twoLogs fun _ => none⟩,
    ⟨false, 0, 300, serving twoLogs fun turn => if turn = 0 then some "HTTP error" else none⟩]

def smoothState : BackfillState :=
  (execute (invoke plainDecoder plainJob 300) emptyStart smoothInvocations).get (by decide +kernel)

def bumpyState : BackfillState :=
  (execute (invoke plainDecoder plainJob 300) emptyStart bumpyInvocations).get (by decide +kernel)

theorem twoLogs_distinct : DistinctLogs plainDecoder twoLogs 0 300 := by
  have listed : twoLogs.logsIn 0 300 = [bondLog, updateLog] := by decide +kernel
  have bond : identity plainDecoder bondLog = some ("0xaa", 0) := by decide +kernel
  have update : identity plainDecoder updateLog = some ("0xbb", 1) := by decide +kernel
  intro raw member other member' key own own'
  rw [listed] at member member'
  simp only [List.mem_cons, List.not_mem_nil, or_false] at member member'
  rcases member with rfl | rfl <;> rcases member' with rfl | rfl
  · rfl
  · rw [bond] at own
    rw [update, ← own] at own'
    exact absurd own' (by decide)
  · rw [update] at own
    rw [bond, ← own] at own'
    exact absurd own' (by decide)
  · rfl

/-- Both have stored the bond and the failed update. -/
theorem smooth_and_bumpy_agree : SameContents smoothState.db bumpyState.db := by
  have empty : RpcCache.empty.Answered (twoLogs.ServesLogs plainJob) twoLogs.ServesHeader :=
    ⟨fun _ _ found => absurd found (by simp [RpcCache.empty]),
      fun _ _ found => absurd found (by simp [RpcCache.empty])⟩
  have serves := fun failure => serving_answers twoLogs failure plainJob
  have smooth : execute (invoke plainDecoder plainJob 300) emptyStart smoothInvocations =
      some smoothState := (Option.some_get _).symm
  have bumpy : execute (invoke plainDecoder plainJob 300) emptyStart bumpyInvocations =
      some bumpyState := (Option.some_get _).symm
  refine chunking_independent plainDecoder plainJob twoLogs 0 300 twoLogs_distinct .empty
    (by decide +kernel) empty empty (execute_guardedRun smooth ?_) (execute_guardedRun bumpy ?_)
    (by decide +kernel) (by decide +kernel)
  · exact ⟨⟨by decide +kernel, by decide +kernel, serves _⟩, trivial⟩
  · exact ⟨⟨by decide +kernel, by decide +kernel, serves _⟩,
      ⟨by decide +kernel, by decide +kernel, serves _⟩,
      ⟨by decide +kernel, by decide +kernel, serves _⟩, trivial⟩

example : bumpyState.db.rawProtocolEvents.keys = {("0xaa", 0)} ∧
    bumpyState.db.decodeFailures.keys = {("0xbb", 1)} := by decide +kernel

end ProtocolExplorer.Indexer.Wire
