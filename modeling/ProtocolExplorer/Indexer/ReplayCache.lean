import ProtocolExplorer.Indexer.Chunking

/-!
# Replaying from the cache

A replay drives the same backfill over the whole range that was indexed, and answers every
call from `rpc_call_cache` alone.  The key of an `eth_getLogs` call has the bounds of its
chunk.  The live indexer asks for at most a thousand blocks at a time, from its checkpoint on;
a replay starts at genesis with chunks of five thousand.

* `shortCalls_liveHistory` — **no cached call of a live history spans more than a tick**;
* `replayHits_iff` — exactly when a replay asks for nothing but what is cached.
-/

set_option autoImplicit false

namespace ProtocolExplorer.Indexer.Wire

open ProtocolExplorer.Lib
open ProtocolExplorer.Store

/-! ## The live indexer -/

/-- `INDEXER_HEAD_DEPTH_BLOCKS`. -/
def indexerHeadDepthBlocks : ℕ := 10

/-- `INDEXER_PER_TICK_BLOCKS`. -/
def indexerPerTickBlocks : ℕ := 1000

/-- One contract's turn in an iteration of `indexer_loop`. -/
structure LiveTick where
  job : BackfillJob
  head : ℕ
  weather : ℕ → Moment

/-- What the live indexer leaves behind. -/
structure LiveState where
  cache : RpcCache
  db : IndexerDb

variable (decoder : Decoder) (genesis : ℕ)

/-- The body of the loop over the contracts. -/
def indexerTick (s : LiveState) (tick : LiveTick) : LiveState :=
  let toBlock := tick.head - indexerHeadDepthBlocks
  let fromBlock := resumeFrom tick.job genesis s.db
  if toBlock < fromBlock then s
  else
    let boundedTo := min (min (fromBlock + (indexerPerTickBlocks - 1)) u64Max) toBlock
    let w := runBackfill decoder tick.job tick.weather true fromBlock boundedTo s.cache s.db
    ⟨w.state.cache, w.state.db⟩

/-- A live history: any contracts, heads and surroundings, one tick after the other. -/
def liveHistory (history : List LiveTick) (s : LiveState) : LiveState :=
  history.foldl (indexerTick decoder genesis) s

/-! ## The replay -/

/-- The error of a call that has no row in `rpc_call_cache`. -/
def missingRow (method : String) : String :=
  "JSON-RPC error from chainstack on " ++ method ++
    ": code=-32002 message=cache-only replay: missing rpc_call_cache row for " ++ method

/-- In cache-only mode no call reaches the provider. -/
def cacheOnly : Archive where
  getLogs _ := .error (missingRow "eth_getLogs")
  getBlockByNumber _ := .error (missingRow "eth_getBlockByNumber")

/-- The surroundings of a replay; its transactions commit. -/
def replayWeather (ids : ℕ → ℕ → ℤ) (turn : ℕ) : Moment := ⟨cacheOnly, none, ids turn⟩

/-- `has_cached_logs_for_contract`. -/
def hasCachedLogsForContract (job : BackfillJob) (cache : RpcCache) : Bool :=
  decide (∃ call ∈ cache.logs.keys,
    decoder.toLowercase call.address = decoder.toLowercase job.proxyAddress)

/-- The chunks a replay of one contract tries, from its truncated tables. -/
def replayAttempts (job : BackfillJob) (ids : ℕ → ℕ → ℤ) (toBlock : ℕ) (cache : RpcCache) :
    List ChunkAttempt :=
  if hasCachedLogsForContract decoder job cache then
    (runBackfill decoder job (replayWeather ids) true genesis toBlock cache .empty).attempts
  else []

/-- Every `eth_getLogs` call of a replay has its row in the cache. -/
def ReplayHits (job : BackfillJob) (ids : ℕ → ℕ → ℤ) (toBlock : ℕ) (cache : RpcCache) : Prop :=
  ∀ a ∈ replayAttempts decoder genesis job ids toBlock cache,
    (cache.logs.lookup (job.logsCall a.first a.last)).isSome

instance (job : BackfillJob) (ids : ℕ → ℕ → ℤ) (toBlock : ℕ) (cache : RpcCache) :
    Decidable (ReplayHits decoder genesis job ids toBlock cache) :=
  inferInstanceAs (Decidable (∀ a ∈ replayAttempts decoder genesis job ids toBlock cache, _))

/-! ## What a live history caches -/

/-- No cached `eth_getLogs` call spans more blocks than a tick. -/
def ShortCalls (cache : RpcCache) : Prop :=
  ∀ call, (cache.logs.lookup call).isSome → call.toBlock < call.fromBlock + indexerPerTickBlocks

section Live

variable {decoder genesis} {job : BackfillJob} {moment : Moment} {cache : RpcCache} {db : IndexerDb}

theorem fetchTimestamps_logs (archive : Archive) (numbers : List ℕ) (cache : RpcCache) :
    (fetchTimestamps archive numbers cache).1.logs = cache.logs := by
  induction numbers generalizing cache with
  | nil => rfl
  | cons number rest inductionHypothesis =>
      have fetched : (fetchHeader archive number cache).1.logs = cache.logs := rfl
      unfold fetchTimestamps
      generalize fetchHeader archive number cache = pair at fetched
      obtain ⟨cached, outcome⟩ := pair
      cases outcome with
      | error err => exact fetched
      | ok header =>
          cases seconds : secondsOf header with
          | error err => simpa only [seconds] using fetched
          | ok value => simpa only [seconds] using (inductionHypothesis cached).trans fetched

theorem fetchBlockTimestamps_logs (archive : Archive) (raws : List RawLog) (cache : RpcCache) :
    (fetchBlockTimestamps archive raws cache).1.logs = cache.logs := by
  unfold fetchBlockTimestamps
  split
  · rfl
  · exact fetchTimestamps_logs archive _ cache

/-- A chunk leaves the logs as its own call left them. -/
theorem backfillChunk_logs (chunkStart chunkEnd : ℕ) :
    (backfillChunk decoder job moment chunkStart chunkEnd cache db).1.logs =
      (fetchLogs moment.archive (job.logsCall chunkStart chunkEnd) cache).1.logs := by
  unfold backfillChunk
  generalize fetchLogs moment.archive (job.logsCall chunkStart chunkEnd) cache = pair
  obtain ⟨cached, answer⟩ := pair
  rcases answer with err | _ | _ | ⟨first, others⟩
  · rfl
  · rfl
  · rfl
  · have times := fetchBlockTimestamps_logs moment.archive (first :: others) cached
    simp only
    generalize fetchBlockTimestamps moment.archive (first :: others) cached = later at times
    obtain ⟨timed, result⟩ := later
    cases result with
    | error err => exact times
    | ok timestamps =>
        simp only
        split
        · exact times
        · split
          · exact times
          · exact times

/-- A chunk caches no call but its own. -/
theorem lookup_backfillChunk {chunkStart chunkEnd : ℕ} {call : LogsCall}
    (cached : ((backfillChunk decoder job moment chunkStart chunkEnd cache db).1.logs.lookup
      call).isSome) :
    (cache.logs.lookup call).isSome ∨ call = job.logsCall chunkStart chunkEnd := by
  rw [backfillChunk_logs] at cached
  generalize called : cachedCall moment.archive.getLogs (job.logsCall chunkStart chunkEnd)
    cache.logs = pair
  have same : (fetchLogs moment.archive (job.logsCall chunkStart chunkEnd) cache).1.logs =
      pair.1 := by rw [← called]; rfl
  rw [same] at cached
  obtain ⟨after, result⟩ := pair
  rcases cachedCall_cases called with rfl | ⟨answer, absent, _, rfl⟩
  · exact Or.inl cached
  · rw [Table.lookup_insertNew_of_none absent] at cached
    split at cached
    · next same => exact Or.inr same
    · exact Or.inl cached

/-- The walk of a short range adds short calls. -/
theorem shortCalls_runBackfill {weather : ℕ → Moment} {fromBlock toBlock : ℕ}
    (short : toBlock < fromBlock + indexerPerTickBlocks) (holds : ShortCalls cache) :
    ShortCalls (runBackfill decoder job weather true fromBlock toBlock cache db).state.cache := by
  unfold runBackfill driveBackfill
  rw [if_pos rfl]
  refine @ChunkPolicy.walkRange_keeps _ _ _ _ _ _ (fun s : DriveState => ShortCalls s.cache) ?_ holds
  intro s first last kept above _ below call cached
  rw [runChunk_cache] at cached
  rcases lookup_backfillChunk cached with before | rfl
  · exact kept call before
  · simp only [BackfillJob.logsCall]
    omega

/-- **A live history caches short calls only.** -/
theorem shortCalls_liveHistory (history : List LiveTick) {s : LiveState}
    (holds : ShortCalls s.cache) : ShortCalls (liveHistory decoder genesis history s).cache := by
  induction history generalizing s with
  | nil => exact holds
  | cons tick rest inductionHypothesis =>
      rw [liveHistory, List.foldl_cons]
      apply inductionHypothesis
      unfold indexerTick
      simp only
      split
      · exact holds
      · refine shortCalls_runBackfill ?_ holds
        unfold indexerPerTickBlocks
        omega

end Live

/-! ## A replay does not retry -/

section Fatal

variable {decoder} {job : BackfillJob} {cache cache' : RpcCache}

/-- An error that ends a walk. -/
def IsFatal (message : String) : Prop := isTransient (.failed message) = false

theorem isFatal_parseInt (err : ParseIntError) : IsFatal err.message := by
  unfold IsFatal
  cases err <;> decide +kernel

theorem isFatal_secondsOf {header : Header} {err : String} (failed : secondsOf header = .error err) :
    IsFatal err := by
  unfold secondsOf at failed
  split at failed
  · cases failed
    unfold IsFatal
    decide +kernel
  · next text _ =>
      cases parsed : i64FromHex text with
      | ok seconds =>
          rw [parsed] at failed
          cases failed
      | error cause =>
          rw [parsed] at failed
          cases failed
          exact isFatal_parseInt cause

theorem isFatal_numbersOf {raws : List RawLog} {err : String} (failed : numbersOf raws = .error err) :
    IsFatal err := by
  induction raws generalizing err with
  | nil => cases failed
  | cons raw rest inductionHypothesis =>
      rw [numbersOf, List.mapM_cons] at failed
      cases number : u64FromHex raw.blockNumber with
      | error cause =>
          rw [number] at failed
          cases failed
          exact isFatal_parseInt cause
      | ok value =>
          rw [number] at failed
          cases later : numbersOf rest with
          | error cause =>
              have own := inductionHypothesis later
              rw [numbersOf] at later
              rw [later] at failed
              cases failed
              exact own
          | ok others =>
              rw [numbersOf] at later
              rw [later] at failed
              cases failed

theorem isFatal_deadLetter {raw : RawLog} {abiHash message err : String}
    (failed : decoder.deadLetter raw abiHash message = .error err) : IsFatal err := by
  unfold Decoder.deadLetter at failed
  split at failed
  · cases failed
    exact isFatal_parseInt _
  · cases failed
    exact isFatal_parseInt _
  · split at failed
    · cases failed
      unfold IsFatal
      decide +kernel
    · cases failed

theorem isFatal_route {raw : RawLog} {blockTs : ℕ → Option ℤ} {err : String}
    (failed : route decoder job raw blockTs = .error err) : IsFatal err := by
  have ofMap : ∀ message, (decoder.deadLetter raw job.abiHash message).map Routed.deadLetter =
      .error err → IsFatal err := by
    intro message mapped
    cases made : decoder.deadLetter raw job.abiHash message with
    | ok dead =>
        rw [made] at mapped
        cases mapped
    | error cause =>
        rw [made] at mapped
        cases mapped
        exact isFatal_deadLetter made
  unfold route at failed
  split at failed
  · cases failed
  · split at failed
    · cases failed
    · exact ofMap _ failed
  · exact ofMap _ failed

theorem isFatal_dispatchLogs {raws : List RawLog} {blockTs : ℕ → Option ℤ} {err : String}
    (failed : dispatchLogs decoder job blockTs raws = .error err) : IsFatal err := by
  induction raws with
  | nil => cases failed
  | cons raw rest inductionHypothesis =>
      unfold dispatchLogs at failed
      cases own : route decoder job raw blockTs with
      | error cause =>
          rw [own] at failed
          cases failed
          exact isFatal_route own
      | ok routed =>
          rw [own] at failed
          cases later : dispatchLogs decoder job blockTs rest with
          | error cause =>
              rw [later] at failed
              cases failed
              exact inductionHypothesis later
          | ok others =>
              rw [later] at failed
              cases failed

theorem isFatal_fetchLogs {call : LogsCall} {err : String}
    (failed : fetchLogs cacheOnly call cache = (cache', .error err)) : IsFatal err := by
  unfold fetchLogs cachedCall at failed
  split at failed
  next called =>
    split at called
    · cases called
      cases failed
    · cases called
      cases failed
      unfold IsFatal
      decide +kernel

theorem isFatal_fetchHeader {number : ℕ} {err : String}
    (failed : fetchHeader cacheOnly number cache = (cache', .error err)) : IsFatal err := by
  unfold fetchHeader cachedCall at failed
  split at failed
  next called =>
    split at called
    · cases called
      cases failed
    · cases called
      cases failed
      unfold IsFatal
      decide +kernel

theorem isFatal_fetchTimestamps {numbers : List ℕ} {err : String}
    (failed : fetchTimestamps cacheOnly numbers cache = (cache', .error err)) : IsFatal err := by
  induction numbers generalizing cache cache' with
  | nil => cases failed
  | cons number rest inductionHypothesis =>
      unfold fetchTimestamps at failed
      cases fetched : fetchHeader cacheOnly number cache with
      | mk cached outcome =>
      rw [fetched] at failed
      cases outcome with
      | error cause =>
          cases failed
          exact isFatal_fetchHeader fetched
      | ok header =>
          simp only at failed
          cases seconds : secondsOf header with
          | error cause =>
              rw [seconds] at failed
              cases failed
              exact isFatal_secondsOf seconds
          | ok value =>
              rw [seconds] at failed
              cases later : fetchTimestamps cacheOnly rest cached with
              | mk final' others =>
              rw [later] at failed
              cases others with
              | error cause =>
                  cases failed
                  exact inductionHypothesis later
              | ok timestamps => cases failed

/-- **No chunk of a replay fails transiently.** -/
theorem not_transient_of_cacheOnly {ids : ℕ → ℕ → ℤ} {s : DriveState} {first last : ℕ} :
    (runChunk decoder job (replayWeather ids) s first last).2 ≠ .transient := by
  have fatal : ∀ cache' db' err, backfillChunk decoder job (replayWeather ids s.tried) first last
      s.cache s.db = (cache', db', .error err) → isTransient err = false := by
    intro cache' db' err failed
    unfold backfillChunk at failed
    split at failed
    · next fetched =>
        cases failed
        exact isFatal_fetchLogs fetched
    · cases failed
      decide +kernel
    · cases failed
    · split at failed
      · next fetched =>
          cases failed
          unfold fetchBlockTimestamps at fetched
          split at fetched
          · next unparsed =>
              cases fetched
              exact isFatal_numbersOf unparsed
          · exact isFatal_fetchTimestamps fetched
      · split at failed
        · next looped =>
            cases failed
            exact isFatal_dispatchLogs looped
        · split at failed
          · cases failed
          · cases failed
            rfl
  unfold runChunk
  cases ran : backfillChunk decoder job (replayWeather ids s.tried) first last s.cache s.db with
  | mk cache' rest =>
  obtain ⟨db', result⟩ := rest
  cases result with
  | ok summary => simp
  | error err => simp [fatal cache' db' err ran]

end Fatal

/-! ## When a replay hits -/

/-- **A replay asks for nothing but what is cached exactly if it asks for nothing at all, or its
range is within one tick and was asked for as a whole.** -/
theorem replayHits_iff (decoder : Decoder) (genesis : ℕ) (history : List LiveTick) (db : IndexerDb)
    (job : BackfillJob) (ids : ℕ → ℕ → ℤ) (toBlock : ℕ) :
    ReplayHits decoder genesis job ids toBlock
        (liveHistory decoder genesis history ⟨.empty, db⟩).cache ↔
      hasCachedLogsForContract decoder job
          (liveHistory decoder genesis history ⟨.empty, db⟩).cache = false ∨
        toBlock < genesis ∨
        toBlock < genesis + indexerPerTickBlocks ∧
          ((liveHistory decoder genesis history ⟨.empty, db⟩).cache.logs.lookup
            (job.logsCall genesis toBlock)).isSome := by
  have short : ShortCalls (liveHistory decoder genesis history ⟨.empty, db⟩).cache :=
    shortCalls_liveHistory history fun call cached => by
      rw [RpcCache.empty, Finmap.lookup_empty] at cached
      cases cached
  generalize (liveHistory decoder genesis history ⟨.empty, db⟩).cache = cache at short
  unfold ReplayHits replayAttempts runBackfill driveBackfill
  cases gate : hasCachedLogsForContract decoder job cache with
  | false => simp
  | true =>
      rw [if_pos rfl, if_pos rfl]
      constructor
      · intro hits
        by_cases beyond : toBlock < genesis
        · exact Or.inr (Or.inl beyond)
        · obtain ⟨a, member, first, last⟩ := ChunkPolicy.mem_attempts_walkRange (not_lt.mp beyond)
          have hit := hits a member
          rw [first, last] at hit
          have within := short _ hit
          simp only [BackfillJob.logsCall, batchPolicy, defaultBatchBlocks,
            indexerPerTickBlocks] at within hit ⊢
          have whole : min (genesis + 5000 - 1) toBlock = toBlock := by omega
          rw [whole] at hit within
          exact Or.inr (Or.inr ⟨within, hit⟩)
      · rintro (absurd | beyond | ⟨within, cached⟩) a member
        · cases absurd
        · rw [ChunkPolicy.walkRange_past beyond] at member
          cases member
        · by_cases beyond : toBlock < genesis
          · rw [ChunkPolicy.walkRange_past beyond] at member
            cases member
          · have fits : toBlock < genesis + batchPolicy.defaultBatch := by
              simp only [batchPolicy, defaultBatchBlocks, indexerPerTickBlocks] at within ⊢
              omega
            obtain ⟨first, last⟩ := ChunkPolicy.attempts_walkRange_of_fits (not_lt.mp beyond) fits
              not_transient_of_cacheOnly a member
            rw [first, last]
            exact cached

/-! ## Two ticks -/

/-- Ticks at one head, while there are no logs. -/
def quietTick : LiveTick := ⟨plainJob, 2010, fun _ =>
  ⟨⟨fun _ => .ok (some []), fun _ => .error "no header"⟩, none, fun _ => 0⟩⟩

def quietState : LiveState := liveHistory plainDecoder 1 [quietTick, quietTick] ⟨.empty, .empty⟩

/-- Two ticks index blocks 1 to 2000; their replay asks for all of them at once, which no tick
has done. -/
theorem quietHistory_misses : plainJob.checkpoint quietState.db = some 2000 ∧
    ¬ ReplayHits plainDecoder 1 plainJob (fun _ _ => 0) 2000 quietState.cache := by
  decide +kernel

end ProtocolExplorer.Indexer.Wire
