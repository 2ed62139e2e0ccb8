import ProtocolExplorer.Indexer.Decode
import ProtocolExplorer.Lib.AnswerCache
import ProtocolExplorer.Lib.OrderedBatch

/-!
# A chunk of logs

`backfill_chunk` fetches one contract's logs of a block range and the timestamps of their
blocks, routes every log to `raw_protocol_events` or `decode_failures`, and commits both
with the checkpoint in one transaction.  A critical log that does not decode halts the chunk.

`rpc_call_cache` keeps every answer for good; `Archive` is what the provider answers at the
moment of a call.  A log is identified by transaction and log index, and a row that is
already stored is kept.

* `dispatchLogs_ok` — **where each log goes when nothing halts the chunk**;
* `backfillChunk_ok` — what a chunk that succeeds has committed;
* `backfillChunk_error` — a chunk that fails changes nothing but the cache.
-/

set_option autoImplicit false

namespace ProtocolExplorer.Indexer.Wire

open ProtocolExplorer.Lib
open ProtocolExplorer.Store

/-! ## The tables -/

/-- A row of `raw_protocol_events` as it is inserted; it is tentative and canonical. -/
structure StoredRow where
  id : ℤ
  row : PreparedRow
  abiHash : String
  deriving DecidableEq

/-- The tables a chunk writes.  Rows are keyed by their canonical identity, checkpoints by
name. -/
structure IndexerDb where
  rawProtocolEvents : Table (TxHash × ℤ) StoredRow
  decodeFailures : Table (TxHash × ℤ) DeadLetterRow
  indexerCheckpoints : Table String ℤ

def IndexerDb.empty : IndexerDb := ⟨∅, ∅, ∅⟩

/-- What the chunks of one backfill share. -/
structure BackfillJob where
  contract : ContractKind
  suffix : String
  proxyAddress : Address
  abiHash : String
  deriving DecidableEq

/-- `checkpoint_name`. -/
def checkpointName (contract : ContractKind) (suffix : String) : String :=
  if suffix.isEmpty then "indexer_" ++ contractText contract
  else "indexer_" ++ contractText contract ++ "_" ++ suffix

/-- `cp as u64`. -/
@[irreducible] def asU64 (n : ℤ) : ℕ := (n % 2 ^ 64).toNat

/-- `u64::MAX`. -/
@[irreducible] def u64Max : ℕ := 2 ^ 64 - 1

/-- `resume_from`. -/
def resumeFrom (job : BackfillJob) (requestedFrom : ℕ) (db : IndexerDb) : ℕ :=
  match db.indexerCheckpoints.lookup (checkpointName job.contract job.suffix) with
  | some cp => if requestedFrom ≤ asU64 cp then min (asU64 cp + 1) u64Max else requestedFrom
  | none => requestedFrom

/-! ## Answers -/

/-- The parameters of `eth_getLogs`; the topics filter follows from the contract. -/
structure LogsCall where
  contract : ContractKind
  address : Address
  fromBlock : ℕ
  toBlock : ℕ
  deriving DecidableEq

/-- What `fetch_block_timestamps` reads of a block header: `none` when there is no such
string. -/
structure Header where
  timestamp : Option String
  deriving DecidableEq

/-- What the provider answers; `none` is a value that is not a list of logs. -/
structure Archive where
  getLogs : LogsCall → Except String (Option (List RawLog))
  getBlockByNumber : ℕ → Except String Header

/-- The cached answers a backfill asks for. -/
structure RpcCache where
  logs : Table LogsCall (Option (List RawLog))
  headers : Table ℕ Header

def RpcCache.empty : RpcCache := ⟨∅, ∅⟩

/-- The call of a chunk. -/
def BackfillJob.logsCall (job : BackfillJob) (chunkStart chunkEnd : ℕ) : LogsCall :=
  ⟨job.contract, job.proxyAddress, chunkStart, chunkEnd⟩

/-- `single_call_cached` of `eth_getLogs`. -/
def fetchLogs (archive : Archive) (call : LogsCall) (cache : RpcCache) :
    RpcCache × Except String (Option (List RawLog)) :=
  let (logs, result) := cachedCall archive.getLogs call cache.logs
  ({ cache with logs }, result)

/-- `single_call_cached` of `eth_getBlockByNumber`. -/
def fetchHeader (archive : Archive) (number : ℕ) (cache : RpcCache) :
    RpcCache × Except String Header :=
  let (headers, result) := cachedCall archive.getBlockByNumber number cache.headers
  ({ cache with headers }, result)

/-- The seconds a header gives. -/
def secondsOf (header : Header) : Except String ℤ :=
  match header.timestamp with
  | none => .error "block has no timestamp"
  | some text => (i64FromHex text).mapError ParseIntError.message

/-- The loop of `fetch_block_timestamps`. -/
def fetchTimestamps (archive : Archive) :
    List ℕ → RpcCache → RpcCache × Except String (List (ℕ × ℤ))
  | [], cache => (cache, .ok [])
  | number :: rest, cache =>
      match fetchHeader archive number cache with
      | (cache, .error err) => (cache, .error err)
      | (cache, .ok header) =>
          match secondsOf header with
          | .error err => (cache, .error err)
          | .ok seconds =>
              let (cache, others) := fetchTimestamps archive rest cache
              (cache, others.map fun timestamps => (number, seconds) :: timestamps)

/-- The block numbers of some logs. -/
def numbersOf (raws : List RawLog) : Except String (List ℕ) :=
  raws.mapM fun raw => (u64FromHex raw.blockNumber).mapError ParseIntError.message

/-- `fetch_block_timestamps`: each block once, ascending. -/
def fetchBlockTimestamps (archive : Archive) (raws : List RawLog) (cache : RpcCache) :
    RpcCache × Except String (List (ℕ × ℤ)) :=
  match numbersOf raws with
  | .error err => (cache, .error err)
  | .ok numbers => fetchTimestamps archive (orderBy id numbers.dedup) cache

/-! ## Routing -/

/-- A critical log that does not decode, as the halt names it. -/
structure StrictFailure where
  txHash : String
  logIndex : String
  event : FailedEvent
  topic0 : B256
  error : String
  deriving DecidableEq

/-- The errors of a chunk. -/
inductive ChunkError where
  | failed (message : String)
  /-- "strict-decode halt". -/
  | strictHalt (chunkStart chunkEnd : ℕ) (failures : List StrictFailure)
  deriving DecidableEq

/-- Where one log goes. -/
inductive Routed where
  | row (row : PreparedRow)
  | deadLetter (dead : DeadLetterRow)
  | strict (failure : StrictFailure)
  deriving DecidableEq

/-- Where the logs of a chunk go. -/
structure Dispatched where
  prepared : List PreparedRow
  deadLetters : List DeadLetterRow
  strictFailures : List StrictFailure
  deriving DecidableEq

variable (decoder : Decoder) (job : BackfillJob)

/-- The body of the loop over the logs. -/
def route (raw : RawLog) (blockTs : ℕ → Option ℤ) : Except String Routed :=
  match decoder.decodeOne job.contract raw blockTs with
  | .decoded row => .ok (.row row)
  | .decodeFailed event topic0 isStrict error =>
      if isStrict then
        .ok (.strict ⟨raw.transactionHash, raw.logIndex, event, topic0, error⟩)
      else (decoder.deadLetter raw job.abiHash error).map .deadLetter
  | .unknownTopic0 topic0 =>
      (decoder.deadLetter raw job.abiHash ("topic0 " ++ hexText topic0 ++ " not in known set for " ++
        contractText job.contract)).map .deadLetter

/-- Put a log where it goes. -/
def Dispatched.push (rest : Dispatched) : Routed → Dispatched
  | .row row => { rest with prepared := row :: rest.prepared }
  | .deadLetter dead => { rest with deadLetters := dead :: rest.deadLetters }
  | .strict failure => { rest with strictFailures := failure :: rest.strictFailures }

/-- The loop over the logs; it ends at the first log that cannot be routed. -/
def dispatchLogs (blockTs : ℕ → Option ℤ) : List RawLog → Except String Dispatched
  | [] => .ok ⟨[], [], []⟩
  | raw :: rest =>
      match route decoder job raw blockTs with
      | .error err => .error err
      | .ok routed => (dispatchLogs blockTs rest).map fun others => others.push routed

/-! ## The transaction -/

/-- The unique key of a row. -/
def PreparedRow.key (row : PreparedRow) : TxHash × ℤ := (row.txHash, row.logIndex)

def DeadLetterRow.key (dead : DeadLetterRow) : TxHash × ℤ := (dead.txHash, dead.logIndex)

/-- Rows with the ids drawn for them. -/
def numbered (ids : ℕ → ℤ) (rows : List PreparedRow) : List (ℤ × PreparedRow) :=
  rows.zipIdx.map fun (row, index) => (ids index, row)

/-- `insert_events`. -/
def insertEvents (abiHash : String) (rows : List (ℤ × PreparedRow))
    (table : Table (TxHash × ℤ) StoredRow) : Table (TxHash × ℤ) StoredRow :=
  rows.foldl (fun stored row => stored.insertNew row.2.key ⟨row.1, row.2, abiHash⟩) table

/-- `insert_dead_letters`. -/
def insertDeadLetters (dead : List DeadLetterRow) (table : Table (TxHash × ℤ) DeadLetterRow) :
    Table (TxHash × ℤ) DeadLetterRow :=
  dead.foldl (fun stored row => stored.insertNew row.key row) table

/-- `advance_checkpoint`. -/
def advanceCheckpoint (chunkEnd : ℕ) (db : IndexerDb) : IndexerDb :=
  { db with
    indexerCheckpoints := db.indexerCheckpoints.upsert (checkpointName job.contract job.suffix)
      fun stored => stored.elim (asI64 chunkEnd) fun previous => max previous (asI64 chunkEnd) }

/-- The transaction of a chunk. -/
def commitChunk (ids : ℕ → ℤ) (chunkEnd : ℕ) (prepared : List PreparedRow)
    (dead : List DeadLetterRow) (db : IndexerDb) : IndexerDb :=
  advanceCheckpoint job chunkEnd
    { db with
      rawProtocolEvents := insertEvents job.abiHash (numbered ids prepared) db.rawProtocolEvents
      decodeFailures := insertDeadLetters dead db.decodeFailures }

/-! ## The chunk -/

/-- The surroundings of a chunk: what the provider answers, whether the transaction fails,
and the ids it draws. -/
structure Moment where
  archive : Archive
  commitFailure : Option String
  ids : ℕ → ℤ

/-- The counters a chunk returns. -/
structure ChunkSummary where
  logsSeen : ℕ
  eventsInserted : ℕ
  deadLettered : ℕ
  deriving DecidableEq

/-- Run the transaction, unless it fails. -/
def Moment.commit (moment : Moment) (chunkEnd logsSeen : ℕ) (prepared : List PreparedRow)
    (dead : List DeadLetterRow) (db : IndexerDb) : IndexerDb × Except ChunkError ChunkSummary :=
  match moment.commitFailure with
  | some err => (db, .error (.failed err))
  | none =>
      let after := commitChunk job moment.ids chunkEnd prepared dead db
      (after, .ok
        { logsSeen
          eventsInserted := after.rawProtocolEvents.keys.card - db.rawProtocolEvents.keys.card
          deadLettered := after.decodeFailures.keys.card - db.decodeFailures.keys.card })

/-- `backfill_chunk`. -/
def backfillChunk (moment : Moment) (chunkStart chunkEnd : ℕ) (cache : RpcCache) (db : IndexerDb) :
    RpcCache × IndexerDb × Except ChunkError ChunkSummary :=
  match fetchLogs moment.archive (job.logsCall chunkStart chunkEnd) cache with
  | (cache, .error err) => (cache, db, .error (.failed err))
  | (cache, .ok none) => (cache, db, .error (.failed "decoding eth_getLogs response"))
  | (cache, .ok (some [])) => (cache, moment.commit job chunkEnd 0 [] [] db)
  | (cache, .ok (some (first :: others))) =>
      match fetchBlockTimestamps moment.archive (first :: others) cache with
      | (cache, .error err) => (cache, db, .error (.failed err))
      | (cache, .ok timestamps) =>
          match dispatchLogs decoder job (fun number => timestamps.lookup number)
              (first :: others) with
          | .error err => (cache, db, .error (.failed err))
          | .ok dispatched =>
              if dispatched.strictFailures.isEmpty then
                (cache, moment.commit job chunkEnd (first :: others).length dispatched.prepared
                  dispatched.deadLetters db)
              else (cache, db, .error (.strictHalt chunkStart chunkEnd dispatched.strictFailures))

/-! ## What the fetches leave in the cache -/

/-- The timestamp a cache has for a block. -/
def RpcCache.timestampOf (cache : RpcCache) (number : ℕ) : Option ℤ :=
  (cache.headers.lookup number).bind fun header => (secondsOf header).toOption

/-- Every cached answer is as stated. -/
structure RpcCache.Answered (logsAre : LogsCall → Option (List RawLog) → Prop)
    (headerIs : ℕ → Header → Prop) (cache : RpcCache) : Prop where
  logs : ∀ call answer, cache.logs.lookup call = some answer → logsAre call answer
  headers : ∀ number header, cache.headers.lookup number = some header → headerIs number header

/-- Whatever the provider answers is as stated. -/
structure Archive.Answers (logsAre : LogsCall → Option (List RawLog) → Prop)
    (headerIs : ℕ → Header → Prop) (archive : Archive) : Prop where
  logs : ∀ call answer, archive.getLogs call = .ok answer → logsAre call answer
  headers : ∀ number header, archive.getBlockByNumber number = .ok header → headerIs number header

section Fetch

variable {archive : Archive} {cache cache' : RpcCache}
  {logsAre : LogsCall → Option (List RawLog) → Prop} {headerIs : ℕ → Header → Prop}

theorem fetchLogs_answered {call : LogsCall} {result : Except String (Option (List RawLog))}
    (answers : archive.Answers logsAre headerIs) (answered : cache.Answered logsAre headerIs)
    (fetched : fetchLogs archive call cache = (cache', result)) :
    cache'.Answered logsAre headerIs := by
  cases fetched
  exact ⟨cachedCall_all rfl answered.logs (answers.logs call), answered.headers⟩

theorem fetchLogs_ok {call : LogsCall} {answer : Option (List RawLog)}
    (fetched : fetchLogs archive call cache = (cache', .ok answer)) :
    cache'.logs.lookup call = some answer := by
  unfold fetchLogs at fetched
  generalize called : cachedCall archive.getLogs call cache.logs = pair at fetched
  obtain ⟨logs, outcome⟩ := pair
  cases fetched
  exact lookup_cachedCall called

theorem fetchTimestamps_answered {numbers : List ℕ} {result : Except String (List (ℕ × ℤ))}
    (answers : archive.Answers logsAre headerIs) (answered : cache.Answered logsAre headerIs)
    (fetched : fetchTimestamps archive numbers cache = (cache', result)) :
    cache'.Answered logsAre headerIs := by
  induction numbers generalizing cache result with
  | nil =>
      cases fetched
      exact answered
  | cons number rest inductionHypothesis =>
      have middle : (fetchHeader archive number cache).1.Answered logsAre headerIs :=
        ⟨answered.logs, cachedCall_all rfl answered.headers (answers.headers number)⟩
      unfold fetchTimestamps at fetched
      generalize fetchHeader archive number cache = pair at fetched middle
      obtain ⟨cached, outcome⟩ := pair
      cases outcome with
      | error err =>
          cases fetched
          exact middle
      | ok header =>
          simp only at fetched
          cases seconds : secondsOf header with
          | error err =>
              rw [seconds] at fetched
              cases fetched
              exact middle
          | ok value =>
              rw [seconds] at fetched
              generalize others : fetchTimestamps archive rest cached = later at fetched
              obtain ⟨final', result'⟩ := later
              cases fetched
              exact inductionHypothesis middle others

/-- The timestamps fetched are those of the cache afterwards. -/
theorem fetchTimestamps_ok {numbers : List ℕ} {timestamps : List (ℕ × ℤ)}
    (fetched : fetchTimestamps archive numbers cache = (cache', .ok timestamps)) :
    cache'.logs = cache.logs ∧ CacheExtends cache.headers cache'.headers ∧
      ∀ number ∈ numbers, (timestamps.lookup number).isSome ∧
        timestamps.lookup number = cache'.timestampOf number := by
  induction numbers generalizing cache timestamps with
  | nil =>
      cases fetched
      exact ⟨rfl, CacheExtends.refl _, fun _ member => absurd member List.not_mem_nil⟩
  | cons number rest inductionHypothesis =>
      unfold fetchTimestamps at fetched
      generalize called : fetchHeader archive number cache = pair at fetched
      obtain ⟨cached, outcome⟩ := pair
      have sameLogs : cached.logs = cache.logs := (congrArg (fun p => p.1.logs) called).symm
      have kept : CacheExtends cache.headers cached.headers := by
        cases called
        exact cachedCall_extends rfl
      cases outcome with
      | error err => cases fetched
      | ok header =>
          have stored : cached.headers.lookup number = some header := by
            unfold fetchHeader at called
            generalize headerCall : cachedCall archive.getBlockByNumber number cache.headers = pair
              at called
            obtain ⟨headers, answer⟩ := pair
            cases called
            exact lookup_cachedCall headerCall
          simp only at fetched
          cases seconds : secondsOf header with
          | error err =>
              rw [seconds] at fetched
              cases fetched
          | ok value =>
              rw [seconds] at fetched
              generalize others : fetchTimestamps archive rest cached = later at fetched
              obtain ⟨final', result'⟩ := later
              cases result' with
              | error err => cases fetched
              | ok laterTimestamps =>
                  cases fetched
                  obtain ⟨laterLogs, laterKept, laterTimes⟩ := inductionHypothesis others
                  refine ⟨laterLogs.trans sameLogs, kept.trans laterKept, fun n member => ?_⟩
                  by_cases here : n = number
                  · subst here
                    have own : final'.timestampOf n = some value := by
                      rw [RpcCache.timestampOf, laterKept n header stored, Option.bind_some,
                        seconds]
                      rfl
                    rw [List.lookup_cons_self]
                    exact ⟨rfl, own.symm⟩
                  · rw [List.lookup_cons, beq_false_of_ne here]
                    exact laterTimes n ((List.mem_cons.mp member).resolve_left here)

/-- The block number of every log is among the numbers. -/
theorem mem_numbersOf {raws : List RawLog} {numbers : List ℕ} (parsed : numbersOf raws = .ok numbers)
    {raw : RawLog} (member : raw ∈ raws) :
    ∃ number ∈ numbers, u64FromHex raw.blockNumber = .ok number := by
  induction raws generalizing numbers with
  | nil => exact absurd member List.not_mem_nil
  | cons head rest inductionHypothesis =>
      rw [numbersOf, List.mapM_cons] at parsed
      cases first : u64FromHex head.blockNumber with
      | error err =>
          rw [first] at parsed
          cases parsed
      | ok number =>
          rw [first] at parsed
          cases later : numbersOf rest with
          | error err =>
              rw [numbersOf] at later
              rw [later] at parsed
              cases parsed
          | ok others =>
              have whole : numbers = number :: others := by
                rw [numbersOf] at later
                rw [later] at parsed
                cases parsed
                rfl
              subst whole
              rcases List.mem_cons.mp member with rfl | tail
              · exact ⟨number, List.mem_cons_self .., first⟩
              · obtain ⟨other, listed, same⟩ := inductionHypothesis later tail
                exact ⟨other, List.mem_cons_of_mem _ listed, same⟩

theorem fetchBlockTimestamps_answered {raws : List RawLog} {result : Except String (List (ℕ × ℤ))}
    (answers : archive.Answers logsAre headerIs) (answered : cache.Answered logsAre headerIs)
    (fetched : fetchBlockTimestamps archive raws cache = (cache', result)) :
    cache'.Answered logsAre headerIs := by
  unfold fetchBlockTimestamps at fetched
  split at fetched
  · cases fetched
    exact answered
  · exact fetchTimestamps_answered answers answered fetched

/-- Every log's block has its timestamp. -/
theorem fetchBlockTimestamps_ok {raws : List RawLog} {timestamps : List (ℕ × ℤ)}
    (fetched : fetchBlockTimestamps archive raws cache = (cache', .ok timestamps)) :
    cache'.logs = cache.logs ∧ ∀ raw ∈ raws, ∃ number, u64FromHex raw.blockNumber = .ok number ∧
      (cache'.timestampOf number).isSome ∧
        timestamps.lookup number = cache'.timestampOf number := by
  unfold fetchBlockTimestamps at fetched
  cases parsed : numbersOf raws with
  | error err =>
      rw [parsed] at fetched
      cases fetched
  | ok numbers =>
      rw [parsed] at fetched
      obtain ⟨sameLogs, _, times⟩ := fetchTimestamps_ok fetched
      refine ⟨sameLogs, fun raw member => ?_⟩
      obtain ⟨number, listed, own⟩ := mem_numbersOf parsed member
      have wanted : number ∈ orderBy id numbers.dedup :=
        mem_orderBy.mpr (List.mem_dedup.mpr listed)
      obtain ⟨present, same⟩ := times number wanted
      exact ⟨number, own, same ▸ present, same⟩

end Fetch

/-! ## What a chunk commits -/

/-- A route is among those of a chunk. -/
def Dispatched.Has (dispatched : Dispatched) : Routed → Prop
  | .row row => row ∈ dispatched.prepared
  | .deadLetter dead => dead ∈ dispatched.deadLetters
  | .strict failure => failure ∈ dispatched.strictFailures

theorem Dispatched.has_push {rest : Dispatched} {head routed : Routed} :
    (rest.push head).Has routed ↔ routed = head ∨ rest.Has routed := by
  cases head <;> cases routed <;> simp [Has, push]

section Chunk

variable {decoder job} {moment : Moment} {chunkStart chunkEnd : ℕ} {cache cache' : RpcCache}
  {db db' : IndexerDb} {blockTs other : ℕ → Option ℤ}

/-- Routing reads the timestamp of the log's own block only. -/
theorem route_congr {raw : RawLog}
    (agree : ∀ number, u64FromHex raw.blockNumber = .ok number → blockTs number = other number) :
    route decoder job raw blockTs = route decoder job raw other := by
  rw [route, route, Decoder.decodeOne_congr agree]

/-- A mapped result is the map of a result. -/
theorem exists_of_map_eq_ok {Err α β : Type*} {result : Except Err α} {f : α → β} {image : β}
    (mapped : result.map f = .ok image) : ∃ value, result = .ok value ∧ f value = image := by
  cases result with
  | error err => cases mapped
  | ok value => exact ⟨value, rfl, Except.ok.inj mapped⟩

/-- The rows of a chunk are decoded logs. -/
theorem route_row_iff {raw : RawLog} {row : PreparedRow} :
    route decoder job raw blockTs = .ok (.row row) ↔
      decoder.decodeOne job.contract raw blockTs = .decoded row := by
  unfold route
  constructor
  · intro routed
    split at routed
    · next decoded =>
        cases routed
        exact decoded
    · split at routed
      · cases routed
      · obtain ⟨_, _, same⟩ := exists_of_map_eq_ok routed
        cases same
    · obtain ⟨_, _, same⟩ := exists_of_map_eq_ok routed
      cases same
  · intro decoded
    rw [decoded]

/-- The dead letters of a chunk are made from its logs. -/
theorem route_deadLetter {raw : RawLog} {dead : DeadLetterRow}
    (routed : route decoder job raw blockTs = .ok (.deadLetter dead)) :
    ∃ message, decoder.deadLetter raw job.abiHash message = .ok dead := by
  unfold route at routed
  split at routed
  · cases routed
  · split at routed
    · cases routed
    · obtain ⟨made, isMade, same⟩ := exists_of_map_eq_ok routed
      cases same
      exact ⟨_, isMade⟩
  · obtain ⟨made, isMade, same⟩ := exists_of_map_eq_ok routed
    cases same
    exact ⟨_, isMade⟩

/-- **When no log ends the loop, every log is where its own route says, and nothing else is
there.** -/
theorem dispatchLogs_ok {raws : List RawLog} {dispatched : Dispatched}
    (looped : dispatchLogs decoder job blockTs raws = .ok dispatched) :
    (∀ raw ∈ raws, ∃ routed, route decoder job raw blockTs = .ok routed) ∧
      ∀ routed, dispatched.Has routed ↔ ∃ raw ∈ raws, route decoder job raw blockTs = .ok routed := by
  induction raws generalizing dispatched with
  | nil =>
      cases looped
      refine ⟨fun _ member => absurd member List.not_mem_nil, fun routed => ?_⟩
      cases routed <;> simp [Dispatched.Has]
  | cons raw rest inductionHypothesis =>
      unfold dispatchLogs at looped
      cases own : route decoder job raw blockTs with
      | error err =>
          rw [own] at looped
          cases looped
      | ok head =>
          rw [own] at looped
          cases later : dispatchLogs decoder job blockTs rest with
          | error err =>
              rw [later] at looped
              cases looped
          | ok others =>
              rw [later] at looped
              cases looped
              obtain ⟨each, all⟩ := inductionHypothesis later
              refine ⟨fun other member => ?_, fun routed => ?_⟩
              · rcases List.mem_cons.mp member with rfl | tail
                · exact ⟨head, own⟩
                · exact each other tail
              · rw [Dispatched.has_push, all, List.exists_mem_cons_iff, own]
                simp only [Except.ok.injEq, eq_comm]

theorem mem_numbered (ids : ℕ → ℤ) {rows : List PreparedRow} {row : PreparedRow} :
    (∃ id, (id, row) ∈ numbered ids rows) ↔ row ∈ rows := by
  simp only [numbered, List.mem_map, Prod.exists, Prod.mk.injEq, List.mem_zipIdx_iff_getElem?]
  rw [List.mem_iff_getElem?]
  constructor
  · rintro ⟨id, row', index, placed, _, rfl⟩
    exact ⟨index, placed⟩
  · rintro ⟨index, placed⟩
    exact ⟨_, row, index, placed, rfl, rfl⟩

/-- The identities stored after an insert of rows. -/
theorem mem_insertEvents {abiHash : String} {ids : ℕ → ℤ} {rows : List PreparedRow}
    {table : Table (TxHash × ℤ) StoredRow} {key : TxHash × ℤ} :
    key ∈ insertEvents abiHash (numbered ids rows) table ↔
      key ∈ table ∨ ∃ row ∈ rows, row.key = key := by
  rw [insertEvents, Table.mem_foldl_insertNew (fun w : ℤ × PreparedRow => w.2.key)
    (fun w : ℤ × PreparedRow => (⟨w.1, w.2, abiHash⟩ : StoredRow))]
  refine or_congr Iff.rfl ⟨?_, ?_⟩
  · rintro ⟨w, member, same⟩
    exact ⟨w.2, (mem_numbered ids).mp ⟨w.1, member⟩, same⟩
  · rintro ⟨row, member, same⟩
    obtain ⟨id, listed⟩ := (mem_numbered ids).mpr member
    exact ⟨(id, row), listed, same⟩

/-- And after an insert of dead letters. -/
theorem mem_insertDeadLetters {dead : List DeadLetterRow}
    {table : Table (TxHash × ℤ) DeadLetterRow} {key : TxHash × ℤ} :
    key ∈ insertDeadLetters dead table ↔ key ∈ table ∨ ∃ row ∈ dead, row.key = key :=
  Table.mem_foldl_insertNew DeadLetterRow.key id table

/-- A transaction commits, or changes nothing. -/
theorem Moment.commit_cases {logsSeen : ℕ} {prepared : List PreparedRow}
    {dead : List DeadLetterRow} {result : Except ChunkError ChunkSummary}
    (committed : moment.commit job chunkEnd logsSeen prepared dead db = (db', result)) :
    (∃ err, result = .error err ∧ db' = db) ∨ ∃ summary, result = .ok summary ∧
      db' = commitChunk job moment.ids chunkEnd prepared dead db := by
  unfold Moment.commit at committed
  split at committed
  · cases committed
    exact Or.inl ⟨_, rfl, rfl⟩
  · cases committed
    exact Or.inr ⟨_, rfl, rfl⟩

/-- **A chunk that succeeds has committed the rows and dead letters of its logs**, each routed
with the timestamp the cache has for its block; none was strict. -/
theorem backfillChunk_ok {summary : ChunkSummary} (ran : backfillChunk decoder job moment chunkStart
      chunkEnd cache db = (cache', db', .ok summary)) :
    ∃ (raws : List RawLog) (dispatched : Dispatched),
      cache'.logs.lookup (job.logsCall chunkStart chunkEnd) = some (some raws) ∧
      db' = commitChunk job moment.ids chunkEnd dispatched.prepared dispatched.deadLetters db ∧
      (∀ raw ∈ raws, (∃ number, u64FromHex raw.blockNumber = .ok number ∧
          (cache'.timestampOf number).isSome) ∧
        ∃ routed, route decoder job raw cache'.timestampOf = .ok routed) ∧
      (∀ routed, dispatched.Has routed ↔
        ∃ raw ∈ raws, route decoder job raw cache'.timestampOf = .ok routed) ∧
      dispatched.strictFailures = [] := by
  unfold backfillChunk at ran
  generalize fetchedLogs : fetchLogs moment.archive (job.logsCall chunkStart chunkEnd) cache = pair
    at ran
  obtain ⟨logsCached, answer⟩ := pair
  cases answer with
  | error err => cases ran
  | ok answer =>
      have stored := fetchLogs_ok fetchedLogs
      rcases answer with _ | raws
      · cases ran
      · rcases raws with _ | ⟨first, others⟩
        · generalize committed : moment.commit job chunkEnd 0 [] [] db = after at ran
          cases ran
          rcases Moment.commit_cases committed with ⟨err, failed, _⟩ | ⟨_, _, rfl⟩
          · cases failed
          · refine ⟨[], ⟨[], [], []⟩, stored, rfl, fun _ member => absurd member List.not_mem_nil,
              fun routed => ?_, rfl⟩
            cases routed <;> simp [Dispatched.Has]
        · simp only at ran
          generalize first :: others = raws at ran stored
          generalize fetchedTimes : fetchBlockTimestamps moment.archive raws logsCached = pair at ran
          obtain ⟨timesCached, result⟩ := pair
          cases result with
          | error err => cases ran
          | ok timestamps =>
              obtain ⟨sameLogs, times⟩ := fetchBlockTimestamps_ok fetchedTimes
              simp only at ran
              cases looped : dispatchLogs decoder job (fun number => timestamps.lookup number) raws with
              | error err =>
                  rw [looped] at ran
                  cases ran
              | ok dispatched =>
                  rw [looped] at ran
                  simp only at ran
                  cases strict : dispatched.strictFailures with
                  | cons failure more =>
                      rw [strict] at ran
                      cases ran
                  | nil =>
                      rw [strict, List.isEmpty_nil, if_pos rfl] at ran
                      generalize committed : moment.commit job chunkEnd raws.length
                        dispatched.prepared dispatched.deadLetters db = after at ran
                      cases ran
                      have sameRoute : ∀ raw ∈ raws, route decoder job raw
                          (fun number => timestamps.lookup number) =
                            route decoder job raw cache'.timestampOf := by
                        intro raw member
                        obtain ⟨number, own, _, same⟩ := times raw member
                        refine route_congr fun number' own' => ?_
                        cases own.symm.trans own'
                        exact same
                      obtain ⟨each, all⟩ := dispatchLogs_ok looped
                      rcases Moment.commit_cases committed with ⟨err, failed, _⟩ | ⟨_, _, rfl⟩
                      · cases failed
                      · refine ⟨raws, dispatched, sameLogs ▸ stored, rfl, fun raw member => ⟨?_, ?_⟩,
                          fun routed => (all routed).trans ?_, strict⟩
                        · obtain ⟨number, own, present, _⟩ := times raw member
                          exact ⟨number, own, present⟩
                        · rw [← sameRoute raw member]
                          exact each raw member
                        · constructor
                          · rintro ⟨raw, member, own⟩
                            exact ⟨raw, member, sameRoute raw member ▸ own⟩
                          · rintro ⟨raw, member, own⟩
                            exact ⟨raw, member, (sameRoute raw member).symm ▸ own⟩

/-- **A chunk that fails changes nothing but the cache.** -/
theorem backfillChunk_error {err : ChunkError} (ran : backfillChunk decoder job moment chunkStart
      chunkEnd cache db = (cache', db', .error err)) : db' = db := by
  unfold backfillChunk at ran
  split at ran
  · cases ran
    rfl
  · cases ran
    rfl
  · generalize committed : moment.commit job chunkEnd 0 [] [] db = after at ran
    cases ran
    rcases Moment.commit_cases committed with ⟨_, _, same⟩ | ⟨_, succeeded, _⟩
    · exact same
    · cases succeeded
  · split at ran
    · cases ran
      rfl
    · split at ran
      · cases ran
        rfl
      · split at ran
        · generalize committed : moment.commit job chunkEnd _ _ _ db = after at ran
          cases ran
          rcases Moment.commit_cases committed with ⟨_, _, same⟩ | ⟨_, succeeded, _⟩
          · exact same
          · cases succeeded
        · cases ran
          rfl

/-- Whatever a chunk caches was answered. -/
theorem backfillChunk_answered {logsAre : LogsCall → Option (List RawLog) → Prop}
    {headerIs : ℕ → Header → Prop} (answers : moment.archive.Answers logsAre headerIs)
    (answered : cache.Answered logsAre headerIs) :
    (backfillChunk decoder job moment chunkStart chunkEnd cache db).1.Answered logsAre headerIs := by
  unfold backfillChunk
  split
  · next fetched => exact fetchLogs_answered answers answered fetched
  · next fetched => exact fetchLogs_answered answers answered fetched
  · next fetched => exact fetchLogs_answered answers answered fetched
  · next fetched =>
      have middle := fetchLogs_answered answers answered fetched
      split
      · next times => exact fetchBlockTimestamps_answered answers middle times
      · next times =>
          have after := fetchBlockTimestamps_answered answers middle times
          split
          · exact after
          · split
            · exact after
            · exact after

end Chunk

end ProtocolExplorer.Indexer.Wire
