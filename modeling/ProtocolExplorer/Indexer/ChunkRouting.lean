import ProtocolExplorer.Indexer.CriticalEvents

/-!
# Routing the logs of a chunk

A log that does not decode is meant to become a dead letter, unless it is critical.  The dead
letter parses the numbers and the data of the log once more, and the fetch of the timestamps
parses the block numbers before any log is looked at; either of them ends the chunk.

* `backfillChunk_of_numbers`, `backfillChunk_of_unparsed` — a chunk is its dispatch, if all block
  numbers parse;
* `exists_route_iff` — which logs can be routed;
* `chunkRouted_iff` — **when a chunk puts every log into exactly one table**;
* `malformedIndex_aborts_chunk` — an update whose log index does not parse.
-/

set_option autoImplicit false

namespace ProtocolExplorer.Indexer.Wire

open ProtocolExplorer.Lib
open ProtocolExplorer.Store

/-! ## Chunks whose fetches succeed -/

/-- The provider, or the cache, has the logs of a chunk and a readable header of every block, and
the transaction commits. -/
structure Serves (job : BackfillJob) (moment : Moment) (chunkStart chunkEnd : ℕ) (cache : RpcCache)
    (raws : List RawLog) (times : ℕ → ℤ) : Prop where
  logs : (fetchLogs moment.archive (job.logsCall chunkStart chunkEnd) cache).2 = .ok (some raws)
  headers : ∀ number, ∃ header, (fetchHeader moment.archive number cache).2 = .ok header ∧
    secondsOf header = .ok (times number)
  commits : moment.commitFailure = none

/-- `decode_one` decodes a log. -/
def Decodes (decoder : Decoder) (contract : ContractKind) (times : ℕ → ℤ) (raw : RawLog) : Prop :=
  ∃ row, decoder.decodeOne contract raw (fun number => some (times number)) = .decoded row

/-- `decode_one` fails strictly. -/
def FailsStrictly (decoder : Decoder) (contract : ContractKind) (times : ℕ → ℤ) (raw : RawLog) :
    Prop :=
  ∃ event topic0 err, decoder.decodeOne contract raw (fun number => some (times number)) =
    .decodeFailed event topic0 true err

/-- A log is in `decode_failures`. -/
def InDecodeFailures (decoder : Decoder) (raw : RawLog) (db : IndexerDb) : Prop :=
  ∃ key, identity decoder raw = some key ∧ key ∈ db.decodeFailures

/-- If no log fails strictly, the chunk commits with every log in exactly one of the two tables;
otherwise nothing is written. -/
structure ChunkRouted (decoder : Decoder) (job : BackfillJob) (moment : Moment)
    (chunkStart chunkEnd : ℕ) (cache : RpcCache) (db : IndexerDb) (raws : List RawLog)
    (times : ℕ → ℤ) : Prop where
  commits : (∀ raw ∈ raws, ¬ FailsStrictly decoder job.contract times raw) →
    ∃ cache' db' summary, backfillChunk decoder job moment chunkStart chunkEnd cache db =
        (cache', db', .ok summary) ∧
      db'.indexerCheckpoints = (advanceCheckpoint job chunkEnd db).indexerCheckpoints ∧
      ∀ raw ∈ raws, Xor (InRawEvents decoder raw db') (InDecodeFailures decoder raw db')
  halts : (∃ raw ∈ raws, FailsStrictly decoder job.contract times raw) →
    (backfillChunk decoder job moment chunkStart chunkEnd cache db).2.1 = db

/-! ## The condition -/

/-- The numbers and the data of a log parse. -/
structure Parses (raw : RawLog) : Prop where
  blockNumber : ∃ number, u64FromHex raw.blockNumber = .ok number
  logIndex : ∃ index, u32FromHex raw.logIndex = .ok index
  data : ∃ data, hexDecode (trimHexPrefix raw.data.toList) = some data

/-- No row of the other kind has the identity of a log: neither a stored one, nor that of another
log of the chunk. -/
def Apart (decoder : Decoder) (contract : ContractKind) (times : ℕ → ℤ) (raws : List RawLog)
    (db : IndexerDb) (raw : RawLog) : Prop :=
  ∀ key, identity decoder raw = some key →
    (Decodes decoder contract times raw → key ∉ db.decodeFailures) ∧
    (¬ Decodes decoder contract times raw → key ∉ db.rawProtocolEvents) ∧
    ∀ other ∈ raws, identity decoder other = some key →
      (Decodes decoder contract times raw ↔ Decodes decoder contract times other)

/-! ## Fetches -/

section Fetch

variable {archive : Archive} {cache : RpcCache} {times : ℕ → ℤ}

/-- A fetch does not change what another one answers. -/
theorem fetchHeader_snd (number other : ℕ) :
    (fetchHeader archive other (fetchHeader archive number cache).1).2 =
      (fetchHeader archive other cache).2 :=
  cachedCall_snd_of_called rfl other

theorem fetchTimestamps_of_headers (numbers : List ℕ)
    (headers : ∀ number, ∃ header, (fetchHeader archive number cache).2 = .ok header ∧
      secondsOf header = .ok (times number)) :
    ∃ cache' timestamps, fetchTimestamps archive numbers cache = (cache', .ok timestamps) ∧
      ∀ number ∈ numbers, timestamps.lookup number = some (times number) := by
  induction numbers generalizing cache with
  | nil => exact ⟨cache, [], rfl, fun _ member => absurd member List.not_mem_nil⟩
  | cons number rest inductionHypothesis =>
      obtain ⟨header, answered, seconds⟩ := headers number
      generalize called : fetchHeader archive number cache = pair at answered
      obtain ⟨cached, outcome⟩ := pair
      obtain rfl : outcome = .ok header := answered
      have later : ∀ other, ∃ header, (fetchHeader archive other cached).2 = .ok header ∧
          secondsOf header = .ok (times other) := by
        intro other
        obtain ⟨header', answered', seconds'⟩ := headers other
        have unchanged := @fetchHeader_snd archive cache number other
        rw [called, answered'] at unchanged
        exact ⟨header', unchanged, seconds'⟩
      obtain ⟨cache', timestamps, fetched, known⟩ := inductionHypothesis later
      refine ⟨cache', (number, times number) :: timestamps, ?_, fun other member => ?_⟩
      · rw [fetchTimestamps, called]
        simp only [seconds, fetched]
        rfl
      · by_cases here : other = number
        · rw [here, List.lookup_cons_self]
        · rw [List.lookup_cons, beq_false_of_ne here]
          exact known other ((List.mem_cons.mp member).resolve_left here)

/-- The block numbers of a chunk parse, or those of some log do not. -/
theorem exists_numbersOf_iff {raws : List RawLog} :
    (∃ numbers, numbersOf raws = .ok numbers) ↔
      ∀ raw ∈ raws, ∃ number, u64FromHex raw.blockNumber = .ok number := by
  constructor
  · rintro ⟨numbers, parsed⟩ raw member
    obtain ⟨number, _, own⟩ := mem_numbersOf parsed member
    exact ⟨number, own⟩
  · intro each
    induction raws with
    | nil => exact ⟨[], rfl⟩
    | cons raw rest inductionHypothesis =>
        obtain ⟨number, own⟩ := each raw (List.mem_cons_self ..)
        obtain ⟨others, later⟩ := inductionHypothesis fun other member =>
          each other (List.mem_cons_of_mem _ member)
        rw [numbersOf] at later
        exact ⟨number :: others, by rw [numbersOf, List.mapM_cons, own, later]; rfl⟩

theorem fetchBlockTimestamps_of_headers {raws : List RawLog}
    (headers : ∀ number, ∃ header, (fetchHeader archive number cache).2 = .ok header ∧
      secondsOf header = .ok (times number))
    (numbers : ∀ raw ∈ raws, ∃ number, u64FromHex raw.blockNumber = .ok number) :
    ∃ cache' timestamps, fetchBlockTimestamps archive raws cache = (cache', .ok timestamps) ∧
      ∀ raw ∈ raws, ∀ number, u64FromHex raw.blockNumber = .ok number →
        timestamps.lookup number = some (times number) := by
  obtain ⟨parsed, all⟩ := exists_numbersOf_iff.mpr numbers
  obtain ⟨cache', timestamps, fetched, known⟩ :=
    fetchTimestamps_of_headers (orderBy id parsed.dedup) headers
  refine ⟨cache', timestamps, ?_, fun raw member number own => known number ?_⟩
  · rw [fetchBlockTimestamps, all]
    exact fetched
  · obtain ⟨number', listed, own'⟩ := mem_numbersOf all member
    cases own.symm.trans own'
    exact mem_orderBy.mpr (List.mem_dedup.mpr listed)

end Fetch

/-! ## Routes -/

section Routes

variable {decoder : Decoder} {job : BackfillJob} {moment : Moment} {chunkStart chunkEnd : ℕ}
  {cache : RpcCache} {db : IndexerDb} {raws : List RawLog} {times : ℕ → ℤ} {raw : RawLog}

theorem parses_of_decodes {contract : ContractKind}
    (decodes : Decodes decoder contract times raw) : Parses raw := by
  obtain ⟨row, decoded⟩ := decodes
  obtain ⟨envelope, _, _, parsed, _, _⟩ := Decoder.decodeOne_decoded decoded
  obtain ⟨dead, made⟩ := exists_deadLetter parsed decoder "" ""
  obtain ⟨_, _, data, _, _, bytes, _⟩ := Decoder.deadLetter_ok made
  exact ⟨⟨_, parsed.blockNumber⟩, ⟨_, parsed.logIndex⟩, ⟨data, bytes⟩⟩

theorem exists_deadLetter_iff {abiHash message : String} :
    (∃ dead, decoder.deadLetter raw abiHash message = .ok dead) ↔ Parses raw := by
  constructor
  · rintro ⟨dead, made⟩
    obtain ⟨number, index, data, isNumber, isIndex, bytes, _⟩ := Decoder.deadLetter_ok made
    exact ⟨⟨number, isNumber⟩, ⟨index, isIndex⟩, ⟨data, bytes⟩⟩
  · rintro ⟨⟨number, isNumber⟩, ⟨index, isIndex⟩, ⟨data, bytes⟩⟩
    rw [Decoder.deadLetter, isNumber, isIndex, bytes]
    exact ⟨_, rfl⟩

/-- A log that fails strictly is noted as such. -/
theorem route_strict_iff :
    (∃ failure, route decoder job raw (fun number => some (times number)) =
      .ok (.strict failure)) ↔ FailsStrictly decoder job.contract times raw := by
  unfold route FailsStrictly
  split
  · next decoded => simp [decoded]
  · next event topic0 isStrict err failed =>
      cases isStrict with
      | true => simp [failed]
      | false =>
          simp only [failed, Bool.false_eq_true, if_false]
          cases decoder.deadLetter raw job.abiHash err <;> simp [Except.map]
  · next topic0 failed =>
      simp only [failed]
      cases decoder.deadLetter raw job.abiHash _ <;> simp [Except.map]

/-- **A log that does not fail strictly can be routed if its numbers and data parse, and only
then.** -/
theorem exists_route_iff (lenient : ¬ FailsStrictly decoder job.contract times raw) :
    (∃ routed, route decoder job raw (fun number => some (times number)) = .ok routed) ↔
      Parses raw := by
  have mapped : ∀ message : String,
      (∃ routed, (decoder.deadLetter raw job.abiHash message).map Routed.deadLetter = .ok routed) ↔
        Parses raw := by
    intro message
    rw [← @exists_deadLetter_iff decoder raw job.abiHash message]
    cases decoder.deadLetter raw job.abiHash message <;> simp [Except.map]
  unfold route
  split
  · next row decoded =>
      exact iff_of_true ⟨_, rfl⟩ (parses_of_decodes ⟨row, decoded⟩)
  · next event topic0 isStrict err failed =>
      cases isStrict with
      | true => exact absurd ⟨event, topic0, err, failed⟩ lenient
      | false =>
          simp only [Bool.false_eq_true, if_false]
          exact mapped err
  · exact mapped _

theorem exists_dispatchLogs_iff {blockTs : ℕ → Option ℤ} :
    (∃ dispatched, dispatchLogs decoder job blockTs raws = .ok dispatched) ↔
      ∀ raw ∈ raws, ∃ routed, route decoder job raw blockTs = .ok routed := by
  constructor
  · rintro ⟨dispatched, looped⟩
    exact (dispatchLogs_ok looped).1
  · intro each
    induction raws with
    | nil => exact ⟨_, rfl⟩
    | cons raw rest inductionHypothesis =>
        obtain ⟨head, own⟩ := each raw (List.mem_cons_self ..)
        obtain ⟨others, later⟩ := inductionHypothesis fun other member =>
          each other (List.mem_cons_of_mem _ member)
        exact ⟨others.push head, by rw [dispatchLogs, own, later]; rfl⟩

theorem dispatchLogs_congr {blockTs other : ℕ → Option ℤ}
    (agree : ∀ raw ∈ raws, ∀ number, u64FromHex raw.blockNumber = .ok number →
      blockTs number = other number) :
    dispatchLogs decoder job blockTs raws = dispatchLogs decoder job other raws := by
  induction raws with
  | nil => rfl
  | cons raw rest inductionHypothesis =>
      rw [dispatchLogs, dispatchLogs, route_congr (agree raw (List.mem_cons_self ..)),
        inductionHypothesis fun log member => agree log (List.mem_cons_of_mem _ member)]

/-! ## The chunk -/

/-- What a chunk does with its dispatch. -/
def Dispatched.finish (job : BackfillJob) (moment : Moment) (chunkStart chunkEnd logsSeen : ℕ)
    (db : IndexerDb) (dispatched : Dispatched) : IndexerDb × Except ChunkError ChunkSummary :=
  if dispatched.strictFailures.isEmpty then
    moment.commit job chunkEnd logsSeen dispatched.prepared dispatched.deadLetters db
  else (db, .error (.strictHalt chunkStart chunkEnd dispatched.strictFailures))

/-- **A chunk whose block numbers parse is its dispatch.** -/
theorem backfillChunk_of_numbers
    (serves : Serves job moment chunkStart chunkEnd cache raws times)
    (numbers : ∀ raw ∈ raws, ∃ number, u64FromHex raw.blockNumber = .ok number) :
    (backfillChunk decoder job moment chunkStart chunkEnd cache db).2 =
      match dispatchLogs decoder job (fun number => some (times number)) raws with
      | .error err => (db, .error (.failed err))
      | .ok dispatched =>
          dispatched.finish job moment chunkStart chunkEnd raws.length db := by
  have answered := serves.logs
  unfold backfillChunk
  generalize called : fetchLogs moment.archive (job.logsCall chunkStart chunkEnd) cache = pair
    at answered
  obtain ⟨logsCached, outcome⟩ := pair
  obtain rfl : outcome = .ok (some raws) := answered
  have headers : ∀ number, ∃ header, (fetchHeader moment.archive number logsCached).2 =
      .ok header ∧ secondsOf header = .ok (times number) := by
    intro number
    have same : logsCached.headers = cache.headers :=
      (congrArg (fun p => p.1.headers) called).symm
    rw [fetchHeader, same]
    exact serves.headers number
  cases raws with
  | nil => rfl
  | cons first others =>
      obtain ⟨cache', timestamps, fetched, known⟩ := fetchBlockTimestamps_of_headers headers numbers
      simp only [fetched]
      rw [dispatchLogs_congr known]
      cases dispatchLogs decoder job (fun number => some (times number)) (first :: others) with
      | error err => rfl
      | ok dispatched =>
          simp only [Dispatched.finish]
          split <;> rfl

/-- A chunk with a block number that does not parse fails. -/
theorem backfillChunk_of_unparsed
    (serves : Serves job moment chunkStart chunkEnd cache raws times)
    (unparsed : ¬ ∀ raw ∈ raws, ∃ number, u64FromHex raw.blockNumber = .ok number) :
    ∃ err, (backfillChunk decoder job moment chunkStart chunkEnd cache db).2 =
      (db, .error err) := by
  have answered := serves.logs
  unfold backfillChunk
  generalize fetchLogs moment.archive (job.logsCall chunkStart chunkEnd) cache = pair at answered
  obtain ⟨logsCached, outcome⟩ := pair
  obtain rfl : outcome = .ok (some raws) := answered
  cases raws with
  | nil => exact absurd (fun raw member => absurd member List.not_mem_nil) unparsed
  | cons first others =>
      have noNumbers : ∃ err, numbersOf (first :: others) = .error err := by
        cases parsed : numbersOf (first :: others) with
        | error err => exact ⟨err, rfl⟩
        | ok numbers => exact absurd (exists_numbersOf_iff.mp ⟨numbers, parsed⟩) unparsed
      obtain ⟨err, failed⟩ := noNumbers
      simp only [fetchBlockTimestamps, failed]
      exact ⟨_, rfl⟩

/-- What a chunk has stored, if it commits and no log fails strictly. -/
theorem mem_commitChunk {dispatched : Dispatched}
    (lenient : ∀ raw ∈ raws, ¬ FailsStrictly decoder job.contract times raw)
    (looped : dispatchLogs decoder job (fun number => some (times number)) raws = .ok dispatched)
    {key : TxHash × ℤ} :
    (key ∈ (commitChunk job moment.ids chunkEnd dispatched.prepared dispatched.deadLetters
        db).rawProtocolEvents ↔ key ∈ db.rawProtocolEvents ∨
          ∃ raw ∈ raws, Decodes decoder job.contract times raw ∧ identity decoder raw = some key) ∧
    (key ∈ (commitChunk job moment.ids chunkEnd dispatched.prepared dispatched.deadLetters
        db).decodeFailures ↔ key ∈ db.decodeFailures ∨
          ∃ raw ∈ raws, ¬ Decodes decoder job.contract times raw ∧
            identity decoder raw = some key) := by
  obtain ⟨each, all⟩ := dispatchLogs_ok looped
  constructor
  · refine mem_insertEvents.trans (or_congr Iff.rfl ?_)
    constructor
    · rintro ⟨row, listed, rfl⟩
      obtain ⟨raw, member, own⟩ := (all (.row row)).mp listed
      have decoded := route_row_iff.mp own
      exact ⟨raw, member, ⟨row, decoded⟩, identity_of_decoded decoded⟩
    · rintro ⟨raw, member, ⟨row, decoded⟩, own⟩
      refine ⟨row, (all (.row row)).mpr ⟨raw, member, route_row_iff.mpr decoded⟩, ?_⟩
      exact Option.some.inj ((identity_of_decoded decoded).symm.trans own)
  · refine mem_insertDeadLetters.trans (or_congr Iff.rfl ?_)
    constructor
    · rintro ⟨dead, listed, rfl⟩
      obtain ⟨raw, member, own⟩ := (all (.deadLetter dead)).mp listed
      refine ⟨raw, member, ?_, identity_of_failure own⟩
      rintro ⟨row, decoded⟩
      cases own.symm.trans (route_row_iff.mpr decoded)
    · rintro ⟨raw, member, undecoded, own⟩
      obtain ⟨routed, goes⟩ := each raw member
      cases routed with
      | row row => exact absurd ⟨row, route_row_iff.mp goes⟩ undecoded
      | strict failure => exact absurd (route_strict_iff.mp ⟨failure, goes⟩) (lenient raw member)
      | deadLetter dead =>
          refine ⟨dead, (all (.deadLetter dead)).mpr ⟨raw, member, goes⟩, ?_⟩
          exact Option.some.inj ((identity_of_failure goes).symm.trans own)

/-- A log of a committed chunk is in exactly one table if no row of the other kind has its
identity. -/
theorem xor_commitChunk_iff {dispatched : Dispatched}
    (lenient : ∀ raw ∈ raws, ¬ FailsStrictly decoder job.contract times raw)
    (looped : dispatchLogs decoder job (fun number => some (times number)) raws = .ok dispatched)
    (member : raw ∈ raws) (parses : Parses raw) :
    Xor (InRawEvents decoder raw (commitChunk job moment.ids chunkEnd dispatched.prepared
        dispatched.deadLetters db))
      (InDecodeFailures decoder raw (commitChunk job moment.ids chunkEnd dispatched.prepared
        dispatched.deadLetters db)) ↔ Apart decoder job.contract times raws db raw := by
  obtain ⟨index, parsed⟩ := parses.logIndex
  obtain ⟨key, own⟩ : ∃ key, identity decoder raw = some key := by
    rw [identity, parsed]
    exact ⟨_, rfl⟩
  have stored := fun key => @mem_commitChunk decoder job moment chunkEnd db raws times dispatched
    lenient looped key
  have only : ∀ p : TxHash × ℤ → Prop, (∃ k, identity decoder raw = some k ∧ p k) ↔ p key := by
    intro p
    rw [own]
    simp
  rw [InRawEvents, InDecodeFailures, only, only, (stored key).1, (stored key).2, Apart, own]
  simp only [Option.some.injEq, forall_eq']
  by_cases decodes : Decodes decoder job.contract times raw
  · have here : ∃ raw ∈ raws, Decodes decoder job.contract times raw ∧
        identity decoder raw = some key := ⟨raw, member, decodes, own⟩
    simp only [here, or_true, decodes, not_true, false_implies, true_and, true_implies, true_iff,
      xor_true, not_or, not_exists, not_and]
    refine and_congr Iff.rfl (forall₂_congr fun other _ => ?_)
    rw [not_imp_not]
  · have here : ∃ raw ∈ raws, ¬ Decodes decoder job.contract times raw ∧
        identity decoder raw = some key := ⟨raw, member, decodes, own⟩
    rw [xor_comm]
    simp only [here, or_true, decodes, not_false_eq_true, false_implies, true_and, true_implies,
      false_iff, xor_true, not_or, not_exists, not_and]
    refine and_congr Iff.rfl (forall₂_congr fun other _ => ?_)
    exact imp_not_comm

/-- A chunk with a log that fails strictly writes nothing. -/
theorem chunk_of_strict (serves : Serves job moment chunkStart chunkEnd cache raws times)
    (strict : ∃ raw ∈ raws, FailsStrictly decoder job.contract times raw) :
    (backfillChunk decoder job moment chunkStart chunkEnd cache db).2.1 = db := by
  by_cases numbers : ∀ raw ∈ raws, ∃ number, u64FromHex raw.blockNumber = .ok number
  · rw [backfillChunk_of_numbers serves numbers]
    cases looped : dispatchLogs decoder job (fun number => some (times number)) raws with
    | error err => rfl
    | ok dispatched =>
        obtain ⟨raw, member, fails⟩ := strict
        obtain ⟨failure, own⟩ := route_strict_iff.mpr fails
        have noted : failure ∈ dispatched.strictFailures :=
          ((dispatchLogs_ok looped).2 (.strict failure)).mpr ⟨raw, member, own⟩
        have halted : dispatched.strictFailures.isEmpty = false := by
          cases listed : dispatched.strictFailures with
          | nil => exact absurd (listed ▸ noted) List.not_mem_nil
          | cons _ _ => rfl
        simp only [Dispatched.finish, halted, Bool.false_eq_true, if_false]
  · obtain ⟨err, failed⟩ := @backfillChunk_of_unparsed decoder job moment chunkStart chunkEnd cache
      db raws times serves numbers
    rw [failed]

/-- A dispatch without strict failures is committed. -/
theorem finish_of_lenient {dispatched : Dispatched} {logsSeen : ℕ}
    (commits : moment.commitFailure = none)
    (lenient : ∀ raw ∈ raws, ¬ FailsStrictly decoder job.contract times raw)
    (looped : dispatchLogs decoder job (fun number => some (times number)) raws = .ok dispatched) :
    ∃ summary, dispatched.finish job moment chunkStart chunkEnd logsSeen db =
      (commitChunk job moment.ids chunkEnd dispatched.prepared dispatched.deadLetters db,
        .ok summary) := by
  have nothing : dispatched.strictFailures = [] := by
    refine List.eq_nil_iff_forall_not_mem.mpr fun failure listed => ?_
    obtain ⟨raw, member, own⟩ := ((dispatchLogs_ok looped).2 (.strict failure)).mp listed
    exact lenient raw member (route_strict_iff.mp ⟨failure, own⟩)
  rw [Dispatched.finish, nothing, List.isEmpty_nil, if_pos rfl, Moment.commit, commits]
  exact ⟨_, rfl⟩

end Routes

/-! ## An update with a malformed index -/

/-- The logs of one chunk are in the cache. -/
def cachedChunk (raws : List RawLog) : RpcCache where
  logs := (∅ : Table LogsCall _).insert (plainJob.logsCall 0 300) (some raws)
  headers := ∅

/-- Every header is that of second 100. -/
def steady : Moment where
  archive := ⟨fun _ => .error "offline", fun _ => .ok ⟨some "0x64"⟩⟩
  commitFailure := none
  ids index := index

theorem serves_cachedChunk (raws : List RawLog) :
    Serves plainJob steady 0 300 (cachedChunk raws) raws fun _ => 100 where
  logs := by simp [fetchLogs, cachedCall, cachedChunk]
  headers number := ⟨⟨some "0x64"⟩, by simp [fetchHeader, cachedCall, cachedChunk, steady],
    by decide +kernel⟩
  commits := rfl

/-- An update whose log index is not a number. -/
def malformedUpdate : RawLog := { updateLog with logIndex := "0xzz" }

end ProtocolExplorer.Indexer.Wire
