import ProtocolExplorer.Indexer.Chunking

/-!
# Critical events

A log whose first topic `is_strict_event` names moves stake or money, and losing it corrupts
balances.  Each exit of `decode_one` decides on its own whether its failure is strict; the exits
for a malformed envelope are not.  All of them but one also keep a dead letter from being made
or are caught before, so the chunk fails; a timestamp without a date is the one left.

* `route_critical` — where a critical log goes when its timestamp has a date;
* `critical_neverDropped_iff` — **exactly the critical logs with such a timestamp get lost**.
-/

set_option autoImplicit false

namespace ProtocolExplorer.Indexer.Wire

open ProtocolExplorer.Lib
open ProtocolExplorer.Store

/-! ## Losing a log -/

/-- `is_strict_event` of the first topic of a log. -/
def IsCritical (decoder : Decoder) (contract : ContractKind) (raw : RawLog) : Prop :=
  ∃ topic0, Decoder.topic0Of raw = some topic0 ∧ decoder.isStrictEvent contract topic0 = true

/-- A dead letter is made from a log. -/
def MadeFrom (decoder : Decoder) (job : BackfillJob) (raw : RawLog) (dead : DeadLetterRow) : Prop :=
  ∃ message, decoder.deadLetter raw job.abiHash message = .ok dead

/-- A log is in `raw_protocol_events`. -/
def InRawEvents (decoder : Decoder) (raw : RawLog) (db : IndexerDb) : Prop :=
  ∃ key, identity decoder raw = some key ∧ key ∈ db.rawProtocolEvents

/-- A chunk has not written the log to `decode_failures`: a row made from it was there before, or
is that of a log of the same answer that is not critical. -/
def NotDeadLettered (decoder : Decoder) (job : BackfillJob) (raw : RawLog) (raws : List RawLog)
    (before after : IndexerDb) : Prop :=
  ∀ key dead, after.decodeFailures.lookup key = some dead → MadeFrom decoder job raw dead →
    before.decodeFailures.lookup key = some dead ∨
      ∃ other ∈ raws, ¬ IsCritical decoder job.contract other ∧ MadeFrom decoder job other dead

/-- Every chunk either fails and commits nothing, or, if the log is in its answer and the header
is that of the log's block, has stored the log and not written it to `decode_failures`. -/
def NeverDropped (decoder : Decoder) (job : BackfillJob) (raw : RawLog) (header : Header) : Prop :=
  ∀ (moment : Moment) (chunkStart chunkEnd : ℕ) (cache : RpcCache) (db : IndexerDb),
    match backfillChunk decoder job moment chunkStart chunkEnd cache db with
    | (_, db', .error _) => db' = db
    | (cache', db', .ok _) => ∀ raws,
        cache'.logs.lookup (job.logsCall chunkStart chunkEnd) = some (some raws) → raw ∈ raws →
        (∀ number, u64FromHex raw.blockNumber = .ok number →
          cache'.headers.lookup number = some header) →
        InRawEvents decoder raw db' ∧ NotDeadLettered decoder job raw raws db db'

/-- If the fields of the log and of its header parse, the timestamp has a date. -/
def Datable (raw : RawLog) (header : Header) : Prop :=
  ∀ envelope, Decoder.HasEnvelope raw (fun _ => (secondsOf header).toOption) envelope →
    InTimestampRange envelope.seconds

/-! ## The exits of the decoder -/

section Route

variable {decoder : Decoder} {job : BackfillJob} {raw : RawLog} {blockTs : ℕ → Option ℤ}

theorem strictEvents_subset (contract : ContractKind) : strictEvents contract ⊆ eventsOf contract := by
  cases contract <;> decide

/-- A critical topic is that of an event of the contract. -/
theorem isSome_eventOf_of_isStrictEvent {contract : ContractKind} {topic0 : B256}
    (strict : decoder.isStrictEvent contract topic0 = true) :
    (decoder.eventOf contract topic0).isSome := by
  obtain ⟨event, listed, same⟩ := List.any_eq_true.mp strict
  exact List.find?_isSome.mpr ⟨event, strictEvents_subset contract listed, same⟩

/-- The dispatch of a critical topic decodes the log or fails strictly. -/
theorem dispatch_critical {contract : ContractKind} {topic0 : B256} {logData : LogData}
    {blockNumber logIndex : ℕ} {seconds : ℤ}
    (strict : decoder.isStrictEvent contract topic0 = true) :
    (∃ row, decoder.dispatch contract raw topic0 logData blockNumber logIndex seconds =
        .decoded row) ∨
      ∃ event err, decoder.dispatch contract raw topic0 logData blockNumber logIndex seconds =
        .decodeFailed event topic0 true err := by
  unfold Decoder.dispatch
  cases found : decoder.eventOf contract topic0 with
  | none =>
      have known := isSome_eventOf_of_isStrictEvent strict
      rw [found] at known
      cases known
  | some event =>
      simp only
      split
      · exact Or.inl ⟨_, rfl⟩
      · split
        · exact Or.inr ⟨_, _, by rw [strict]⟩
        · exact Or.inl ⟨_, rfl⟩

/-- A dead letter needs both numbers of its log. -/
theorem deadLetter_error_of_numbers {abiHash message : String}
    (unparsed : (∀ number, u64FromHex raw.blockNumber ≠ .ok number) ∨
      ∀ index, u32FromHex raw.logIndex ≠ .ok index) :
    ∃ err, decoder.deadLetter raw abiHash message = .error err := by
  cases made : decoder.deadLetter raw abiHash message with
  | error err => exact ⟨err, rfl⟩
  | ok dead =>
      obtain ⟨number, index, _, isNumber, isIndex, _, _⟩ := Decoder.deadLetter_ok made
      rcases unparsed with noNumber | noIndex
      · exact absurd isNumber (noNumber number)
      · exact absurd isIndex (noIndex index)

/-- **A critical log whose timestamp is known and has a date is decoded, halts the chunk, or
cannot be routed at all.** -/
theorem route_critical {routed : Routed} (critical : IsCritical decoder job.contract raw)
    (timed : ∀ number, u64FromHex raw.blockNumber = .ok number → (blockTs number).isSome)
    (dated : ∀ envelope, Decoder.HasEnvelope raw blockTs envelope →
      InTimestampRange envelope.seconds)
    (own : route decoder job raw blockTs = .ok routed) :
    (∃ row, routed = .row row) ∨ ∃ failure, routed = .strict failure := by
  obtain ⟨topic0, topic, strict⟩ := critical
  unfold route at own
  cases built : buildLogData raw with
  | error err =>
      simp only [Decoder.decodeOne, topic, built, strict, if_pos, Except.ok.injEq] at own
      exact Or.inr ⟨_, own.symm⟩
  | ok logData =>
  cases number : u64FromHex raw.blockNumber with
  | error err =>
      obtain ⟨failed, unrouted⟩ := @deadLetter_error_of_numbers decoder raw job.abiHash
        ("bad block_number: " ++ err.message) (Or.inl (by simp [number]))
      simp [Decoder.decodeOne, topic, built, number, unrouted, Except.map] at own
  | ok blockNumber =>
  cases index : u32FromHex raw.logIndex with
  | error err =>
      obtain ⟨failed, unrouted⟩ := @deadLetter_error_of_numbers decoder raw job.abiHash
        ("bad log_index: " ++ err.message) (Or.inr (by simp [index]))
      simp [Decoder.decodeOne, topic, built, number, index, unrouted, Except.map] at own
  | ok logIndex =>
      obtain ⟨seconds, time⟩ := Option.isSome_iff_exists.mp (timed blockNumber number)
      have parsed : Decoder.HasEnvelope raw blockTs
          ⟨topic0, logData, blockNumber, logIndex, seconds⟩ := ⟨topic, built, number, index, time⟩
      rw [Decoder.decodeOne_of_envelope parsed, if_pos (dated _ parsed)] at own
      rcases @dispatch_critical decoder raw job.contract topic0 logData blockNumber logIndex seconds
        strict with ⟨row, decoded⟩ | ⟨event, err, failed⟩
      · rw [decoded] at own
        exact Or.inl ⟨row, (Except.ok.inj own).symm⟩
      · rw [failed] at own
        exact Or.inr ⟨_, (Except.ok.inj own).symm⟩

end Route

/-! ## Exactly which logs are never dropped -/

section NeverDropped

variable {decoder : Decoder} {job : BackfillJob} {raw other : RawLog} {header : Header}

/-- Numbers that fit are told apart as `i64`. -/
theorem asI64_injective {a b : ℕ} (small : a ≤ 2 ^ 64 - 1) (small' : b ≤ 2 ^ 64 - 1)
    (same : asI64 a = asI64 b) : a = b := by
  have first : Int.bmod a (2 ^ 64) % ((2 ^ 64 : ℕ) : ℤ) = (a : ℤ) % ((2 ^ 64 : ℕ) : ℤ) :=
    Int.bmod_emod
  have second : Int.bmod b (2 ^ 64) % ((2 ^ 64 : ℕ) : ℤ) = (b : ℤ) % ((2 ^ 64 : ℕ) : ℤ) :=
    Int.bmod_emod
  unfold asI64 at same
  rw [same] at first
  rw [first] at second
  norm_num at second small small'
  omega

/-- Logs with a common dead letter are of one block. -/
theorem MadeFrom.blockNumber_eq {dead : DeadLetterRow} (made : MadeFrom decoder job raw dead)
    (made' : MadeFrom decoder job other dead) :
    u64FromHex raw.blockNumber = u64FromHex other.blockNumber := by
  obtain ⟨_, made⟩ := made
  obtain ⟨_, made'⟩ := made'
  obtain ⟨number, _, _, own, _, _, rfl⟩ := Decoder.deadLetter_ok made
  obtain ⟨number', _, _, own', _, _, same⟩ := Decoder.deadLetter_ok made'
  have sameNumber := asI64_injective (unsignedFromRadix_le own) (unsignedFromRadix_le own')
    (congrArg DeadLetterRow.blockNumber same)
  rw [own, own', sameNumber]

/-- **A log that is datable, or not critical, is never dropped.** -/
theorem neverDropped_of_datable (critical : IsCritical decoder job.contract raw)
    (datable : Datable raw header) : NeverDropped decoder job raw header := by
  intro moment chunkStart chunkEnd cache db
  generalize ran : backfillChunk decoder job moment chunkStart chunkEnd cache db = after
  obtain ⟨cache', db', result⟩ := after
  cases result with
  | error err => exact backfillChunk_error ran
  | ok summary =>
      intro raws answered member ownHeader
      obtain ⟨raws', dispatched, fetched, rfl, each, all, noStrict⟩ := backfillChunk_ok ran
      obtain rfl : raws' = raws := Option.some.inj (Option.some.inj (fetched.symm.trans answered))
      have notStrict : ∀ failure, ∀ log ∈ raws',
          route decoder job log cache'.timestampOf ≠ .ok (.strict failure) := by
        intro failure log listed own
        have has := (all (.strict failure)).mpr ⟨log, listed, own⟩
        rw [Dispatched.Has, noStrict] at has
        cases has
      have routed : ∀ log ∈ raws', IsCritical decoder job.contract log →
          (∀ envelope, Decoder.HasEnvelope log cache'.timestampOf envelope →
            InTimestampRange envelope.seconds) →
          ∃ row, route decoder job log cache'.timestampOf = .ok (.row row) := by
        intro log listed isCritical dated
        obtain ⟨⟨number, parsed, present⟩, goesTo, own⟩ := each log listed
        have timed : ∀ number, u64FromHex log.blockNumber = .ok number →
            (cache'.timestampOf number).isSome := by
          intro number' parsed'
          cases parsed.symm.trans parsed'
          exact present
        rcases route_critical isCritical timed dated own with ⟨row, rfl⟩ | ⟨failure, rfl⟩
        · exact ⟨row, own⟩
        · exact absurd own (notStrict failure log listed)
      have sameTime : ∀ number, u64FromHex raw.blockNumber = .ok number →
          cache'.timestampOf number = (secondsOf header).toOption := by
        intro number parsed
        rw [RpcCache.timestampOf, ownHeader number parsed, Option.bind_some]
      obtain ⟨row, ownRow⟩ := routed raw member critical fun envelope parsed =>
        datable envelope { parsed with seconds := sameTime _ parsed.blockNumber ▸ parsed.seconds }
      obtain ⟨envelope, _, _, ownEnvelope, inRange, _⟩ :=
        Decoder.decodeOne_decoded (route_row_iff.mp ownRow)
      constructor
      · refine ⟨row.key, identity_of_decoded (route_row_iff.mp ownRow), ?_⟩
        exact mem_insertEvents.mpr (Or.inr ⟨row, (all (.row row)).mpr ⟨raw, member, ownRow⟩, rfl⟩)
      · intro key dead found made
        have grown := @Table.grown_foldl_insertNew _ _ _ _
          (fun _ row => row ∈ dispatched.deadLetters) DeadLetterRow.key id dispatched.deadLetters
          (fun _ listed => listed) db.decodeFailures
        rcases grown.fresh key dead found with old | ⟨_, offered⟩
        · exact Or.inl old
        · obtain ⟨source, listed, own⟩ := (all (.deadLetter dead)).mp offered
          have madeFrom : MadeFrom decoder job source dead := route_deadLetter own
          refine Or.inr ⟨source, listed, fun isCritical => ?_, madeFrom⟩
          -- it is of the same block, whose timestamp has a date
          obtain ⟨row', own'⟩ := routed source listed isCritical fun envelope' parsed' => by
            have sameNumber := ownEnvelope.blockNumber.symm.trans
              ((made.blockNumber_eq madeFrom).trans parsed'.blockNumber)
            have sameSeconds := parsed'.seconds
            rw [← Except.ok.inj sameNumber, ownEnvelope.seconds] at sameSeconds
            exact Option.some.inj sameSeconds ▸ inRange
          cases own.symm.trans own'

/-- The dead letter of a log that parses. -/
theorem exists_deadLetter {envelope : Decoder.Envelope} {blockTs : ℕ → Option ℤ}
    (parsed : Decoder.HasEnvelope raw blockTs envelope) (decoder : Decoder)
    (abiHash message : String) : ∃ dead, decoder.deadLetter raw abiHash message = .ok dead := by
  have built := parsed.logData
  unfold buildLogData at built
  split at built
  · cases built
  · split at built
    · cases built
    · next data =>
        rw [Decoder.deadLetter, parsed.blockNumber, parsed.logIndex, data]
        exact ⟨_, rfl⟩

/-- A cache with this log for the first block, and this header for its own. -/
def lonelyLog (job : BackfillJob) (raw : RawLog) (header : Header) (number : ℕ) : RpcCache where
  logs := (∅ : Table LogsCall _).insert (job.logsCall 0 0) (some [raw])
  headers := (∅ : Table ℕ Header).insert number header

/-- Nothing is answered, and transactions commit. -/
def offline : Moment where
  archive := ⟨fun _ => .error "offline", fun _ => .error "offline"⟩
  commitFailure := none
  ids := fun _ => 0

/-- **A chunk with nothing but a log whose timestamp has no date commits it as a dead letter.** -/
theorem backfillChunk_undatable {envelope : Decoder.Envelope}
    (parsed : Decoder.HasEnvelope raw (fun _ => (secondsOf header).toOption) envelope)
    (noDate : ¬ InTimestampRange envelope.seconds) :
    ∃ summary dead, MadeFrom decoder job raw dead ∧
      backfillChunk decoder job offline 0 0 (lonelyLog job raw header envelope.blockNumber) .empty =
        (lonelyLog job raw header envelope.blockNumber,
          commitChunk job offline.ids 0 [] [dead] .empty, .ok summary) := by
  have seconds : secondsOf header = .ok envelope.seconds := by
    have known := parsed.seconds
    cases isOk : secondsOf header with
    | error err =>
        rw [isOk] at known
        cases known
    | ok value =>
        rw [isOk] at known
        exact congrArg Except.ok (Option.some.inj known)
  obtain ⟨dead, made⟩ := exists_deadLetter parsed decoder job.abiHash
    ("invalid timestamp: " ++ toString envelope.seconds)
  have logs : fetchLogs offline.archive (job.logsCall 0 0)
      (lonelyLog job raw header envelope.blockNumber) =
        (lonelyLog job raw header envelope.blockNumber, .ok (some [raw])) := by
    simp [fetchLogs, cachedCall, lonelyLog]
  have times : fetchBlockTimestamps offline.archive [raw]
      (lonelyLog job raw header envelope.blockNumber) =
        (lonelyLog job raw header envelope.blockNumber,
          .ok [(envelope.blockNumber, envelope.seconds)]) := by
    simp [fetchBlockTimestamps, numbersOf, parsed.blockNumber, fetchTimestamps, fetchHeader,
      cachedCall, lonelyLog, seconds, Except.mapError, orderBy, Except.map]
  have whole : Decoder.HasEnvelope raw
      (fun number => [(envelope.blockNumber, envelope.seconds)].lookup number) envelope :=
    { parsed with seconds := by simp }
  have looped : dispatchLogs decoder job
      (fun number => [(envelope.blockNumber, envelope.seconds)].lookup number) [raw] =
        .ok ⟨[], [dead], []⟩ := by
    simp only [dispatchLogs, route, Decoder.decodeOne_of_envelope whole, if_neg noDate, made,
      Except.map, Dispatched.push, Bool.false_eq_true, if_false]
  have ran : backfillChunk decoder job offline 0 0
      (lonelyLog job raw header envelope.blockNumber) .empty =
        (lonelyLog job raw header envelope.blockNumber,
          offline.commit job 0 1 [] [dead] .empty) := by
    simp only [backfillChunk, logs, times, looped, List.isEmpty_nil, if_true, List.length_cons,
      List.length_nil, Nat.zero_add]
  exact ⟨_, dead, ⟨_, made⟩, ran⟩

/-- Such a log is dropped. -/
theorem not_neverDropped {envelope : Decoder.Envelope}
    (parsed : Decoder.HasEnvelope raw (fun _ => (secondsOf header).toOption) envelope)
    (noDate : ¬ InTimestampRange envelope.seconds) : ¬ NeverDropped decoder job raw header := by
  intro never
  obtain ⟨summary, dead, _, ran⟩ := @backfillChunk_undatable decoder job raw header envelope parsed
    noDate
  have kept := never offline 0 0 (lonelyLog job raw header envelope.blockNumber) .empty
  rw [ran] at kept
  obtain ⟨⟨key, _, stored⟩, _⟩ := kept [raw] (by simp [lonelyLog]) (List.mem_singleton_self raw)
    (fun number own => by
      cases parsed.blockNumber.symm.trans own
      simp [lonelyLog])
  rcases mem_insertEvents.mp stored with before | ⟨row, listed, _⟩
  · exact absurd before Finmap.notMem_empty
  · cases listed

/-- **A critical log is never dropped exactly if it is datable.** -/
theorem critical_neverDropped_iff (decoder : Decoder) (job : BackfillJob) (raw : RawLog)
    (header : Header) :
    (IsCritical decoder job.contract raw → NeverDropped decoder job raw header) ↔
      (IsCritical decoder job.contract raw → Datable raw header) := by
  refine ⟨fun never critical envelope parsed => ?_,
    fun datable critical => neverDropped_of_datable critical (datable critical)⟩
  by_contra noDate
  exact not_neverDropped parsed noDate (never critical)

end NeverDropped

/-! ## A bond that is lost -/

/-- The largest timestamp an `i64` holds. -/
def endOfTime : Header := ⟨some "0x7fffffffffffffff"⟩

/-- A bond in a block without a date is a dead letter, the checkpoint passes it, and it is not
among the events. -/
theorem undatedBond_is_lost :
    IsCritical plainDecoder plainJob.contract bondLog ∧
      ¬ NeverDropped plainDecoder plainJob bondLog endOfTime := by
  refine ⟨⟨plainDecoder.signatureHash .BondingManager .Bond, by decide +kernel, by decide +kernel⟩, ?_⟩
  let envelope : Decoder.Envelope :=
    ⟨plainDecoder.signatureHash .BondingManager .Bond,
      ⟨[plainDecoder.signatureHash .BondingManager .Bond], [5], by decide⟩, 3, 0, 2 ^ 63 - 1⟩
  have parsed : Decoder.HasEnvelope bondLog (fun _ => (secondsOf endOfTime).toOption) envelope :=
    ⟨by decide +kernel, by decide +kernel, by decide +kernel, by decide +kernel, by decide +kernel⟩
  exact not_neverDropped parsed (by decide)

end ProtocolExplorer.Indexer.Wire
