import ProtocolExplorer.Finality.Watcher
import ProtocolExplorer.Indexer.Backfill
import ProtocolExplorer.Lib.Transition
import ProtocolExplorer.Reorg.Watcher

/-!
# Recovering from reorgs

The chain replaces blocks that are not final, while the indexer fetches chunks above its
per-contract checkpoints, the reorg watcher compares tentative rows with served headers and
the finality watcher stamps rows by timestamp.  No loop returns to a block below a
checkpoint, and a replacement log of a stored transaction is skipped by the insert.

* `recovers_step` — the step lemma, one lemma for each action before it;
* `recovers_run` — **in every run that replaces no indexed log, stores no log twice under
  two hashes and finalizes no orphan, the finalized canonical rows up to a final block are
  the logs of the final chain once the loops have caught up**;
* `movedTransaction_is_lost` — a transaction that lands again in a later block.
-/

set_option autoImplicit false

namespace ProtocolExplorer.Reorg

open ProtocolExplorer.Lib
open ProtocolExplorer.Store
open ProtocolExplorer.Indexer

/-! ## The system -/

/-- The chain as it is now, what of it is final, and what the pipeline has stored. -/
structure World where
  chain : List BlockHash
  /-- The number of final blocks. -/
  finalBlocks : ℕ
  cache : RpcCache
  db : Db

inductive RecoveryAction where
  /-- Keep the first blocks of the chain and continue with new ones. -/
  | reorg (keep : ℕ) (new : List BlockHash)
  | becomeFinal (finalBlocks : ℕ)
  /-- A chunk of a tick that saw the given head. -/
  | index (contract : ContractKind) (head chunkEnd : ℕ) (firstId : ℤ)
  /-- A chunk that fails with its logs and some of its headers cached. -/
  | indexFails (contract : ContractKind) (head chunkEnd headers : ℕ)
  /-- An iteration of the reorg watcher; some of its reads may fail. -/
  | watch (headServed : Bool) (served : ℤ → Bool)
  | finalize (now : Timestamp) (latestTs finalizedTs : ℤ)

/-- `INDEXER_HEAD_DEPTH_BLOCKS`. -/
def indexerHeadDepthBlocks : ℕ := 10

/-- `INDEXER_PER_TICK_BLOCKS`. -/
def indexerPerTickBlocks : ℕ := 1000

namespace World

/-- Nothing on the chain and nothing stored. -/
def start : World := ⟨[], 0, .empty, .empty⟩

/-- The chain after a reorg. -/
def reorged (w : World) (keep : ℕ) (new : List BlockHash) : List BlockHash :=
  w.chain.take keep ++ new

/-- What the secondary provider serves. -/
def view (w : World) (headServed : Bool) (served : ℤ → Bool) : ChainView where
  head := if headServed then some (w.chain.length - 1) else none
  blockHash number := if served number then w.chain[number.toNat]? else none

/-- The first block of a contract's next chunk. -/
def chunkStart (genesis : ℕ) (w : World) (contract : ContractKind) : ℕ :=
  resumeFrom genesis (w.db.loadCheckpoint (indexerCheckpoint contract))

/-- A chunk a tick may ask for: `bounded_to` is its latest end. -/
def possibleChunk (genesis : ℕ) (w : World) (contract : ContractKind) (head chunkEnd : ℕ) : Prop :=
  w.chunkStart genesis contract ≤ chunkEnd ∧
    chunkEnd ≤ min (w.chunkStart genesis contract + (indexerPerTickBlocks - 1))
      (head - indexerHeadDepthBlocks)

instance (genesis : ℕ) (w : World) (contract : ContractKind) (head chunkEnd : ℕ) :
    Decidable (w.possibleChunk genesis contract head chunkEnd) :=
  inferInstanceAs (Decidable (_ ∧ _))

variable (blocks : BlockHash → Block) (genesis : ℕ)

/-- A log is on a chain at one place only. -/
def DistinctLogs (chain : List BlockHash) : Prop := ((chainLogs blocks chain).map RawLog.key).Nodup

instance (chain : List BlockHash) : Decidable (DistinctLogs blocks chain) :=
  inferInstanceAs (Decidable (List.Nodup _))

def step (w : World) : RecoveryAction → Option World
  | .reorg keep new =>
      if w.finalBlocks ≤ keep ∧ keep ≤ w.chain.length ∧ DistinctLogs blocks (w.reorged keep new) then
        some { w with chain := w.reorged keep new }
      else none
  | .becomeFinal finalBlocks =>
      if w.finalBlocks ≤ finalBlocks ∧ finalBlocks ≤ w.chain.length then
        some { w with finalBlocks }
      else none
  | .index contract head chunkEnd firstId =>
      if w.possibleChunk genesis contract head chunkEnd then
        let (cache, committed) := backfillChunk blocks w.chain contract firstId
          (w.chunkStart genesis contract) chunkEnd w.cache w.db
        some { w with cache, db := committed.getD w.db }
      else none
  | .indexFails contract head chunkEnd headers =>
      if w.possibleChunk genesis contract head chunkEnd then
        let cache := failedChunk blocks w.chain contract headers (w.chunkStart genesis contract)
          chunkEnd w.cache
        some { w with cache }
      else none
  | .watch headServed served => some { w with db := (runOnce (w.view headServed served) w.db).1 }
  | .finalize now latestTs finalizedTs =>
      some { w with db := Finality.runOnce now latestTs finalizedTs w.db }

/-! ## The law -/

/-- The loops have nothing left to do up to a block: every contract's checkpoint has reached
it, and no canonical row is waiting to be checked or finalized. -/
def CaughtUp (w : World) (h : ℕ) : Prop :=
  (∀ contract, ∃ cp ∈ w.db.loadCheckpoint (indexerCheckpoint contract), (h : ℤ) ≤ cp) ∧
    ∀ e ∈ w.db.rawProtocolEvents, e.isCanonical = true → e.blockNumber ≤ h →
      e.finality = .finalized

/-- The finalized canonical rows up to a block are the logs of the chain. -/
def Recovered (w : World) (h : ℕ) : Prop :=
  (∀ e ∈ w.db.rawProtocolEvents, e.isCanonical = true → e.finality = .finalized →
    e.blockNumber ≤ h → ∃ raw ∈ chainLogs blocks w.chain, IsRowOf e.toPreparedRow raw) ∧
  ∀ raw ∈ chainLogs blocks w.chain, genesis ≤ raw.blockNumber → raw.blockNumber ≤ h →
    ∃ e ∈ w.db.rawProtocolEvents, e.isCanonical = true ∧ e.finality = .finalized ∧
      IsRowOf e.toPreparedRow raw

/-- Up to any final block, caught-up loops have recovered the chain. -/
def Recovers (w : World) : Prop :=
  ∀ h, h < w.finalBlocks → w.CaughtUp h → Recovered blocks genesis w h

/-! ## Its condition -/

/-- The row's block is on the chain. -/
def OnChain (chain : List BlockHash) (row : PreparedRow) : Prop :=
  chain[row.blockNumber.toNat]? = some row.blockHash

instance (chain : List BlockHash) (row : PreparedRow) : Decidable (OnChain chain row) :=
  inferInstanceAs (Decidable (_ = _))

/-- The contract's checkpoint has reached the log's block. -/
def passed (w : World) (raw : RawLog) : Prop :=
  ∃ cp ∈ w.db.loadCheckpoint (indexerCheckpoint raw.log.contractName), (raw.blockNumber : ℤ) ≤ cp

instance (w : World) (raw : RawLog) : Decidable (w.passed raw) :=
  decidable_of_iff ((w.db.loadCheckpoint (indexerCheckpoint raw.log.contractName)).any
    fun cp => decide ((raw.blockNumber : ℤ) ≤ cp)) (by simp [passed, Option.any_eq_true])

/-- Steps that the law needs.  A reorg puts no new log where its contract's checkpoint has
been and replaces no block of a finalized row; a chunk is served the logs of the chain,
which decode, and a log whose key is stored is stored canonical from the same block; a
diverged block has no canonical row of the chain's hash; a row is finalized while its block
is on the chain. -/
def recovers (w : World) : RecoveryAction → Prop
  | .reorg keep new =>
      (∀ raw ∈ chainLogs blocks (w.reorged keep new), genesis ≤ raw.blockNumber → w.passed raw →
        raw ∈ chainLogs blocks w.chain) ∧
      ∀ e ∈ w.db.rawProtocolEvents, e.isCanonical = true → e.finality = .finalized →
        OnChain (w.reorged keep new) e.toPreparedRow
  | .becomeFinal _ => True
  | .index contract _ chunkEnd _ =>
      let fetched := fetchLogs blocks w.chain w.cache contract (w.chunkStart genesis contract)
        chunkEnd
      fetched = getLogs blocks w.chain contract (w.chunkStart genesis contract) chunkEnd ∧
      (∀ raw ∈ fetched, raw.log.fields.isSome) ∧
      ∀ raw ∈ fetched, ∀ e ∈ w.db.rawProtocolEvents, e.logKey = raw.key →
        e.isCanonical = true ∧ e.blockNumber = raw.blockNumber ∧ e.blockHash = raw.blockHash
  | .indexFails .. => True
  | .watch headServed served =>
      ∀ e ∈ w.db.rawProtocolEvents, e.isCanonical = true →
        e.blockNumber ∈ markedBlocks (w.view headServed served) w.db →
          ¬ OnChain w.chain e.toPreparedRow
  | .finalize now latestTs finalizedTs =>
      ∀ e ∈ w.db.rawProtocolEvents, e.isCanonical = true →
        (Finality.markRow now latestTs finalizedTs e).finality = .finalized →
          OnChain w.chain e.toPreparedRow

instance decidableRecovers (w : World) : ∀ a, Decidable (recovers blocks genesis w a)
  | .reorg .. => inferInstanceAs (Decidable (_ ∧ _))
  | .becomeFinal _ => inferInstanceAs (Decidable True)
  | .index contract _ chunkEnd _ => by
      unfold recovers
      infer_instance
  | .indexFails .. => inferInstanceAs (Decidable True)
  | .watch headServed served => inferInstanceAs (Decidable
      (∀ e ∈ w.db.rawProtocolEvents, e.isCanonical = true →
        e.blockNumber ∈ markedBlocks (w.view headServed served) w.db →
          ¬ OnChain w.chain e.toPreparedRow))
  | .finalize now latestTs finalizedTs => inferInstanceAs (Decidable
      (∀ e ∈ w.db.rawProtocolEvents, e.isCanonical = true →
        (Finality.markRow now latestTs finalizedTs e).finality = .finalized →
          OnChain w.chain e.toPreparedRow))

/-! ## The invariant -/

structure Tracks (w : World) : Prop where
  distinct : DistinctLogs blocks w.chain
  checkpoints : ∀ contract, ∀ cp ∈ w.db.loadCheckpoint (indexerCheckpoint contract), 0 ≤ cp
  /-- Every row belongs to a log of its block. -/
  rows : ∀ e ∈ w.db.rawProtocolEvents, ∃ raw : RawLog, raw.log ∈ (blocks raw.blockHash).logs ∧
    IsRowOf e.toPreparedRow raw
  finalized : ∀ e ∈ w.db.rawProtocolEvents, e.isCanonical = true → e.finality = .finalized →
    OnChain w.chain e.toPreparedRow
  /-- Every log that the indexer has passed is stored. -/
  stored : ∀ raw ∈ chainLogs blocks w.chain, genesis ≤ raw.blockNumber → w.passed raw →
    ∃ e ∈ w.db.rawProtocolEvents, e.isCanonical = true ∧ IsRowOf e.toPreparedRow raw

variable {blocks genesis} {w : World}

theorem tracks_start : Tracks blocks genesis start where
  distinct := List.nodup_nil
  checkpoints _ _ stored := by cases stored
  rows _ member := absurd member List.not_mem_nil
  finalized _ member := absurd member List.not_mem_nil
  stored _ onChain := absurd onChain List.not_mem_nil

theorem onChain_of_isRowOf {row : PreparedRow} {raw : RawLog} (own : IsRowOf row raw) :
    OnChain w.chain row ↔ w.chain[raw.blockNumber]? = some raw.blockHash := by
  rw [OnChain, own.blockNumber_eq, own.blockHash_eq, Int.toNat_natCast]

/-- A step that only changes the lifecycle columns of rows, keeps the rows of the chain
canonical and finalizes no other. -/
theorem Tracks.of_map {db : Db} (holds : Tracks blocks genesis w) (update : RawEvent → RawEvent)
    (keeps : ∀ e, (update e).toPreparedRow = e.toPreparedRow)
    (events : db.rawProtocolEvents = w.db.rawProtocolEvents.map update)
    (checkpoints : ∀ contract, db.loadCheckpoint (indexerCheckpoint contract) =
      w.db.loadCheckpoint (indexerCheckpoint contract))
    (finalized : ∀ e ∈ w.db.rawProtocolEvents, (update e).isCanonical = true →
      (update e).finality = .finalized → OnChain w.chain e.toPreparedRow)
    (canonical : ∀ e ∈ w.db.rawProtocolEvents, e.isCanonical = true →
      OnChain w.chain e.toPreparedRow → (update e).isCanonical = true) :
    Tracks blocks genesis { w with db } := by
  refine ⟨holds.distinct, fun contract => ?_, fun e member => ?_, fun e member => ?_,
    fun raw onChain requested passed => ?_⟩
  · show ∀ cp ∈ db.loadCheckpoint (indexerCheckpoint contract), 0 ≤ cp
    rw [checkpoints contract]
    exact holds.checkpoints contract
  · obtain ⟨before, stored, rfl⟩ := List.mem_map.mp (events ▸ member)
    rw [keeps]
    exact holds.rows before stored
  · obtain ⟨before, stored, rfl⟩ := List.mem_map.mp (events ▸ member)
    rw [keeps]
    exact finalized before stored
  · obtain ⟨cp, loaded, reached⟩ := passed
    obtain ⟨e, member, isCanonical, own⟩ := holds.stored raw onChain requested
      ⟨cp, checkpoints raw.log.contractName ▸ loaded, reached⟩
    refine ⟨update e, events ▸ List.mem_map_of_mem member, ?_, (keeps e).symm ▸ own⟩
    exact canonical e member isCanonical ((onChain_of_isRowOf own).mpr (mem_chainLogs.mp onChain).1)

/-! ## Steps -/

theorem tracks_reorg {keep : ℕ} {new : List BlockHash} (holds : Tracks blocks genesis w)
    (distinct : DistinctLogs blocks (w.reorged keep new))
    (allowed : recovers blocks genesis w (.reorg keep new)) :
    Tracks blocks genesis { w with chain := w.reorged keep new } where
  distinct := distinct
  checkpoints := holds.checkpoints
  rows := holds.rows
  finalized := allowed.2
  stored raw onChain requested passed :=
    holds.stored raw (allowed.1 raw onChain requested passed) requested passed

theorem tracks_watch {headServed : Bool} {served : ℤ → Bool} (holds : Tracks blocks genesis w)
    (allowed : recovers blocks genesis w (.watch headServed served)) :
    Tracks blocks genesis { w with db := (runOnce (w.view headServed served) w.db).1 } := by
  refine holds.of_map _ (unmarkAll_toPreparedRow _) (runOnce_rawProtocolEvents ..)
    (fun contract => ?_) (fun e member isCanonical isFinal => ?_)
    fun e member isCanonical onChain => ?_
  · rw [Db.loadCheckpoint, runOnce_indexerCheckpoints]
    rfl
  · rw [unmarkAll_isCanonical, Bool.and_eq_true] at isCanonical
    rw [unmarkAll_finality] at isFinal
    exact holds.finalized e member isCanonical.1 isFinal
  · rw [unmarkAll_isCanonical, isCanonical, Bool.true_and, decide_eq_true_eq]
    exact fun marked => allowed e member isCanonical marked onChain

theorem tracks_finalize {now : Timestamp} {latestTs finalizedTs : ℤ}
    (holds : Tracks blocks genesis w)
    (allowed : recovers blocks genesis w (.finalize now latestTs finalizedTs)) :
    Tracks blocks genesis { w with db := Finality.runOnce now latestTs finalizedTs w.db } := by
  refine holds.of_map _ (fun _ => Finality.markRow_toPreparedRow)
    (Finality.runOnce_rawProtocolEvents ..) (fun contract => ?_)
    (fun e member isCanonical isFinal => ?_) fun e _ isCanonical _ => ?_
  · exact Finality.loadCheckpoint_runOnce _ _ _ _ (by simp) (by simp) (by simp)
  · rw [Finality.markRow_isCanonical] at isCanonical
    exact allowed e member isCanonical isFinal
  · rw [Finality.markRow_isCanonical]
    exact isCanonical

/-- Stored and offered rows of one log. -/
theorem exists_canonical_row {events : List RawEvent} {rows : NumberedRows} {raw : RawLog}
    {row : ℤ × PreparedRow} (distinct : DistinctLogs blocks w.chain)
    (onChain : raw ∈ chainLogs blocks w.chain) (offered : row ∈ rows) (own : IsRowOf row.2 raw)
    (fresh : ∀ other ∈ rows, ∃ raw' ∈ chainLogs blocks w.chain, IsRowOf other.2 raw')
    (old : ∀ e ∈ events, e.logKey = raw.key → e.isCanonical = true ∧
      ∃ raw' ∈ chainLogs blocks w.chain, IsRowOf e.toPreparedRow raw') :
    ∃ e ∈ insertEvents rows events, e.isCanonical = true ∧ IsRowOf e.toPreparedRow raw := by
  obtain ⟨e, member, sameKey⟩ := exists_logKey_insertEvents events offered
  have key : e.logKey = raw.key := sameKey.trans own.key_eq
  have ofLog : ∀ raw' ∈ chainLogs blocks w.chain, IsRowOf e.toPreparedRow raw' →
      IsRowOf e.toPreparedRow raw := by
    intro raw' onChain' own'
    have same := List.inj_on_of_nodup_map distinct onChain' onChain
      (own'.key_eq.symm.trans key)
    exact same ▸ own'
  refine ⟨e, member, ?_⟩
  rcases mem_insertEvents member with stored | ⟨other, offered', rfl⟩
  · obtain ⟨isCanonical, raw', onChain', own'⟩ := old e stored key
    exact ⟨isCanonical, ofLog raw' onChain' own'⟩
  · obtain ⟨raw', onChain', own'⟩ := fresh other offered'
    exact ⟨rfl, ofLog raw' onChain' own'⟩

theorem tracks_index {contract : ContractKind} {head chunkEnd : ℕ} {firstId : ℤ} {cache : RpcCache}
    {db : Db} (holds : Tracks blocks genesis w)
    (allowed : recovers blocks genesis w (.index contract head chunkEnd firstId))
    (committed : (backfillChunk blocks w.chain contract firstId (w.chunkStart genesis contract)
      chunkEnd w.cache w.db).2 = some db) :
    Tracks blocks genesis { w with cache, db } := by
  obtain ⟨served, decodes, conflicts⟩ := allowed
  obtain ⟨prepared, rfl, ofFetched, ofEach⟩ := backfillChunk_commits committed
  have onChain : ∀ raw ∈ fetchLogs blocks w.chain w.cache contract (w.chunkStart genesis contract)
      chunkEnd, raw ∈ chainLogs blocks w.chain := by
    intro raw fetched
    rw [served] at fetched
    exact (List.mem_filter.mp fetched).1
  have fresh : ∀ other ∈ numbered firstId prepared,
      ∃ raw' ∈ chainLogs blocks w.chain, IsRowOf other.2 raw' := by
    intro other offered
    obtain ⟨raw', fetched, own⟩ := ofFetched other.2 ((mem_numbered firstId).mp ⟨other.1, offered⟩)
    exact ⟨raw', onChain raw' fetched, own⟩
  obtain ⟨new, appended, tentative⟩ :=
    exists_insertEvents_eq_append (numbered firstId prepared) w.db.rawProtocolEvents
  refine ⟨holds.distinct, fun other cp loaded => ?_, fun e member => ?_,
    fun e member isCanonical isFinal => ?_, fun raw onChain' requested passed => ?_⟩
  · rcases checkpoint_commitChunk_cases loaded with earlier | ⟨_, rfl⟩
    · exact holds.checkpoints other cp earlier
    · exact Int.natCast_nonneg chunkEnd
  · rcases mem_insertEvents member with stored | ⟨other, offered, rfl⟩
    · exact holds.rows e stored
    · obtain ⟨raw', onChain', own⟩ := fresh other offered
      exact ⟨raw', (mem_chainLogs.mp onChain').2, own⟩
  · have split : e ∈ w.db.rawProtocolEvents ∨ e ∈ new := List.mem_append.mp (appended ▸ member)
    rcases split with stored | inserted
    · exact holds.finalized e stored isCanonical isFinal
    · rw [tentative e inserted] at isFinal
      cases isFinal
  · by_cases before : w.passed raw
    · obtain ⟨e, stored, isCanonical, own⟩ := holds.stored raw onChain' requested before
      refine ⟨e, ?_, isCanonical, own⟩
      show e ∈ insertEvents (numbered firstId prepared) w.db.rawProtocolEvents
      rw [appended]
      exact List.mem_append_left new stored
    · -- the checkpoint has passed it in this chunk, so it was fetched
      obtain ⟨rfl, reached⟩ : raw.log.contractName = contract ∧ raw.blockNumber ≤ chunkEnd := by
        obtain ⟨cp, loaded, reached⟩ := passed
        rcases checkpoint_commitChunk_cases loaded with earlier | ⟨own, rfl⟩
        · exact absurd ⟨cp, earlier, reached⟩ before
        · exact ⟨own, by exact_mod_cast reached⟩
      have fetched : raw ∈ fetchLogs blocks w.chain w.cache raw.log.contractName
          (w.chunkStart genesis raw.log.contractName) chunkEnd := by
        rw [served]
        refine List.mem_filter.mpr ⟨onChain', decide_eq_true ⟨rfl, ?_, reached⟩⟩
        refine resumeFrom_le requested fun cp loaded => ⟨holds.checkpoints _ cp loaded, ?_⟩
        exact not_le.mp fun below => before ⟨cp, loaded, below⟩
      obtain ⟨row, listed, own⟩ := ofEach raw fetched (decodes raw fetched)
      obtain ⟨id, offered⟩ := (mem_numbered firstId).mpr listed
      refine exists_canonical_row holds.distinct onChain' offered own fresh fun e stored key => ?_
      obtain ⟨isCanonical, number, hash⟩ := conflicts raw fetched e stored key
      obtain ⟨raw', inBlock, own'⟩ := holds.rows e stored
      refine ⟨isCanonical, raw', mem_chainLogs.mpr ⟨?_, inBlock⟩, own'⟩
      have sameNumber : raw'.blockNumber = raw.blockNumber := by
        exact_mod_cast own'.blockNumber_eq.symm.trans number
      rw [sameNumber, ← own'.blockHash_eq.symm.trans hash |>.symm]
      exact (mem_chainLogs.mp onChain').1

/-- An allowed step keeps track of the chain. -/
theorem recovers_step (w : World) (a : RecoveryAction) (w' : World)
    (holds : Tracks blocks genesis w) (allowed : recovers blocks genesis w a)
    (stepped : step blocks genesis w a = some w') : Tracks blocks genesis w' := by
  cases a with
  | reorg keep new =>
      simp only [step, Option.ite_none_right_eq_some, Option.some.injEq] at stepped
      obtain ⟨⟨_, _, distinct⟩, rfl⟩ := stepped
      exact tracks_reorg holds distinct allowed
  | becomeFinal finalBlocks =>
      simp only [step, Option.ite_none_right_eq_some, Option.some.injEq] at stepped
      obtain ⟨_, rfl⟩ := stepped
      exact ⟨holds.distinct, holds.checkpoints, holds.rows, holds.finalized, holds.stored⟩
  | index contract head chunkEnd firstId =>
      simp only [step, Option.ite_none_right_eq_some, Option.some.injEq] at stepped
      obtain ⟨_, rfl⟩ := stepped
      cases committed : (backfillChunk blocks w.chain contract firstId
          (w.chunkStart genesis contract) chunkEnd w.cache w.db).2 with
      | none => exact ⟨holds.distinct, holds.checkpoints, holds.rows, holds.finalized, holds.stored⟩
      | some db => exact tracks_index holds allowed committed
  | indexFails contract head chunkEnd headers =>
      simp only [step, Option.ite_none_right_eq_some, Option.some.injEq] at stepped
      obtain ⟨_, rfl⟩ := stepped
      exact ⟨holds.distinct, holds.checkpoints, holds.rows, holds.finalized, holds.stored⟩
  | watch headServed served =>
      cases stepped
      exact tracks_watch holds allowed
  | finalize now latestTs finalizedTs =>
      cases stepped
      exact tracks_finalize holds allowed

/-- Caught-up loops that kept track have recovered the chain. -/
theorem Tracks.recovers (holds : Tracks blocks genesis w) : Recovers blocks genesis w := by
  intro h _ caughtUp
  constructor
  · intro e member isCanonical isFinal _
    obtain ⟨raw, inBlock, own⟩ := holds.rows e member
    refine ⟨raw, mem_chainLogs.mpr ⟨?_, inBlock⟩, own⟩
    exact (onChain_of_isRowOf own).mp (holds.finalized e member isCanonical isFinal)
  · intro raw onChain requested below
    obtain ⟨cp, loaded, reached⟩ := caughtUp.1 raw.log.contractName
    have upTo : (raw.blockNumber : ℤ) ≤ h := by exact_mod_cast below
    obtain ⟨e, member, isCanonical, own⟩ :=
      holds.stored raw onChain requested ⟨cp, loaded, le_trans upTo reached⟩
    refine ⟨e, member, isCanonical, caughtUp.2 e member isCanonical ?_, own⟩
    rw [own.blockNumber_eq]
    exact upTo

/-- **In a run whose reorgs reach no indexed log and whose finality iterations come after the
watcher, caught-up loops have recovered the final chain.** -/
theorem recovers_run (blocks : BlockHash → Block) (genesis : ℕ) {w : World}
    (run : GuardedRun (step blocks genesis) (recovers blocks genesis) start w) :
    Recovers blocks genesis w :=
  (run.invariant recovers_step tracks_start : Tracks blocks genesis w).recovers

/-! ## A transaction that moves -/

/-- A ticket redemption. -/
def movedLog : ChainLog where
  contractName := .TicketBroker
  txHash := "0xt"
  logIndex := 0
  isStrict := true
  fields := some
    { eventName := .WinningTicketRedeemed
      asset := some .ETH
      amountNormalized := some ⟨1⟩
      isValuable := true
      fromAddress := some "0xg"
      toAddress := some "0xo"
      decoded := .none
      amount_of_asset := amount_given }

/-- Two blocks hold the redemption, all others are empty. -/
def movedBlocks (hash : BlockHash) : Block :=
  ⟨0, if hash = "0xa" ∨ hash = "0xb" then [movedLog] else []⟩

def emptyBlocks : List BlockHash := List.replicate 10 "0xe"

/-- Every contract indexes up to a block. -/
def indexAll (chunkEnd : ℕ) : List RecoveryAction :=
  [.BondingManager, .TicketBroker, .LivepeerToken, .RoundsManager, .Governor].map
    fun contract => .index contract (chunkEnd + 10) chunkEnd 1

/-- A reorg above the checkpoints, then the block with the redemption becomes final. -/
def orderlySchedule : List RecoveryAction :=
  .reorg 0 ("0xa" :: emptyBlocks) :: indexAll 0 ++
    [.reorg 1 emptyBlocks, .watch true fun _ => true, .becomeFinal 11, .finalize 0 1000 1000]

def orderlyWorld : World :=
  (execute (step movedBlocks 0) start orderlySchedule).get (by decide +kernel)

/-- The redemption is recovered. -/
theorem orderlySchedule_recovers :
    execute (step movedBlocks 0) start orderlySchedule = some orderlyWorld ∧
      0 < orderlyWorld.finalBlocks ∧ orderlyWorld.CaughtUp 0 ∧
      chainLogs movedBlocks orderlyWorld.chain ≠ [] ∧ Recovers movedBlocks 0 orderlyWorld := by
  have executed : execute (step movedBlocks 0) start orderlySchedule = some orderlyWorld :=
    (Option.some_get _).symm
  refine ⟨executed, by decide +kernel, ⟨fun contract => ⟨0, ?_, le_refl _⟩, by decide +kernel⟩,
    by decide +kernel, ?_⟩
  · cases contract <;> decide +kernel
  · exact recovers_run movedBlocks 0 (execute_guardedRun executed (by decide +kernel))

/-- The transaction is indexed in block 0, and after a reorg it is in block 1. -/
def movedSchedule : List RecoveryAction :=
  .reorg 0 ("0xa" :: emptyBlocks) :: indexAll 0 ++
    [.reorg 0 ("0xc" :: "0xb" :: emptyBlocks), .watch true fun _ => true] ++ indexAll 1 ++
    [.becomeFinal 12, .finalize 0 1000 1000]

def movedWorld : World :=
  (execute (step movedBlocks 0) start movedSchedule).get (by decide +kernel)

/-- **A transaction that lands again is lost**: its old row is unmarked, and the insert of its
new one is skipped. -/
theorem movedTransaction_is_lost :
    ¬ ∀ w, Run (step movedBlocks 0) start w → Recovers movedBlocks 0 w := by
  intro law
  have executed : execute (step movedBlocks 0) start movedSchedule = some movedWorld :=
    (Option.some_get _).symm
  have caughtUp : movedWorld.CaughtUp 1 := by
    refine ⟨fun contract => ⟨1, ?_, le_refl _⟩, by decide +kernel⟩
    cases contract <;> decide +kernel
  have recovered := law movedWorld (execute_run executed) 1 (by decide +kernel) caughtUp
  obtain ⟨e, member, isCanonical, _⟩ := recovered.2 ⟨1, "0xb", movedLog⟩ (by decide +kernel)
    (by decide) (by decide)
  have unmarked : ∀ e ∈ movedWorld.db.rawProtocolEvents, e.isCanonical = false := by
    decide +kernel
  rw [unmarked e member] at isCanonical
  cases isCanonical

end World

end ProtocolExplorer.Reorg
