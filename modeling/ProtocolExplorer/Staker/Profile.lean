import ProtocolExplorer.Lib.OrderedBatch
import ProtocolExplorer.Store.Database

/-!
# Orchestrator snapshots

`run_profile_backfill` walks the lifecycle events of orchestrators and the `NewRound` events in
batches.  It keeps a set of known orchestrators, and at every `NewRound` stores one row of
`orch_stake_by_round` for each of them, read from the contracts at the event's block.

The set starts from what `load_known_orchestrators_before` finds before the checkpoint, takes in
the addresses of the whole batch first, and grows along the batch by what a TransferBond
resolves to.

* `grown_walk` — what a walk writes, by induction over its events;
* `grown_runProfileBackfill` — **a run stores a row for each `NewRound` of its batch and each
  address known there, and nothing else**.
-/

set_option autoImplicit false

namespace ProtocolExplorer.Staker

open ProtocolExplorer.Lib
open ProtocolExplorer.Store

/-- `ORCH_PROFILE_BATCH_LIMIT`. -/
def orchProfileBatchLimit : ℕ := 500

/-! ## Queries -/

/-- The lifecycle events of an orchestrator. -/
def isOrchLifecycle : EventName → Bool
  | .Bond | .Unbond | .Rebond | .EarningsClaimed | .TransferBond | .TranscoderUpdate
  | .TranscoderActivated | .TranscoderDeactivated => true
  | _ => false

/-- The events a run walks. -/
def isOrchCandidate (name : EventName) : Bool := isOrchLifecycle name || decide (name = .NewRound)

/-- `fetch_orch_candidates_after`, from the checkpoint block on, that block included. -/
def fetchOrchCandidatesAfter (includeTentative : Bool) (resumeFromBlock : Option ℤ) (limit : ℕ)
    (db : Db) : List RawEvent :=
  orderedBatch RawEvent.position limit (db.rawProtocolEvents.filter fun e =>
    e.eligible includeTentative && isOrchCandidate e.eventName &&
      resumeFromBlock.all fun block => decide (block ≤ e.blockNumber))

/-- The addresses that the lifecycle events of a log name, before a block if one is given. -/
def lifecycleAddresses (before : Option ℤ) (events : List RawEvent) : List Address :=
  (events.filter fun e => e.isCanonical && decide (e.contractName = .BondingManager) &&
    isOrchLifecycle e.eventName &&
      before.all fun block => decide (e.blockNumber < block)).filterMap fun e => e.toAddress

/-- The orchestrators whose profile is as of an earlier block. -/
def profiledBefore (block : ℤ) (db : Db) : Finset Address :=
  db.orchestratorProfile.keys.filter fun address =>
    (db.orchestratorProfile.lookup address).any fun profile => decide (profile.blockNumber < block)

/-- `load_known_orchestrators_before`; without a checkpoint the scan has no bound. -/
def loadKnownOrchestratorsBefore (resumeFromBlock : Option ℤ) (db : Db) : Finset Address :=
  resumeFromBlock.elim ∅ (fun block => profiledBefore block db) ∪
    (lifecycleAddresses resumeFromBlock db.rawProtocolEvents).toFinset

/-- `extract_round`: the round of a `NewRound` event, if it is an `i64`. -/
def extractRound (e : RawEvent) : Option ℤ :=
  (e.decoded.round.filter fun round => decide ((round : ℤ) ≤ i64Max)).map fun round => (round : ℤ)

/-- `load_current_round_before`. -/
def loadCurrentRoundBefore (resumeFromBlock : Option ℤ) (db : Db) : Option ℤ :=
  (orderBy (fun e : RawEvent => OrderDual.toDual e.position) (db.rawProtocolEvents.filter fun e =>
    e.isCanonical && decide (e.eventName = .NewRound) &&
      resumeFromBlock.all fun block => decide (e.blockNumber < block))).head?.bind extractRound

/-- `load_last_lifecycle_event_at`. -/
def loadLastLifecycleEventAt (orchestrator : Address) (blockNumber : ℤ)
    (events : List RawEvent) : Option Timestamp :=
  (orderBy (fun e : RawEvent => OrderDual.toDual e.position) (events.filter fun e =>
    e.isCanonical && (decide (e.eventName = .TranscoderActivated) ||
        decide (e.eventName = .TranscoderDeactivated)) &&
      decide (e.toAddress = some orchestrator) &&
      decide (e.blockNumber ≤ blockNumber))).head?.map (·.blockTimestamp)

/-! ## Contract reads -/

/-- What the contracts return at a block, the last argument.  The pool is the linked list behind
`getFirstTranscoderInPool` and `getNextTranscoderInPool`. -/
structure OrchReads where
  transcoderTotalStake : Address → ℤ → ℕ
  rewardCut : Address → ℤ → ℕ
  feeShare : Address → ℤ → ℕ
  transcoderPool : ℤ → List Address
  serviceRegistry : ℤ → Address
  serviceUri : Address → Address → ℤ → String
  delegateAddress : Address → ℤ → Address

structure TranscoderCuts where
  rewardCutPercent : Percent
  feeSharePercent : Percent
  feeCutPercent : Percent
  deriving DecidableEq

structure LifecycleState where
  isActive : Bool
  lastLifecycleEventAt : Option Timestamp
  deriving DecidableEq

structure OrchestratorSnapshot where
  totalStake : Numeric
  cuts : TranscoderCuts
  lifecycle : LifecycleState
  serviceUri : Option String
  deriving DecidableEq

variable (reads : OrchReads)

/-- `raw_percent_to_decimal`: parts per million as a percentage. -/
def rawPercentToDecimal (raw : ℕ) : Percent := ⟨raw⟩

/-- `inverse_raw_percent_to_decimal`. -/
def inverseRawPercentToDecimal (raw : ℕ) : Percent := ⟨1000000 - raw⟩

/-- `read_active_transcoder_cuts`. -/
def readActiveTranscoderCuts (orchestrator : Address) (blockNumber : ℤ) : TranscoderCuts where
  rewardCutPercent := rawPercentToDecimal (reads.rewardCut orchestrator blockNumber)
  feeSharePercent := rawPercentToDecimal (reads.feeShare orchestrator blockNumber)
  feeCutPercent := inverseRawPercentToDecimal (reads.feeShare orchestrator blockNumber)

/-- `resolve_service_registry_address`. -/
def resolveServiceRegistryAddress (blockNumber : ℤ) : Option Address :=
  let address := (reads.serviceRegistry blockNumber).toLower
  if address = "0x0000000000000000000000000000000000000000" then none else some address

/-- `char::is_whitespace`, the characters that `trim` removes. -/
def isWhitespace (c : Char) : Bool :=
  decide (c.toNat ∈ [9, 10, 11, 12, 13, 32, 0x85, 0xA0, 0x1680, 0x2028, 0x2029, 0x202F, 0x205F,
    0x3000]) || decide (0x2000 ≤ c.toNat ∧ c.toNat ≤ 0x200A)

/-- `read_service_uri`. -/
def readServiceUri (serviceRegistry orchestrator : Address) (blockNumber : ℤ) : Option String :=
  let uri := reads.serviceUri serviceRegistry orchestrator blockNumber
  if uri.all isWhitespace then none else some uri

/-- `fetch_active_pool`. -/
def fetchActivePool (blockNumber : ℤ) : List Address :=
  (reads.transcoderPool blockNumber).map String.toLower

/-- `read_orchestrator_snapshot`. -/
def readOrchestratorSnapshot (events : List RawEvent) (orchestrator : Address) (blockNumber : ℤ)
    (activePool : List Address) : OrchestratorSnapshot where
  totalStake := u256ToDecimal (reads.transcoderTotalStake orchestrator blockNumber)
  cuts := readActiveTranscoderCuts reads orchestrator blockNumber
  lifecycle :=
    { isActive := activePool.contains orchestrator.toLower
      lastLifecycleEventAt := loadLastLifecycleEventAt orchestrator blockNumber events }
  serviceUri := (resolveServiceRegistryAddress reads blockNumber).bind fun serviceRegistry =>
    readServiceUri reads serviceRegistry orchestrator blockNumber

/-- `resolve_transfer_bond_delegate`: the delegate of the new delegator, which the decoder also
stores as the receiver of the row. -/
def resolveTransferBondDelegate (e : RawEvent) : Option Address :=
  e.toAddress.map fun newDelegator => (reads.delegateAddress newDelegator e.blockNumber).toLower

/-! ## The walk -/

/-- The row of one snapshot. -/
def orchStakeRow (candidate : RawEvent) (snapshot : OrchestratorSnapshot) : OrchStake where
  blockNumber := candidate.blockNumber
  blockTimestamp := candidate.blockTimestamp
  blockHash := candidate.blockHash
  totalStake := snapshot.totalStake
  serviceUri := snapshot.serviceUri
  latestFeeCutPercent := snapshot.cuts.feeCutPercent
  latestRewardCutPercent := snapshot.cuts.rewardCutPercent
  latestFeeSharePercent := snapshot.cuts.feeSharePercent
  isActive := snapshot.lifecycle.isActive
  lastLifecycleEventAt := snapshot.lifecycle.lastLifecycleEventAt
  triggeringEventId := some candidate.id

/-- `insert_orch_stake_by_round_batch`; without a round there is no row. -/
def insertOrchStakeByRoundBatch (candidate : RawEvent) (currentRound : Option ℤ)
    (snapshots : List (Address × OrchestratorSnapshot)) (db : Db) : Db :=
  currentRound.elim db fun round =>
    { db with
      orchStakeByRound := snapshots.foldl
        (fun rows orch => Table.insertNew rows (orch.1, round) (orchStakeRow candidate orch.2))
        db.orchStakeByRound }

/-- The local variables of the loop over the candidates. -/
structure ProfileWalk where
  db : Db
  knownOrchs : Finset Address
  currentRound : Option ℤ
  rowsWritten : ℕ
  orchTouched : Finset Address

/-- The snapshots of the known orchestrators at a `NewRound`. -/
def readSnapshots (s : ProfileWalk) (candidate : RawEvent) :
    List (Address × OrchestratorSnapshot) :=
  let activePool := fetchActivePool reads candidate.blockNumber
  (sortKeys s.knownOrchs).map fun orch =>
    (orch, readOrchestratorSnapshot reads s.db.rawProtocolEvents orch candidate.blockNumber
      activePool)

/-- What an event adds to the known orchestrators when the loop comes to it. -/
def learns (candidate : RawEvent) : Option Address :=
  match candidate.eventName with
  | .NewRound => none
  | .TransferBond => resolveTransferBondDelegate reads candidate
  | _ => candidate.toAddress

/-- The body of the loop. -/
def profileStep (s : ProfileWalk) (candidate : RawEvent) : ProfileWalk :=
  if candidate.eventName = .NewRound then
    let currentRound := (extractRound candidate).or s.currentRound
    let snapshots := readSnapshots reads s candidate
    let db := insertOrchStakeByRoundBatch candidate currentRound snapshots s.db
    { s with
      db := db
      currentRound := currentRound
      rowsWritten := s.rowsWritten + (db.orchStakeByRound.keys.card -
        s.db.orchStakeByRound.keys.card)
      orchTouched := s.orchTouched ∪ s.knownOrchs }
  else { s with knownOrchs := s.knownOrchs ∪ (learns reads candidate).toFinset }

/-- The addresses that the first loop takes in from the whole batch. -/
def namedByBatch (candidates : List RawEvent) : List Address :=
  (candidates.filter fun e => decide (e.eventName ≠ .TransferBond)).filterMap fun e => e.toAddress

/-- The state in which the loop starts. -/
def startWalk (resumeFromBlock : Option ℤ) (candidates : List RawEvent) (db : Db) :
    ProfileWalk where
  db := db
  knownOrchs := loadKnownOrchestratorsBefore resumeFromBlock db ∪ (namedByBatch candidates).toFinset
  currentRound := loadCurrentRoundBefore resumeFromBlock db
  rowsWritten := 0
  orchTouched := ∅

structure ProfileBackfillSummary where
  orchEventsSeen : ℕ
  orchRowsWritten : ℕ
  orchestratorsTouched : ℕ
  orchCheckpointBlock : Option ℤ
  caughtUp : Bool
  deriving DecidableEq

/-- The batch that a run would take in this state. -/
def profileBatch (includeTentative : Bool) (limit : ℕ) (db : Db) : List RawEvent :=
  fetchOrchCandidatesAfter includeTentative (db.loadCheckpoint .stakerOrchProfile) limit db

/-- `run_profile_backfill`, with its batch limit as a parameter. -/
def runProfileBackfill (includeTentative : Bool) (limit : ℕ) (db : Db) :
    Db × ProfileBackfillSummary :=
  let checkpoint := db.loadCheckpoint .stakerOrchProfile
  let candidates := fetchOrchCandidatesAfter includeTentative checkpoint limit db
  let walked := candidates.foldl (profileStep reads) (startWalk checkpoint candidates db)
  let maxOrchBlock := (candidates.getLast?.map fun e => e.blockNumber).or checkpoint
  (maxOrchBlock.elim walked.db fun block =>
      walked.db.advanceCheckpoint .stakerOrchProfile block,
    { orchEventsSeen := candidates.length
      orchRowsWritten := walked.rowsWritten
      orchestratorsTouched := walked.orchTouched.card
      orchCheckpointBlock := maxOrchBlock
      caughtUp := decide (candidates.length < limit) })

/-- A run that a failing read ends after some candidates: what it has written stays. -/
def interruptProfileBackfill (includeTentative : Bool) (limit completed : ℕ) (db : Db) : Db :=
  let checkpoint := db.loadCheckpoint .stakerOrchProfile
  let candidates := fetchOrchCandidatesAfter includeTentative checkpoint limit db
  ((candidates.take completed).foldl (profileStep reads) (startWalk checkpoint candidates db)).db

/-- `REFRESH MATERIALIZED VIEW orchestrator_profile`: the row of the largest round. -/
def refreshOrchestratorProfile (db : Db) : Db :=
  { db with
    orchestratorProfile := Table.rewriteKeys
      (fun address =>
        (latest ((db.orchStakeByRound.keys.filter fun key => key.1 = address).image Prod.snd)).bind
          fun round => (db.orchStakeByRound.lookup (address, round)).map fun row =>
            { row with asOfRound := round })
      (db.orchStakeByRound.keys.image Prod.fst) ∅ }

/-! ## What a walk writes -/

/-- The row of an orchestrator at a `NewRound`. -/
def snapshotRow (events : List RawEvent) (candidate : RawEvent)
    (orch : Address) : OrchStake :=
  orchStakeRow candidate (readOrchestratorSnapshot reads events orch candidate.blockNumber
    (fetchActivePool reads candidate.blockNumber))

/-- What a walk learns from its events. -/
def learned (events : List RawEvent) : Finset Address :=
  (events.filterMap (learns reads)).toFinset

/-- What a walk that starts with known orchestrators offers to the table: a row for each of its
`NewRound` events and each address known there. -/
def Offered (events : List RawEvent) (known : Finset Address)
    (walked : List RawEvent) (key : Address × ℤ) (row : OrchStake) : Prop :=
  ∃ before e after, walked = before ++ e :: after ∧ e.eventName = .NewRound ∧
    extractRound e = some key.2 ∧ key.1 ∈ known ∪ learned reads before ∧
      row = snapshotRow reads events e key.1

/-- Every `NewRound` of the list has a round. -/
def RoundsGiven (events : List RawEvent) : Prop :=
  ∀ e ∈ events, e.eventName = .NewRound → (extractRound e).isSome

section Walk

variable (s : ProfileWalk) (e : RawEvent)

theorem mem_knownOrchs_profileStep {address : Address} :
    address ∈ (profileStep reads s e).knownOrchs ↔
      address ∈ s.knownOrchs ∨ learns reads e = some address := by
  unfold profileStep
  split
  · next newRound => simp [learns, newRound]
  · simp [eq_comm]

/-- What is known further along a walk was known at its start or has been learned. -/
theorem knownOrchs_profileStep_union (before : List RawEvent) :
    (profileStep reads s e).knownOrchs ∪ learned reads before =
      s.knownOrchs ∪ learned reads (e :: before) := by
  ext address
  simp only [Finset.mem_union, mem_knownOrchs_profileStep, learned, List.mem_toFinset,
    List.mem_filterMap, List.exists_mem_cons_iff]
  exact or_assoc

/-- A step writes the table of the snapshots only. -/
theorem profileStep_frame : ∃ rows, (profileStep reads s e).db =
    { s.db with orchStakeByRound := rows } := by
  unfold profileStep
  split
  · dsimp only
    cases (extractRound e).or s.currentRound with
    | none => exact ⟨s.db.orchStakeByRound, rfl⟩
    | some round => exact ⟨_, rfl⟩
  · exact ⟨s.db.orchStakeByRound, rfl⟩

theorem walk_frame (walked : List RawEvent) :
    ∃ rows, (walked.foldl (profileStep reads) s).db = { s.db with orchStakeByRound := rows } := by
  induction walked generalizing s with
  | nil => exact ⟨s.db.orchStakeByRound, rfl⟩
  | cons e rest inductionHypothesis =>
      obtain ⟨rows, later⟩ := inductionHypothesis (profileStep reads s e)
      obtain ⟨first, here⟩ := profileStep_frame reads s e
      exact ⟨rows, by rw [List.foldl_cons, later, here]⟩

/-- A `NewRound` with a round offers a row for each known orchestrator. -/
theorem grown_profileStep (given : e.eventName = .NewRound → (extractRound e).isSome) :
    Table.Grown (fun key row => e.eventName = .NewRound ∧ extractRound e = some key.2 ∧
        key.1 ∈ s.knownOrchs ∧ row = snapshotRow reads s.db.rawProtocolEvents e key.1)
      s.db.orchStakeByRound (profileStep reads s e).db.orchStakeByRound := by
  unfold profileStep
  split
  · next newRound =>
      obtain ⟨round, found⟩ := Option.isSome_iff_exists.mp (given newRound)
      simp only [found, Option.some_or, insertOrchStakeByRoundBatch, Option.elim_some]
      refine Table.grown_foldl_insertNew
        (fun orch : Address × OrchestratorSnapshot => (orch.1, round))
        (fun orch => orchStakeRow e orch.2) (fun snapshot member => ?_) _
      obtain ⟨orch, known, rfl⟩ := List.mem_map.mp member
      exact ⟨newRound, rfl, mem_sortKeys.mp known, rfl⟩
  · exact Table.Grown.refl _

/-- And stores one under each of these keys. -/
theorem mem_profileStep {key : Address × ℤ} (newRound : e.eventName = .NewRound)
    (round : extractRound e = some key.2) (known : key.1 ∈ s.knownOrchs) :
    key ∈ (profileStep reads s e).db.orchStakeByRound := by
  unfold profileStep
  rw [if_pos newRound]
  simp only [round, Option.some_or, insertOrchStakeByRoundBatch, Option.elim_some]
  refine (Table.mem_foldl_insertNew
    (fun orch : Address × OrchestratorSnapshot => (orch.1, key.2))
    (fun orch => orchStakeRow e orch.2) _).mpr (Or.inr ?_)
  exact ⟨_, List.mem_map_of_mem (mem_sortKeys.mpr known), rfl⟩

/-- **A walk stores what it offers, and nothing else.** -/
theorem grown_walk {walked : List RawEvent} (given : RoundsGiven walked) :
    Table.Grown (Offered reads s.db.rawProtocolEvents s.knownOrchs walked)
        s.db.orchStakeByRound (walked.foldl (profileStep reads) s).db.orchStakeByRound ∧
      ∀ key row, Offered reads s.db.rawProtocolEvents s.knownOrchs walked key row →
        key ∈ (walked.foldl (profileStep reads) s).db.orchStakeByRound := by
  induction walked generalizing s with
  | nil =>
      refine ⟨Table.Grown.refl _, ?_⟩
      rintro key row ⟨before, e, after, split, _⟩
      exact absurd split (by simp)
  | cons e rest inductionHypothesis =>
      obtain ⟨grown, stored⟩ := inductionHypothesis (profileStep reads s e)
        (fun other later => given other (List.mem_cons_of_mem e later))
      obtain ⟨rows, frame⟩ := profileStep_frame reads s e
      have sameEvents : (profileStep reads s e).db.rawProtocolEvents = s.db.rawProtocolEvents := by
        rw [frame]
      have here := grown_profileStep reads s e (given e (List.mem_cons_self ..))
      rw [sameEvents] at grown stored
      constructor
      · refine (here.mono ?_).trans (grown.mono ?_)
        · rintro key row ⟨newRound, round, isKnown, rfl⟩
          exact ⟨[], e, rest, rfl, newRound, round, Finset.mem_union_left _ isKnown, rfl⟩
        · rintro key row ⟨before, other, after, rfl, newRound, round, isKnown, rfl⟩
          rw [knownOrchs_profileStep_union] at isKnown
          exact ⟨e :: before, other, after, rfl, newRound, round, isKnown, rfl⟩
      · rintro key row ⟨before, other, after, split, newRound, round, isKnown, rfl⟩
        rcases List.cons_eq_append_iff.mp split with ⟨rfl, rest_⟩ | ⟨before', rfl, rfl⟩
        · obtain ⟨rfl, rfl⟩ := List.cons.inj rest_
          refine grown.mem (mem_profileStep reads s _ newRound round ?_)
          simpa [learned] using isKnown
        · rw [← knownOrchs_profileStep_union] at isKnown
          exact stored key _ ⟨before', other, after, rfl, newRound, round, isKnown, rfl⟩

end Walk

/-! ## Runs -/

section Runs

variable {includeTentative : Bool} {limit : ℕ} {db : Db}

/-- The orchestrators that a run knows before its loop. -/
def knownFirst (includeTentative : Bool) (limit : ℕ) (db : Db) : Finset Address :=
  loadKnownOrchestratorsBefore (db.loadCheckpoint .stakerOrchProfile) db ∪
    (namedByBatch (profileBatch includeTentative limit db)).toFinset

/-- **A run stores a row for each `NewRound` of its batch and each address known there, and
nothing else.** -/
theorem grown_runProfileBackfill (given : RoundsGiven (profileBatch includeTentative limit db)) :
    Table.Grown (Offered reads db.rawProtocolEvents (knownFirst includeTentative limit db)
          (profileBatch includeTentative limit db))
        db.orchStakeByRound (runProfileBackfill reads includeTentative limit db).1.orchStakeByRound ∧
      ∀ key row, Offered reads db.rawProtocolEvents (knownFirst includeTentative limit db)
          (profileBatch includeTentative limit db) key row →
        key ∈ (runProfileBackfill reads includeTentative limit db).1.orchStakeByRound := by
  have walked := grown_walk reads (startWalk (db.loadCheckpoint .stakerOrchProfile)
    (profileBatch includeTentative limit db) db) given
  have same : (runProfileBackfill reads includeTentative limit db).1.orchStakeByRound =
      ((profileBatch includeTentative limit db).foldl (profileStep reads) (startWalk
        (db.loadCheckpoint .stakerOrchProfile) (profileBatch includeTentative limit db)
          db)).db.orchStakeByRound := by
    unfold runProfileBackfill
    dsimp only
    cases ((fetchOrchCandidatesAfter includeTentative (db.loadCheckpoint .stakerOrchProfile) limit
      db).getLast?.map fun e => e.blockNumber).or (db.loadCheckpoint .stakerOrchProfile) <;> rfl
  rw [same]
  exact walked

/-- An interrupted run stores some of these rows. -/
theorem grown_interruptProfileBackfill {completed : ℕ}
    (given : RoundsGiven (profileBatch includeTentative limit db)) :
    Table.Grown (Offered reads db.rawProtocolEvents (knownFirst includeTentative limit db)
        (profileBatch includeTentative limit db))
      db.orchStakeByRound
      (interruptProfileBackfill reads includeTentative limit completed db).orchStakeByRound := by
  have walked := (grown_walk reads (startWalk (db.loadCheckpoint .stakerOrchProfile)
    (profileBatch includeTentative limit db) db)
    fun e member => given e (List.mem_of_mem_take (i := completed) member)).1
  refine Table.Grown.mono walked ?_
  rintro key row ⟨before, e, after, split, offered⟩
  have whole : profileBatch includeTentative limit db =
      before ++ e :: (after ++ (profileBatch includeTentative limit db).drop completed) := by
    rw [← List.cons_append, ← List.append_assoc, ← split, List.take_append_drop]
  exact ⟨before, e, _, whole, offered⟩

/-- A run writes its table and its checkpoint. -/
theorem runProfileBackfill_frame : ∃ rows checkpoints,
    (runProfileBackfill reads includeTentative limit db).1 =
      { db with orchStakeByRound := rows, indexerCheckpoints := checkpoints } := by
  obtain ⟨rows, frame⟩ := walk_frame reads
    (startWalk (db.loadCheckpoint .stakerOrchProfile) (profileBatch includeTentative limit db) db)
    (profileBatch includeTentative limit db)
  have start : ((profileBatch includeTentative limit db).foldl (profileStep reads) (startWalk
      (db.loadCheckpoint .stakerOrchProfile) (profileBatch includeTentative limit db) db)).db =
        { db with orchStakeByRound := rows } := frame
  unfold profileBatch at start
  unfold runProfileBackfill
  dsimp only
  rw [start]
  cases ((fetchOrchCandidatesAfter includeTentative (db.loadCheckpoint .stakerOrchProfile) limit
      db).getLast?.map fun e => e.blockNumber).or (db.loadCheckpoint .stakerOrchProfile) with
  | none => exact ⟨rows, db.indexerCheckpoints, rfl⟩
  | some block => exact ⟨rows, _, rfl⟩

/-- An interrupted run writes its table only. -/
theorem interruptProfileBackfill_frame {completed : ℕ} : ∃ rows,
    interruptProfileBackfill reads includeTentative limit completed db =
      { db with orchStakeByRound := rows } :=
  walk_frame reads (startWalk _ _ db) _

/-- The checkpoint of a run is the block of the last event of its batch. -/
theorem loadCheckpoint_runProfileBackfill :
    (runProfileBackfill reads includeTentative limit db).1.loadCheckpoint .stakerOrchProfile =
      match (profileBatch includeTentative limit db).getLast? with
      | none => db.loadCheckpoint .stakerOrchProfile
      | some last => some ((db.loadCheckpoint .stakerOrchProfile).elim last.blockNumber
          fun previous => max previous last.blockNumber) := by
  obtain ⟨rows, frame⟩ := walk_frame reads
    (startWalk (db.loadCheckpoint .stakerOrchProfile) (profileBatch includeTentative limit db) db)
    (profileBatch includeTentative limit db)
  have start : ((profileBatch includeTentative limit db).foldl (profileStep reads) (startWalk
      (db.loadCheckpoint .stakerOrchProfile) (profileBatch includeTentative limit db) db)).db =
        { db with orchStakeByRound := rows } := frame
  unfold profileBatch at start ⊢
  unfold runProfileBackfill
  dsimp only
  rw [start]
  cases (fetchOrchCandidatesAfter includeTentative (db.loadCheckpoint .stakerOrchProfile) limit
    db).getLast? with
  | none =>
      cases stored : db.loadCheckpoint .stakerOrchProfile with
      | none => exact stored
      | some block =>
          have kept : ({ db with orchStakeByRound := rows } : Db).loadCheckpoint
              .stakerOrchProfile = some block := stored
          simp only [Option.map_none, Option.none_or, Option.elim_some,
            Db.loadCheckpoint_advanceCheckpoint_self, kept, max_self]
  | some last =>
      simp only [Option.map_some, Option.some_or, Option.elim_some,
        Db.loadCheckpoint_advanceCheckpoint_self]
      rfl

end Runs

end ProtocolExplorer.Staker
