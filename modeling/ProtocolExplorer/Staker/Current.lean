import ProtocolExplorer.Staker.Pending

/-!
# The current stake, once a round

`refresh_current_stake` is anchored at the latest `NewRound` event.  Once per round it reads
`getDelegator` and `pendingStake` there for every delegator whose latest row has a positive
principal and is older than the anchor, stores a row at the anchor block and sets the
delegator's `is_active` flag.
-/

set_option autoImplicit false

namespace ProtocolExplorer.Staker

open ProtocolExplorer.Lib
open ProtocolExplorer.Store

/-! ## Queries -/

structure NewRoundAnchor where
  eventId : ℤ
  round : ℤ
  blockNumber : ℤ
  blockTimestamp : Timestamp
  blockHash : BlockHash
  deriving DecidableEq

/-- `latest_new_round`; a round that is no `i64` ends the pass like a missing event. -/
def latestNewRound (includeTentative : Bool) (db : Db) : Option NewRoundAnchor :=
  (orderBy (fun e : RawEvent => OrderDual.toDual e.position) (db.rawProtocolEvents.filter fun e =>
    decide (e.eventName = .NewRound) && e.eligible includeTentative)).head?.bind fun e =>
      (e.decoded.round.filter fun round => decide ((round : ℤ) ≤ i64Max)).map fun round =>
        { eventId := e.id
          round := round
          blockNumber := e.blockNumber
          blockTimestamp := e.blockTimestamp
          blockHash := e.blockHash }

/-- The block of a delegator's latest stake row. -/
def latestStakeBlock (db : Db) (delegator : Address) : Option ℤ :=
  latest ((db.stakeBalancesByBlock.keys.filter fun key => key.1 = delegator).image Prod.snd)

/-- The delegators with a stake row, in order. -/
def stakeDelegators (db : Db) : List Address :=
  sortKeys (db.stakeBalancesByBlock.keys.image Prod.fst)

/-- Is the latest row of a delegator positive and older than the anchor? -/
def isCandidate (db : Db) (anchorBlock : ℤ) (delegator : Address) : Bool :=
  (latestStakeBlock db delegator).any fun block => decide (block < anchorBlock) &&
    (db.stakeBalancesByBlock.lookup (delegator, block)).any fun row =>
      decide (0 < row.bondedPrincipal)

/-- `load_candidates`. -/
def CurrentStake.loadCandidates (db : Db) (anchorBlock : ℤ) : List Address :=
  (stakeDelegators db).filter (isCandidate db anchorBlock)

/-! ## The refresh -/

structure RefreshedState where
  delegator : Address
  bondedPrincipal : Numeric
  delegateAddress : Address
  pendingStake : Numeric
  deriving DecidableEq

variable (reads : BondingReads)

/-- The two reads of one delegator at the anchor. -/
def readState (anchor : NewRoundAnchor) (delegator : Address) : Option RefreshedState :=
  (reads.getDelegator delegator anchor.blockNumber).bind fun state =>
    (reads.pendingStake delegator anchor.round.toNat anchor.blockNumber).map fun pending =>
      { delegator := delegator
        bondedPrincipal := u256ToDecimal state.bondedAmount
        delegateAddress := state.delegateAddress
        pendingStake := u256ToDecimal pending }

/-- `upsert_rows`, for one state. -/
def upsertRefreshed (anchor : NewRoundAnchor) (db : Db) (state : RefreshedState) : Db :=
  { db with
    stakeBalancesByBlock :=
      Table.upsert db.stakeBalancesByBlock (state.delegator, anchor.blockNumber) fun stored =>
        { delegateAddress := state.delegateAddress
          blockTimestamp := stored.elim anchor.blockTimestamp StakeRow.blockTimestamp
          blockHash := stored.elim anchor.blockHash StakeRow.blockHash
          bondedPrincipal := state.bondedPrincipal
          pendingStake := some state.pendingStake
          pendingFees := stored.bind StakeRow.pendingFees
          pendingRound := some anchor.round
          source := .roundRefresh
          triggeringEventId := stored.elim (some anchor.eventId) StakeRow.triggeringEventId } }

/-- `update_registry_activity`, for one state. -/
def updateRegistryActivity (db : Db) (state : RefreshedState) : Db :=
  { db with
    delegatorRegistry := Table.modify db.delegatorRegistry state.delegator fun row =>
      { row with isActive := decide (0 < state.bondedPrincipal) } }

/-- The writes of one state; the source writes a thousand states at a time. -/
def writeState (anchor : NewRoundAnchor) (db : Db) (state : RefreshedState) : Db :=
  updateRegistryActivity (upsertRefreshed anchor db state) state

/-- The anchor, unless its round has been refreshed already. -/
def dueAnchor (includeTentative : Bool) (db : Db) : Option NewRoundAnchor :=
  (latestNewRound includeTentative db).filter fun anchor =>
    (db.loadCheckpoint .stakerRoundStakeRefresh).all fun done => decide (done < anchor.round)

/-- `refresh_current_stake`; `none` when a read fails, before anything is written. -/
def refreshCurrentStake (includeTentative : Bool) (db : Db) : Option Db :=
  match latestNewRound includeTentative db with
  | none => some db
  | some anchor =>
      let checkpoint := db.loadCheckpoint .stakerRoundStakeRefresh
      if checkpoint.any fun done => decide (anchor.round ≤ done) then
        some (db.advanceCheckpoint .stakerRoundStakeRefresh
          (min anchor.round (checkpoint.getD 0)))
      else
        ((CurrentStake.loadCandidates db anchor.blockNumber).mapM
          (readState reads anchor)).map fun states =>
          (states.foldl (writeState anchor) db).advanceCheckpoint .stakerRoundStakeRefresh
            anchor.round

/-! ## What a refresh leaves behind -/

variable {reads}

theorem CurrentStake.mem_loadCandidates {db : Db} {anchorBlock : ℤ} {delegator : Address} :
    delegator ∈ CurrentStake.loadCandidates db anchorBlock ↔
      ∃ block row, latestStakeBlock db delegator = some block ∧
        db.stakeBalancesByBlock.lookup (delegator, block) = some row ∧ block < anchorBlock ∧
        0 < row.bondedPrincipal := by
  have candidate : isCandidate db anchorBlock delegator = true ↔
      ∃ block row, latestStakeBlock db delegator = some block ∧
        db.stakeBalancesByBlock.lookup (delegator, block) = some row ∧ block < anchorBlock ∧
        0 < row.bondedPrincipal := by
    simp only [isCandidate, Option.any_eq_true, Bool.and_eq_true, decide_eq_true_eq]
    constructor
    · rintro ⟨block, isLatest, older, row, stored, positive⟩
      exact ⟨block, row, isLatest, stored, older, positive⟩
    · rintro ⟨block, row, isLatest, stored, older, positive⟩
      exact ⟨block, isLatest, older, row, stored, positive⟩
  rw [CurrentStake.loadCandidates, List.mem_filter, candidate]
  refine and_iff_right_of_imp ?_
  rintro ⟨block, row, _, stored, _⟩
  rw [stakeDelegators, mem_sortKeys]
  exact Finset.mem_image.mpr
    ⟨(delegator, block), Finmap.mem_keys.mpr (Finmap.mem_of_lookup_eq_some stored), rfl⟩

/-- A list that is read completely gives one state for every delegator. -/
theorem mem_of_mapM_readState {anchor : NewRoundAnchor} {candidates : List Address}
    {states : List RefreshedState} (read : candidates.mapM (readState reads anchor) = some states) :
    states.map RefreshedState.delegator = candidates ∧
      ∀ state ∈ states, readState reads anchor state.delegator = some state := by
  induction candidates generalizing states with
  | nil =>
      cases read
      exact ⟨rfl, fun _ member => absurd member List.not_mem_nil⟩
  | cons delegator rest inductionHypothesis =>
      rw [List.mapM_cons] at read
      obtain ⟨state, first, later⟩ := Option.bind_eq_some_iff.mp read
      obtain ⟨others, restRead, same⟩ := Option.bind_eq_some_iff.mp later
      cases same
      obtain ⟨names, own⟩ := inductionHypothesis restRead
      have named : state.delegator = delegator := by
        obtain ⟨_, _, built⟩ := Option.bind_eq_some_iff.mp first
        obtain ⟨_, _, rfl⟩ := Option.map_eq_some_iff.mp built
        rfl
      refine ⟨by rw [List.map_cons, named, names], fun other member => ?_⟩
      rcases List.mem_cons.mp member with rfl | inRest
      · rw [named]
        exact first
      · exact own other inRest

section Writes

variable {anchor : NewRoundAnchor} {states : List RefreshedState} {db : Db}

/-- The writes of the states, at a row. -/
theorem lookup_stake_foldl_writeState (key : Address × ℤ)
    (untouched : ∀ state ∈ states, (state.delegator, anchor.blockNumber) ≠ key) :
    (states.foldl (writeState anchor) db).stakeBalancesByBlock.lookup key =
      db.stakeBalancesByBlock.lookup key := by
  induction states generalizing db with
  | nil => rfl
  | cons state rest inductionHypothesis =>
      rw [List.foldl_cons, inductionHypothesis fun other later =>
        untouched other (List.mem_cons_of_mem state later)]
      exact Table.lookup_upsert_of_ne (untouched state (List.mem_cons_self ..)).symm

/-- The writes of the states, at a delegator that is not among them. -/
theorem lookup_registry_foldl_writeState {delegator : Address}
    (untouched : ∀ state ∈ states, state.delegator ≠ delegator) :
    (states.foldl (writeState anchor) db).delegatorRegistry.lookup delegator =
      db.delegatorRegistry.lookup delegator := by
  induction states generalizing db with
  | nil => rfl
  | cons state rest inductionHypothesis =>
      rw [List.foldl_cons, inductionHypothesis fun other later =>
        untouched other (List.mem_cons_of_mem state later)]
      have other := untouched state (List.mem_cons_self ..)
      show (Table.modify db.delegatorRegistry state.delegator _).lookup delegator = _
      rw [Table.lookup_modify, if_neg (Ne.symm other)]

variable (anchor db) in
/-- The writes of the states, at a delegator that is read: its row at the anchor and its flag. -/
theorem lookup_foldl_writeState {state : RefreshedState} (member : state ∈ states)
    (distinct : (states.map RefreshedState.delegator).Nodup) :
    ((states.foldl (writeState anchor) db).stakeBalancesByBlock.lookup
        (state.delegator, anchor.blockNumber)).map StakeRow.bondedPrincipal =
      some state.bondedPrincipal ∧
    ((states.foldl (writeState anchor) db).delegatorRegistry.lookup state.delegator).map
        RegistryRow.isActive =
      (db.delegatorRegistry.lookup state.delegator).map fun _ =>
        decide (0 < state.bondedPrincipal) := by
  induction states generalizing db with
  | nil => exact absurd member List.not_mem_nil
  | cons head rest inductionHypothesis =>
      obtain ⟨notLater, distinctRest⟩ := List.nodup_cons.mp distinct
      rw [List.foldl_cons]
      rcases List.mem_cons.mp member with rfl | inRest
      · have others : ∀ other ∈ rest, other.delegator ≠ state.delegator := by
          intro other later same
          exact notLater (same ▸ List.mem_map_of_mem later)
        rw [lookup_stake_foldl_writeState _ fun other later same =>
            others other later (congrArg Prod.fst same),
          lookup_registry_foldl_writeState others]
        constructor
        · show ((Table.upsert db.stakeBalancesByBlock _ _).lookup _).map _ = _
          rw [Table.lookup_upsert_self]
          rfl
        · show ((Table.modify db.delegatorRegistry _ _).lookup _).map _ = _
          rw [Table.lookup_modify, if_pos rfl, Option.map_map]
          rfl
      · obtain ⟨row, flag⟩ := inductionHypothesis (writeState anchor db head) inRest
          distinctRest
        refine ⟨row, flag.trans ?_⟩
        have other : state.delegator ≠ head.delegator := fun same =>
          notLater (same ▸ List.mem_map_of_mem inRest)
        show ((Table.modify db.delegatorRegistry head.delegator _).lookup state.delegator).map _ = _
        rw [Table.lookup_modify, if_neg other]

end Writes

end ProtocolExplorer.Staker
