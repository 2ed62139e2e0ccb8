import ProtocolExplorer.Staker.Iteration
import ProtocolExplorer.Staker.ReplayCompleteness

/-!
# Stakes and the registry

`is_active` of a delegator is written by the flow pass, from the replayed balance, and by the
current refresh, from the contract.  The pending refresh in between overwrites every principal
with the contract's answer and leaves the registry alone.

* `registry_coherent_iff` — **after an iteration the flags agree with the latest rows if and only
  if every flag agreed with the contract after the flow pass, or its delegator was refreshed**;
* `slashedBond_is_active` — a delegator whose stake is gone and who stays active.
-/

set_option autoImplicit false

namespace ProtocolExplorer.Staker

open ProtocolExplorer.Lib
open ProtocolExplorer.Store

/-! ## The law and its condition -/

/-- A registered delegator is active exactly when its latest row has a positive principal. -/
def RegistryCoherent (db : Db) : Prop :=
  ∀ delegator ∈ db.delegatorRegistry.keys, ∀ row ∈ db.delegatorRegistry.lookup delegator,
    (row.isActive = true ↔ LatestPositive db delegator)

instance (db : Db) : Decidable (RegistryCoherent db) :=
  inferInstanceAs (Decidable (∀ delegator ∈ db.delegatorRegistry.keys,
    ∀ row ∈ db.delegatorRegistry.lookup delegator,
      (row.isActive = true ↔ LatestPositive db delegator)))

/-- The contract returns a positive principal at the block of the delegator's latest row. -/
def AnsweredPositive (reads : BondingReads) (db : Db) (delegator : Address) : Prop :=
  ∃ block ∈ latestStakeBlock db delegator,
    ∃ state ∈ reads.getDelegator delegator block, 0 < state.bondedAmount

instance (reads : BondingReads) (db : Db) (delegator : Address) :
    Decidable (AnsweredPositive reads db delegator) :=
  inferInstanceAs (Decidable (∃ block ∈ latestStakeBlock db delegator,
    ∃ state ∈ reads.getDelegator delegator block, 0 < state.bondedAmount))

/-- A round is due whose anchor is younger than the delegator's latest row. -/
def RefreshDue (includeTentative : Bool) (db : Db) (delegator : Address) : Prop :=
  ∃ anchor ∈ dueAnchor includeTentative db,
    ∃ block ∈ latestStakeBlock db delegator, block < anchor.blockNumber

instance (includeTentative : Bool) (db : Db) (delegator : Address) :
    Decidable (RefreshDue includeTentative db delegator) :=
  inferInstanceAs (Decidable (∃ anchor ∈ dueAnchor includeTentative db,
    ∃ block ∈ latestStakeBlock db delegator, block < anchor.blockNumber))

/-- Every flag agrees with the contract at the latest row, or its delegator has a positive stake
there and is due for a refresh. -/
def FlagsAgree (reads : BondingReads) (includeTentative : Bool) (db : Db) : Prop :=
  ∀ delegator ∈ db.delegatorRegistry.keys, ∀ row ∈ db.delegatorRegistry.lookup delegator,
    (row.isActive = true ↔ AnsweredPositive reads db delegator) ∨
      AnsweredPositive reads db delegator ∧ RefreshDue includeTentative db delegator

instance (reads : BondingReads) (includeTentative : Bool) (db : Db) :
    Decidable (FlagsAgree reads includeTentative db) :=
  inferInstanceAs (Decidable (∀ delegator ∈ db.delegatorRegistry.keys,
    ∀ row ∈ db.delegatorRegistry.lookup delegator,
      (row.isActive = true ↔ AnsweredPositive reads db delegator) ∨
        AnsweredPositive reads db delegator ∧ RefreshDue includeTentative db delegator))

/-! ## The pending refresh -/

variable {reads : BondingReads} {includeTentative : Bool} {db db' : Db} {delegator : Address}

theorem mem_stake_refreshPending (completed : refreshPending reads includeTentative db = some db')
    (key : Address × ℤ) : key ∈ db'.stakeBalancesByBlock ↔ key ∈ db.stakeBalancesByBlock := by
  have principals := bondedPrincipal_refreshPending completed key
  rw [Finmap.mem_iff, Finmap.mem_iff]
  constructor
  · rintro ⟨row, stored⟩
    rw [stored] at principals
    obtain ⟨old, before, _⟩ := Option.bind_eq_some_iff.mp principals.symm
    exact ⟨old, before⟩
  · rintro ⟨old, before⟩
    obtain ⟨state, answered⟩ := Option.isSome_iff_exists.mp
      (isSome_getDelegator completed (Finmap.mem_of_lookup_eq_some before))
    rw [before, Option.bind_some, answered] at principals
    obtain ⟨row, stored, _⟩ := Option.map_eq_some_iff.mp principals
    exact ⟨row, stored⟩

theorem latestStakeBlock_refreshPending
    (completed : refreshPending reads includeTentative db = some db') (delegator : Address) :
    latestStakeBlock db' delegator = latestStakeBlock db delegator :=
  latestStakeBlock_congr fun block => mem_stake_refreshPending completed (delegator, block)

theorem u256ToDecimal_pos {wei : ℕ} : 0 < u256ToDecimal wei ↔ 0 < wei := by
  show (0 : ℤ) < (wei : ℤ) ↔ 0 < wei
  exact Int.natCast_pos

/-- After the pending refresh the latest principal is what the contract returns. -/
theorem latestPositive_refreshPending
    (completed : refreshPending reads includeTentative db = some db') (delegator : Address) :
    LatestPositive db' delegator ↔ AnsweredPositive reads db delegator := by
  have principals := fun block => bondedPrincipal_refreshPending completed (delegator, block)
  rw [LatestPositive, AnsweredPositive, latestStakeBlock_refreshPending completed]
  constructor
  · rintro ⟨block, isLatest, row, stored, positive⟩
    have here := principals block
    rw [Option.mem_def.mp stored] at here
    obtain ⟨_, _, answered⟩ := Option.bind_eq_some_iff.mp here.symm
    obtain ⟨state, answer, same⟩ := Option.map_eq_some_iff.mp answered
    exact ⟨block, isLatest, state, answer, u256ToDecimal_pos.mp (same ▸ positive)⟩
  · rintro ⟨block, isLatest, state, answer, positive⟩
    obtain ⟨old, before⟩ := Finmap.mem_iff.mp (latestStakeBlock_eq_some.mp isLatest).1
    have here := principals block
    rw [before, Option.bind_some, Option.mem_def.mp answer] at here
    obtain ⟨row, stored, same⟩ := Option.map_eq_some_iff.mp here
    exact ⟨block, isLatest, row, stored, same ▸ u256ToDecimal_pos.mpr positive⟩

/-! ## The current refresh -/

/-- The delegators that the current refresh reads. -/
def Refreshed (includeTentative : Bool) (db : Db) (delegator : Address) : Prop :=
  ∃ anchor ∈ dueAnchor includeTentative db, delegator ∈ CurrentStake.loadCandidates db anchor.blockNumber

/-- A refresh reads the delegators with a positive latest row that is older than a due anchor. -/
theorem refreshed_iff : Refreshed includeTentative db delegator ↔
    LatestPositive db delegator ∧ RefreshDue includeTentative db delegator := by
  constructor
  · rintro ⟨anchor, due, candidate⟩
    obtain ⟨block, row, isLatest, stored, older, positive⟩ := CurrentStake.mem_loadCandidates.mp candidate
    exact ⟨⟨block, isLatest, row, stored, positive⟩, anchor, due, block, isLatest, older⟩
  · rintro ⟨⟨block, isLatest, row, stored, positive⟩, anchor, due, block', isLatest', older⟩
    cases isLatest.symm.trans isLatest'
    exact ⟨anchor, due, CurrentStake.mem_loadCandidates.mpr ⟨block, row, isLatest, stored, older, positive⟩⟩

/-- What a refresh does: nothing to stakes and registry, or the states of the candidates of a due
anchor. -/
theorem refreshCurrentStake_cases
    (completed : refreshCurrentStake reads includeTentative db = some db') :
    (dueAnchor includeTentative db = none ∧ db'.stakeBalancesByBlock = db.stakeBalancesByBlock ∧
      db'.delegatorRegistry = db.delegatorRegistry) ∨
    ∃ anchor states, dueAnchor includeTentative db = some anchor ∧
      (CurrentStake.loadCandidates db anchor.blockNumber).mapM (readState reads anchor) = some states ∧
      db'.stakeBalancesByBlock = (states.foldl (writeState anchor) db).stakeBalancesByBlock ∧
      db'.delegatorRegistry = (states.foldl (writeState anchor) db).delegatorRegistry := by
  unfold refreshCurrentStake at completed
  cases found : latestNewRound includeTentative db with
  | none =>
      rw [found] at completed
      cases completed
      exact Or.inl ⟨by rw [dueAnchor, found]; rfl, rfl, rfl⟩
  | some anchor =>
      rw [found] at completed
      dsimp only at completed
      split at completed
      · next done =>
          cases completed
          refine Or.inl ⟨?_, rfl, rfl⟩
          obtain ⟨round, stored, late⟩ := (Option.any_eq_true _ _).mp done
          rw [dueAnchor, found, Option.filter_some, if_neg]
          rw [stored]
          simpa using late
      · next open_ =>
          obtain ⟨states, read, rfl⟩ := Option.map_eq_some_iff.mp completed
          refine Or.inr ⟨anchor, states, ?_, read, rfl, rfl⟩
          rw [dueAnchor, found, Option.filter_some, if_pos]
          cases stored : db.loadCheckpoint .stakerRoundStakeRefresh with
          | none => rfl
          | some round =>
              rw [stored] at open_
              simpa using open_

theorem CurrentStake.nodup_loadCandidates (db : Db) (anchorBlock : ℤ) : (CurrentStake.loadCandidates db anchorBlock).Nodup :=
  (nodup_sortKeys _).filter _

/-- A delegator that is not refreshed keeps its rows and its flag. -/
theorem untouched_of_not_refreshed
    (completed : refreshCurrentStake reads includeTentative db = some db')
    (not_ : ¬ Refreshed includeTentative db delegator) :
    db'.delegatorRegistry.lookup delegator = db.delegatorRegistry.lookup delegator ∧
      (LatestPositive db' delegator ↔ LatestPositive db delegator) := by
  rcases refreshCurrentStake_cases completed with ⟨_, stake, registry⟩ |
    ⟨anchor, states, due, read, stake, registry⟩
  · exact ⟨by rw [registry], latestPositive_congr fun block => by rw [stake]⟩
  · obtain ⟨names, _⟩ := mem_of_mapM_readState read
    have others : ∀ state ∈ states, state.delegator ≠ delegator := by
      rintro state member rfl
      exact not_ ⟨anchor, due, names ▸ List.mem_map_of_mem member⟩
    refine ⟨?_, latestPositive_congr fun block => ?_⟩
    · rw [registry, lookup_registry_foldl_writeState others]
    · rw [stake, lookup_stake_foldl_writeState _ fun state member same =>
        others state member (congrArg Prod.fst same)]

/-- A refreshed delegator has the flag of its new latest row. -/
theorem coherent_of_refreshed
    (completed : refreshCurrentStake reads includeTentative db = some db')
    (refreshed : Refreshed includeTentative db delegator) {row : RegistryRow}
    (registered : db'.delegatorRegistry.lookup delegator = some row) :
    row.isActive = true ↔ LatestPositive db' delegator := by
  obtain ⟨anchor, due', candidate⟩ := refreshed
  rcases refreshCurrentStake_cases completed with ⟨none_, _, _⟩ |
    ⟨other, states, due, read, stake, registry⟩
  · rw [none_] at due'
    cases due'
  cases due.symm.trans due'
  obtain ⟨names, _⟩ := mem_of_mapM_readState read
  obtain ⟨state, member, rfl⟩ := List.mem_map.mp (names ▸ candidate)
  obtain ⟨principal, flag⟩ := lookup_foldl_writeState anchor db member
    (names ▸ CurrentStake.nodup_loadCandidates db anchor.blockNumber)
  rw [← stake] at principal
  rw [← registry, registered] at flag
  obtain ⟨_, _, active⟩ := Option.map_eq_some_iff.mp flag.symm
  obtain ⟨latestRow, stored, same⟩ := Option.map_eq_some_iff.mp principal
  -- the anchor is younger than every row the delegator had
  have isLatest : latestStakeBlock db' state.delegator = some anchor.blockNumber := by
    refine latestStakeBlock_eq_some.mpr ⟨Finmap.mem_of_lookup_eq_some stored, fun other held => ?_⟩
    by_cases atAnchor : other = anchor.blockNumber
    · exact le_of_eq atAnchor
    · obtain ⟨block, _, newest, _, older, _⟩ := CurrentStake.mem_loadCandidates.mp candidate
      have before : (state.delegator, other) ∈ db.stakeBalancesByBlock := by
        rw [Finmap.mem_iff, stake, lookup_stake_foldl_writeState _ fun state' _ same =>
          atAnchor (congrArg Prod.snd same).symm] at held
        exact Finmap.mem_iff.mpr held
      exact le_of_lt (lt_of_le_of_lt ((latestStakeBlock_eq_some.mp newest).2 other before) older)
  rw [← active, decide_eq_true_eq, ← same]
  constructor
  · exact fun positive => ⟨anchor.blockNumber, isLatest, latestRow, stored, positive⟩
  · rintro ⟨block, isLatest', row', stored', positive⟩
    cases isLatest.symm.trans isLatest'
    cases stored.symm.trans stored'
    exact positive

/-! ## The iteration -/

/-- The registry holds the same delegators after a refresh. -/
theorem mem_registry_refreshCurrentStake
    (completed : refreshCurrentStake reads includeTentative db = some db') :
    delegator ∈ db'.delegatorRegistry ↔ delegator ∈ db.delegatorRegistry := by
  have kept : ∀ (anchor : NewRoundAnchor) (states : List RefreshedState) (stored : Db),
      delegator ∈ (states.foldl (writeState anchor) stored).delegatorRegistry ↔
        delegator ∈ stored.delegatorRegistry := by
    intro anchor states
    induction states with
    | nil => exact fun stored => Iff.rfl
    | cons state rest inductionHypothesis =>
        intro stored
        rw [List.foldl_cons, inductionHypothesis, Finmap.mem_iff, Finmap.mem_iff]
        show (∃ row, (Table.modify stored.delegatorRegistry state.delegator _).lookup delegator =
          some row) ↔ _
        rw [Table.lookup_modify]
        split
        · next same =>
            rw [same]
            simp
        · rfl
  rcases refreshCurrentStake_cases completed with ⟨_, _, registry⟩ |
    ⟨anchor, states, _, _, _, registry⟩
  · rw [registry]
  · rw [registry]
    exact kept anchor states db

/-- **After an iteration the flags agree with the latest rows if and only if, after its flow pass,
every flag agreed with the contract or its delegator was due for a refresh.** -/
theorem registry_coherent_iff {reads : BondingReads} {includeTentative : Bool} {db db' : Db}
    (completed : stakerIteration reads includeTentative db = some db') :
    RegistryCoherent db' ↔
      FlagsAgree reads includeTentative (runFlowBackfill includeTentative db).1 := by
  obtain ⟨middle, pends, refreshes⟩ := Option.bind_eq_some_iff.mp completed
  have positive := latestPositive_refreshPending pends
  have sameRegistry : middle.delegatorRegistry =
      (runFlowBackfill includeTentative db).1.delegatorRegistry := by
    obtain ⟨stake, same⟩ := refreshPending_frame pends
    rw [same]
  have due : ∀ delegator, RefreshDue includeTentative middle delegator ↔
      RefreshDue includeTentative (runFlowBackfill includeTentative db).1 delegator := by
    intro delegator
    have sameBlock := latestStakeBlock_refreshPending pends delegator
    rw [RefreshDue, RefreshDue, sameBlock]
    obtain ⟨stake, same⟩ := refreshPending_frame pends
    rw [same]
    exact Iff.rfl
  have refreshed : ∀ delegator, Refreshed includeTentative middle delegator ↔
      AnsweredPositive reads (runFlowBackfill includeTentative db).1 delegator ∧
        RefreshDue includeTentative (runFlowBackfill includeTentative db).1 delegator :=
    fun delegator => refreshed_iff.trans (and_congr (positive delegator) (due delegator))
  constructor
  · intro coherent delegator registered row stored
    by_cases isRefreshed : Refreshed includeTentative middle delegator
    · exact Or.inr ((refreshed delegator).mp isRefreshed)
    · -- the current refresh left the flag and the latest row as they were
      obtain ⟨kept, latest⟩ := untouched_of_not_refreshed refreshes isRefreshed
      rw [sameRegistry] at kept
      have here := coherent delegator (Finmap.mem_keys.mpr
        ((mem_registry_refreshCurrentStake refreshes).mpr (by
          rw [sameRegistry]
          exact Finmap.mem_keys.mp registered))) row (kept.trans stored)
      exact Or.inl (here.trans (latest.trans (positive delegator)))
  · intro agree delegator registered row stored
    by_cases isRefreshed : Refreshed includeTentative middle delegator
    · exact coherent_of_refreshed refreshes isRefreshed stored
    · obtain ⟨kept, latest⟩ := untouched_of_not_refreshed refreshes isRefreshed
      rw [sameRegistry] at kept
      have before := kept.symm.trans stored
      rcases agree delegator (Finmap.mem_keys.mpr (Finmap.mem_of_lookup_eq_some before)) row before
        with same | answered
      · exact same.trans ((positive delegator).symm.trans latest.symm)
      · exact absurd ((refreshed delegator).mpr answered) isRefreshed

/-! ## A Bond and a slashing -/

/-- An orchestrator bonds to itself; the Bond is indexed and finalized. -/
def selfBondHistory : List StakeAction :=
  [.rows (.insert [(1, (finalizedBond 1 "0xa" "0xa").toPreparedRow)]), .rows (.finalize 0 1000)]

def selfBondDb : Db :=
  (execute StakeHistory.step Db.empty selfBondHistory).get (by decide +kernel)

/-- The contract returns the same principal for everybody at every block. -/
def constantReads (bondedAmount : ℕ) : BondingReads where
  getDelegator _ _ := some ⟨bondedAmount, "0xa"⟩
  pendingStake _ _ _ := some bondedAmount
  pendingFees _ _ _ := some 0

/-- An iteration over the Bond. -/
def selfBondAfter (bondedAmount : ℕ) (completes : (stakerIteration (constantReads bondedAmount) false
    selfBondDb).isSome) : Db :=
  (stakerIteration (constantReads bondedAmount) false selfBondDb).get completes

/-- With the stake in place the orchestrator is active, and its latest row positive. -/
theorem selfBond_coherent :
    (selfBondAfter 1000 (by decide +kernel)).delegatorRegistry.keys = {"0xa"} ∧
      RegistryCoherent (selfBondAfter 1000 (by decide +kernel)) := by
  have completed : stakerIteration (constantReads 1000) false selfBondDb =
      some (selfBondAfter 1000 (by decide +kernel)) := (Option.some_get _).symm
  exact ⟨by decide +kernel, (registry_coherent_iff completed).mpr (by decide +kernel)⟩

/-- **A slashed orchestrator stays active**: the pending refresh stores the principal that is left
and nobody tells the registry. -/
theorem slashedBond_is_active :
    ¬ ∀ db, Run StakeHistory.step Db.empty db → ∀ reads includeTentative db',
      stakerIteration reads includeTentative db = some db' → RegistryCoherent db' := by
  intro law
  have executed : execute StakeHistory.step Db.empty selfBondHistory = some selfBondDb :=
    (Option.some_get _).symm
  have completed : stakerIteration (constantReads 0) false selfBondDb =
      some (selfBondAfter 0 (by decide +kernel)) := (Option.some_get _).symm
  have incoherent : ¬ RegistryCoherent (selfBondAfter 0 (by decide +kernel)) := by decide +kernel
  exact incoherent (law selfBondDb (execute_run executed) (constantReads 0) false _ completed)

end ProtocolExplorer.Staker
