import ProtocolExplorer.Finality.Lifecycle
import ProtocolExplorer.Staker.Current

/-!
# The staker iteration

The daemon's staker loop runs the flow pass, the pending refresh and the current refresh one
after the other.  `StakeHistory` is the system of these passes, each a step of its own, among
the writers of the event log.
-/

set_option autoImplicit false

namespace ProtocolExplorer.Staker

open ProtocolExplorer.Lib
open ProtocolExplorer.Store

/-- A complete iteration: no pass fails. -/
def stakerIteration (reads : BondingReads) (includeTentative : Bool) (db : Db) : Option Db :=
  (refreshPending reads includeTentative (runFlowBackfill includeTentative db).1).bind
    (refreshCurrentStake reads includeTentative)

inductive StakeAction where
  /-- The indexer, the finality watcher or the reorg watcher. -/
  | rows (a : Finality.LifecycleAction)
  | flow (includeTentative : Bool)
  | pending (reads : BondingReads) (includeTentative : Bool)
  | current (reads : BondingReads) (includeTentative : Bool)

namespace StakeHistory

def step (db : Db) : StakeAction → Option Db
  | .rows a => (Finality.Lifecycle.step db.rawProtocolEvents a).map fun events =>
      { db with rawProtocolEvents := events }
  | .flow includeTentative => some (runFlowBackfill includeTentative db).1
  | .pending reads includeTentative => refreshPending reads includeTentative db
  | .current reads includeTentative => refreshCurrentStake reads includeTentative db

/-- An iteration is its three passes. -/
theorem run_stakerIteration {reads : BondingReads} {includeTentative : Bool} {db db' : Db}
    (completed : stakerIteration reads includeTentative db = some db') : Run step db db' := by
  obtain ⟨middle, pends, refreshes⟩ := Option.bind_eq_some_iff.mp completed
  have executed : execute step db [.flow includeTentative, .pending reads includeTentative,
      .current reads includeTentative] = some db' := by
    simp only [execute, step, pends, refreshes]
  exact execute_run executed

end StakeHistory

/-! ## The latest row -/

section Latest

variable {db db' : Db} {delegator : Address}

/-- The latest row of the delegator has a positive principal. -/
def LatestPositive (db : Db) (delegator : Address) : Prop :=
  ∃ block ∈ latestStakeBlock db delegator,
    ∃ row ∈ db.stakeBalancesByBlock.lookup (delegator, block), 0 < row.bondedPrincipal

instance (db : Db) (delegator : Address) : Decidable (LatestPositive db delegator) :=
  inferInstanceAs (Decidable (∃ block ∈ latestStakeBlock db delegator,
    ∃ row ∈ db.stakeBalancesByBlock.lookup (delegator, block), 0 < row.bondedPrincipal))

theorem latestStakeBlock_eq_some {block : ℤ} :
    latestStakeBlock db delegator = some block ↔ (delegator, block) ∈ db.stakeBalancesByBlock ∧
      ∀ other, (delegator, other) ∈ db.stakeBalancesByBlock → other ≤ block := by
  have blocks : ∀ other, other ∈ (db.stakeBalancesByBlock.keys.filter
      fun key => key.1 = delegator).image Prod.snd ↔
        (delegator, other) ∈ db.stakeBalancesByBlock := by
    intro other
    simp only [Finset.mem_image, Finset.mem_filter, Finmap.mem_keys]
    constructor
    · rintro ⟨⟨_, _⟩, ⟨stored, rfl⟩, rfl⟩
      exact stored
    · exact fun stored => ⟨(delegator, other), ⟨stored, rfl⟩, rfl⟩
  simp only [latestStakeBlock, latest_eq_some, blocks]

/-- The latest row is read off the rows of the delegator. -/
theorem latestStakeBlock_congr (same : ∀ block, (delegator, block) ∈ db'.stakeBalancesByBlock ↔
    (delegator, block) ∈ db.stakeBalancesByBlock) :
    latestStakeBlock db' delegator = latestStakeBlock db delegator := by
  refine Option.ext fun block => ?_
  simp only [latestStakeBlock_eq_some, same]

theorem latestPositive_congr
    (same : ∀ block, db'.stakeBalancesByBlock.lookup (delegator, block) =
      db.stakeBalancesByBlock.lookup (delegator, block)) :
    LatestPositive db' delegator ↔ LatestPositive db delegator := by
  have keys : ∀ block, (delegator, block) ∈ db'.stakeBalancesByBlock ↔
      (delegator, block) ∈ db.stakeBalancesByBlock := by
    intro block
    rw [Finmap.mem_iff, Finmap.mem_iff, same]
  simp only [LatestPositive, latestStakeBlock_congr keys, same]

end Latest

end ProtocolExplorer.Staker
