import ProtocolExplorer.Staker.Flow

/-!
# Exact stakes and pending amounts

`refresh_pending` first reads `getDelegator` at the block of every stored stake row and
overwrites the row's principal and delegate with the answer (`reconcileExactStakeRows`), then
reads the pending amounts at every claim and stores them in the claim's row.

The answers of the archive are a parameter, `BondingReads`.  A failing `getDelegator` read ends
the pass before it has written anything; a failing pending read skips its event.
-/

set_option autoImplicit false

namespace ProtocolExplorer.Staker

open ProtocolExplorer.Lib
open ProtocolExplorer.Store

/-! ## The BondingManager contract -/

/-- What the passes take from the answer to `getDelegator`; the amount is in wei. -/
structure DelegatorState where
  bondedAmount : ℕ
  delegateAddress : Address
  deriving DecidableEq

/-- The answers of the archive at a block, the last argument; `none` when a read fails. -/
structure BondingReads where
  getDelegator : Address → ℤ → Option DelegatorState
  pendingStake : Address → ℕ → ℤ → Option ℕ
  pendingFees : Address → ℕ → ℤ → Option ℕ

variable (reads : BondingReads)

/-! ## Reconciliation -/

/-- A stake row with the principal and the delegate that the contract returns. -/
def StakeRow.exact (row : StakeRow) (state : DelegatorState) : StakeRow :=
  { row with
    bondedPrincipal := u256ToDecimal state.bondedAmount
    delegateAddress := state.delegateAddress }

/-- `reconcile_exact_stake_rows`. -/
def reconcileExactStakeRows (db : Db) : Option Db :=
  if ∀ key ∈ db.stakeBalancesByBlock.keys, (reads.getDelegator key.1 key.2).isSome then
    some { db with
      stakeBalancesByBlock := Table.rewriteKeys
        (fun key => (db.stakeBalancesByBlock.lookup key).bind fun row =>
          (reads.getDelegator key.1 key.2).map (StakeRow.exact row))
        db.stakeBalancesByBlock.keys db.stakeBalancesByBlock }
  else none

/-! ## Pending amounts -/

structure PreparedUpdate where
  delegator : Address
  blockNumber : ℤ
  pendingStake : Numeric
  pendingFees : Numeric
  pendingRound : ℤ
  deriving DecidableEq

/-- The claims a pass reads, in chain order. -/
def claims (includeTentative : Bool) (db : Db) : List RawEvent :=
  orderBy RawEvent.position (db.rawProtocolEvents.filter fun e =>
    decide (e.eventName = .EarningsClaimed) && e.eligible includeTentative)

/-- The update of one claim, if its fields are there and both reads succeed; an end round that
is no `i64` is stored as zero. -/
def preparedUpdate (e : RawEvent) : Option PreparedUpdate :=
  e.fromAddress.bind fun delegator => e.decoded.endRound.bind fun endRound =>
    (reads.pendingStake delegator endRound e.blockNumber).bind fun pendingStake =>
      (reads.pendingFees delegator endRound e.blockNumber).map fun pendingFees =>
        { delegator := delegator
          blockNumber := e.blockNumber
          pendingStake := u256ToDecimal pendingStake
          pendingFees := u256ToDecimal pendingFees
          pendingRound := if (endRound : ℤ) ≤ i64Max then endRound else 0 }

/-- A stake row with the pending amounts of a claim. -/
def StakeRow.withPending (update : PreparedUpdate) (row : StakeRow) : StakeRow :=
  { row with
    pendingStake := some update.pendingStake
    pendingFees := some update.pendingFees
    pendingRound := some update.pendingRound
    source := .both }

/-- The update of `stake_balances_by_block` for one claim. -/
def writePending (db : Db) (update : PreparedUpdate) : Db :=
  { db with
    stakeBalancesByBlock := Table.modify db.stakeBalancesByBlock
      (update.delegator, update.blockNumber) (StakeRow.withPending update) }

/-- `refresh_pending`; `none` when the pass fails. -/
def refreshPending (includeTentative : Bool) (db : Db) : Option Db :=
  (reconcileExactStakeRows reads db).map fun reconciled =>
    ((claims includeTentative db).filterMap (preparedUpdate reads)).foldl writePending reconciled

/-! ## What a pass leaves in the table -/

variable {reads}

/-- Reconciliation keeps the rows and overwrites them with the answers. -/
theorem lookup_reconcileExactStakeRows {db db' : Db}
    (completed : reconcileExactStakeRows reads db = some db') (key : Address × ℤ) :
    db'.stakeBalancesByBlock.lookup key = (db.stakeBalancesByBlock.lookup key).bind fun row =>
      (reads.getDelegator key.1 key.2).map (StakeRow.exact row) := by
  simp only [reconcileExactStakeRows, Option.ite_none_right_eq_some, Option.some.injEq] at completed
  obtain ⟨_, rfl⟩ := completed
  rw [Table.lookup_rewriteKeys]
  split
  · rfl
  · next absent =>
      rw [Finmap.mem_keys] at absent
      rw [Finmap.lookup_eq_none.mpr absent]
      rfl

/-- Storing pending amounts keeps the principals. -/
theorem bondedPrincipal_writePending (db : Db) (update : PreparedUpdate) (key : Address × ℤ) :
    ((writePending db update).stakeBalancesByBlock.lookup key).map StakeRow.bondedPrincipal =
      (db.stakeBalancesByBlock.lookup key).map StakeRow.bondedPrincipal := by
  rw [writePending, Table.lookup_modify]
  split
  · next same =>
      rw [same, Option.map_map]
      rfl
  · rfl

/-- A pass writes the stake table only. -/
theorem refreshPending_frame {includeTentative : Bool} {db db' : Db}
    (completed : refreshPending reads includeTentative db = some db') :
    ∃ stake, db' = { db with stakeBalancesByBlock := stake } := by
  obtain ⟨reconciled, reconciles, rfl⟩ := Option.map_eq_some_iff.mp completed
  have first : ∃ stake, reconciled = { db with stakeBalancesByBlock := stake } := by
    simp only [reconcileExactStakeRows, Option.ite_none_right_eq_some,
      Option.some.injEq] at reconciles
    exact ⟨_, reconciles.2.symm⟩
  have rest : ∀ (updates : List PreparedUpdate) (stored : Db),
      ∃ stake, updates.foldl writePending stored = { stored with stakeBalancesByBlock := stake } := by
    intro updates
    induction updates with
    | nil => exact fun stored => ⟨stored.stakeBalancesByBlock, rfl⟩
    | cons update rest inductionHypothesis =>
        intro stored
        obtain ⟨stake, same⟩ := inductionHypothesis (writePending stored update)
        exact ⟨stake, same⟩
  obtain ⟨stake, rfl⟩ := first
  obtain ⟨stake', same⟩ := rest ((claims includeTentative db).filterMap (preparedUpdate reads))
    { db with stakeBalancesByBlock := stake }
  exact ⟨stake', same⟩

/-- **After a pass every stored principal is what the contract returns at the block.** -/
theorem bondedPrincipal_refreshPending {includeTentative : Bool} {db db' : Db}
    (completed : refreshPending reads includeTentative db = some db') (key : Address × ℤ) :
    (db'.stakeBalancesByBlock.lookup key).map StakeRow.bondedPrincipal =
      (db.stakeBalancesByBlock.lookup key).bind fun _ =>
        (reads.getDelegator key.1 key.2).map fun state => u256ToDecimal state.bondedAmount := by
  obtain ⟨reconciled, reconciles, rfl⟩ := Option.map_eq_some_iff.mp completed
  have kept : ∀ (updates : List PreparedUpdate) (stored : Db),
      ((updates.foldl writePending stored).stakeBalancesByBlock.lookup key).map
        StakeRow.bondedPrincipal =
      (stored.stakeBalancesByBlock.lookup key).map StakeRow.bondedPrincipal := by
    intro updates
    induction updates with
    | nil => exact fun stored => rfl
    | cons update rest inductionHypothesis =>
        intro stored
        rw [List.foldl_cons, inductionHypothesis, bondedPrincipal_writePending]
  rw [kept, lookup_reconcileExactStakeRows reconciles, Option.map_bind]
  refine congrArg (Option.bind _) (funext fun row => ?_)
  exact Option.map_map StakeRow.bondedPrincipal (StakeRow.exact row) _

/-- A completed pass has read every row, so it keeps the rows that there are. -/
theorem isSome_getDelegator {includeTentative : Bool} {db db' : Db}
    (completed : refreshPending reads includeTentative db = some db') {key : Address × ℤ}
    (stored : key ∈ db.stakeBalancesByBlock) : (reads.getDelegator key.1 key.2).isSome := by
  obtain ⟨reconciled, reconciles, rfl⟩ := Option.map_eq_some_iff.mp completed
  simp only [reconcileExactStakeRows, Option.ite_none_right_eq_some] at reconciles
  exact reconciles.1 key (Finmap.mem_keys.mpr stored)

end ProtocolExplorer.Staker
