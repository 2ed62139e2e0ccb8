import ProtocolExplorer.Lib.JoinUpdates
import ProtocolExplorer.Lib.OrderedBatch
import ProtocolExplorer.Staker.Pending

/-!
# Pending amounts in bulk

`refresh_pending` unnests its prepared updates in chunks of 5000 and joins each chunk with the
stake rows in one `UPDATE … FROM`.  Two claims of a delegator in one block are two sources of one
row, and the statement takes either.  `refreshPending` is about the single updates in chain order;
here they are compared with the bulk statements.

* `rows_applyPending` — the single updates are those of `refreshPending`;
* `bulkPending_of_nodup` — updates of different rows cannot be told from single ones;
* `bulkPending_exact` — **the bulk statements do what the single updates do exactly if the
  updates of a row in the last chunk that has any carry the same values.**
-/

set_option autoImplicit false

namespace ProtocolExplorer.Staker

open ProtocolExplorer.Lib
open ProtocolExplorer.Store

/-- The `raw_call` of an update: the amounts in wei, and the round as the event has it. -/
structure PendingCall where
  pendingStakeWei : ℕ
  pendingFeesWei : ℕ
  endRound : ℕ
  deriving DecidableEq

/-- A `PreparedUpdate` with its `raw_call`, one row of the unnested arrays. -/
structure PendingSource extends PreparedUpdate where
  rawCall : PendingCall
  deriving DecidableEq

/-- The source of one claim, if its fields are there and both reads succeed. -/
def pendingSource (reads : BondingReads) (e : RawEvent) : Option PendingSource :=
  e.fromAddress.bind fun delegator => e.decoded.endRound.bind fun endRound =>
    (reads.pendingStake delegator endRound e.blockNumber).bind fun pendingStake =>
      (reads.pendingFees delegator endRound e.blockNumber).map fun pendingFees =>
        { delegator := delegator
          blockNumber := e.blockNumber
          pendingStake := u256ToDecimal pendingStake
          pendingFees := u256ToDecimal pendingFees
          pendingRound := if (endRound : ℤ) ≤ i64Max then endRound else 0
          rawCall := ⟨pendingStake, pendingFees, endRound⟩ }

theorem preparedUpdate_eq_map (reads : BondingReads) (e : RawEvent) :
    preparedUpdate reads e = (pendingSource reads e).map PendingSource.toPreparedUpdate := by
  simp only [preparedUpdate, pendingSource, Option.map_bind, Option.map_map, Function.comp_def]

/-- A stake row with its `raw_call` column. -/
structure AuditedRow where
  row : StakeRow
  rawCall : Option PendingCall
  deriving DecidableEq

namespace PendingSource

/-- The key of the row that a source matches. -/
def key (source : PendingSource) : Address × ℤ := (source.delegator, source.blockNumber)

/-- The `SET` clause. -/
def write (source : PendingSource) (stored : AuditedRow) : AuditedRow :=
  { row := StakeRow.withPending source.toPreparedUpdate stored.row, rawCall := some source.rawCall }

/-- What a source carries. -/
def values (source : PendingSource) : Numeric × Numeric × ℤ × PendingCall :=
  (source.pendingStake, source.pendingFees, source.pendingRound, source.rawCall)

theorem write_write (earlier later : PendingSource) (stored : AuditedRow) :
    later.write (earlier.write stored) = later.write stored := rfl

theorem write_eq_iff (source other : PendingSource) (stored : AuditedRow) :
    source.write stored = other.write stored ↔ source.values = other.values := by
  simp [write, values, StakeRow.withPending, and_assoc]

end PendingSource

def updateChunk : ℕ := 5000

/-- Stage 4 of `refresh_pending`: one `UPDATE … FROM unnest(…)` for each chunk. -/
def BulkPending (updates : List PendingSource) :
    Table (Address × ℤ) AuditedRow → Table (Address × ℤ) AuditedRow → Prop :=
  JoinUpdates PendingSource.key PendingSource.write (updates.toChunks updateChunk)

/-- The updates one by one. -/
def applyPending (updates : List PendingSource) (table : Table (Address × ℤ) AuditedRow) :
    Table (Address × ℤ) AuditedRow :=
  applyUpdates PendingSource.key PendingSource.write updates table

/-- **Without their `raw_call` the single updates are those of `refreshPending`.** -/
theorem rows_applyPending (updates : List PendingSource) {db : Db}
    {table : Table (Address × ℤ) AuditedRow}
    (same : ∀ key, (table.lookup key).map AuditedRow.row = db.stakeBalancesByBlock.lookup key)
    (key : Address × ℤ) :
    ((applyPending updates table).lookup key).map AuditedRow.row =
      ((updates.map PendingSource.toPreparedUpdate).foldl writePending db).stakeBalancesByBlock.lookup
        key := by
  induction updates generalizing table db with
  | nil => exact same key
  | cons source rest inductionHypothesis =>
      rw [List.map_cons, List.foldl_cons]
      refine inductionHypothesis fun other => ?_
      rw [writePending, Table.lookup_modify, Table.lookup_modify, PendingSource.key]
      split
      · rw [← same, Option.map_map, Option.map_map]
        rfl
      · exact same other

/-! ## When the bulk statements do the same -/

/-- **Updates of different rows cannot be told from single ones.** -/
theorem bulkPending_of_nodup {updates : List PendingSource}
    (distinct : (updates.map PendingSource.key).Nodup)
    {table table' : Table (Address × ℤ) AuditedRow} (updated : BulkPending updates table table') :
    table' = applyPending updates table := by
  rw [← flatten_toChunks updateChunk updates] at distinct
  have same := joinUpdates_of_nodup PendingSource.write_write distinct updated
  rwa [flatten_toChunks] at same

/-- **The bulk statements do what the single updates do exactly if the updates of a stored row in
the last chunk that has any carry the same values.** -/
theorem bulkPending_exact (updates : List PendingSource)
    (table : Table (Address × ℤ) AuditedRow) :
    (∀ table', BulkPending updates table table' → table' = applyPending updates table) ↔
      ∀ key ∈ table,
        ∀ source ∈ deciding PendingSource.key key (updates.toChunks updateChunk),
        ∀ last ∈ (deciding PendingSource.key key (updates.toChunks updateChunk)).getLast?,
          source.values = last.values := by
  unfold BulkPending applyPending
  nth_rewrite 2 [← flatten_toChunks updateChunk updates]
  refine (joinUpdates_exact PendingSource.write_write _ table).trans ⟨?_, ?_⟩
  · intro alike key stored source member last isLast
    obtain ⟨row, found⟩ := Finmap.mem_iff.mp stored
    exact (source.write_eq_iff last row).mp (alike key row found source member last isLast)
  · intro alike key row found source member last isLast
    exact (source.write_eq_iff last row).mpr
      (alike key (Finmap.mem_iff.mpr ⟨row, found⟩) source member last isLast)

/-- A claim of one delegator in block 1. -/
def claimAt (logIndex endRound : ℕ) : RawEvent where
  txHash := "0xt"
  logIndex := logIndex
  blockNumber := 1
  blockHash := "0xb"
  blockTimestamp := 0
  contractName := .BondingManager
  eventName := .EarningsClaimed
  asset := none
  amountNormalized := none
  isValuable := true
  fromAddress := some "0xd"
  toAddress := none
  decoded := .earningsClaimed (10 ^ 17) (10 ^ 16) 1 endRound
  amount_of_asset := fun absurd => absurd
  id := logIndex
  finality := .finalized
  isCanonical := true
  finalizedAt := some 0

/-- The same pending amounts for every round. -/
def equalPendings : BondingReads where
  getDelegator _ _ := none
  pendingStake _ _ _ := some 100
  pendingFees _ _ _ := some 7

/-- The updates of two claims in one block, the second in the next round. -/
def twoClaims : List PendingSource :=
  [claimAt 1 2, claimAt 2 3].filterMap (pendingSource equalPendings)

/-- The stake row of the block. -/
def claimedRow : AuditedRow where
  row :=
    { delegateAddress := "0xo", blockTimestamp := 0, blockHash := "0xb", bondedPrincipal := 0
      pendingStake := none, pendingFees := none, pendingRound := none, source := .flowDerived
      triggeringEventId := none }
  rawCall := none

/-- **The bulk statement may keep the earlier of two claims in a block.** -/
theorem bulkPending_twoClaims : ¬ ∀ table',
    BulkPending twoClaims (Finmap.singleton ("0xd", 1) claimedRow) table' →
      table' = applyPending twoClaims (Finmap.singleton ("0xd", 1) claimedRow) := by
  intro determined
  have decides : twoClaims.head (by decide) ∈
      deciding PendingSource.key ("0xd", 1) (twoClaims.toChunks updateChunk) := by decide
  obtain ⟨table', updated, written⟩ := exists_joinUpdates PendingSource.write_write
    (Finmap.singleton ("0xd", 1) claimedRow) decides
  rw [determined table' updated] at written
  have rounds := congrArg (Option.map fun stored => stored.row.pendingRound) written
  revert rounds
  decide

end ProtocolExplorer.Staker
