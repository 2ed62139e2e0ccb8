import ProtocolExplorer.Rollups.BatchIndependence

/-!
# Commission and delegators' share

The face value of a ticket is split into a commission and the delegators' share.  The two are added
up and rounded in columns of their own.

* `units_shares` — the two columns exceed the face values by a unit for each batch whose commission
  is halfway between two units;
* `conserves_iff` — **the columns add up to the face values in every stored row exactly when no batch
  has such a commission**;
* `tiedTicket_is_overpaid` — a ticket of one unit, shared half and half.
-/

set_option autoImplicit false

namespace ProtocolExplorer.Rollups

open ProtocolExplorer.Lib
open ProtocolExplorer.Store

/-! ## Shares in range -/

/-- The fee shares of the updates are at most a million. -/
def SharesInRange (tables : SourceTables) : Prop :=
  ∀ e ∈ tables.rawProtocolEvents, ∀ share ∈ e.decoded.feeShare, share ≤ 1000000

instance (tables : SourceTables) : Decidable (SharesInRange tables) :=
  inferInstanceAs (Decidable (∀ e ∈ tables.rawProtocolEvents, ∀ share ∈ e.decoded.feeShare, _))

theorem feeShareRawAtBlock_le {tables : SourceTables} (range : SharesInRange tables)
    (orchestrator : Address) (position : Lex (ℤ × ℕ)) :
    feeShareRawAtBlock tables orchestrator position ≤ 1000000 := by
  rw [feeShareRawAtBlock, rawPercentAt]
  cases found : ((transcoderUpdates tables orchestrator).takeWhile fun e =>
      decide (e.position ≤ position)).getLast? with
  | none => simp
  | some e =>
      rw [Option.bind_some]
      cases share : e.decoded.feeShare with
      | none => simp
      | some share_ =>
          have listed := List.mem_of_getLast? found
          have stored := List.mem_of_mem_filter
            (mem_orderBy.mp ((List.takeWhile_prefix _).subset listed))
          exact range e stored share_ share

/-- A commission lies between nothing and the amount it is part of. -/
theorem commissionFromFeeShare_mem {amount : ℚ} {share : ℕ} (nonneg : 0 ≤ amount)
    (range : share ≤ 1000000) :
    0 ≤ commissionFromFeeShare amount share ∧ commissionFromFeeShare amount share ≤ amount := by
  have bound : (share : ℚ) ≤ 1000000 := by exact_mod_cast range
  have kept : (0 : ℚ) ≤ (1000000 - share) / 1000000 := by
    have left := sub_nonneg.mpr bound
    positivity
  have part : ((1000000 : ℚ) - share) / 1000000 ≤ 1 := by
    rw [div_le_one (by norm_num)]
    have positive : (0 : ℚ) ≤ share := by positivity
    linarith
  exact ⟨mul_nonneg nonneg kept, mul_le_of_le_one_right nonneg part⟩

/-! ## What is shared -/

/-- The commission of a batch under a key, as it is computed before it is stored. -/
def batchCommission (tables : SourceTables) (key : PayoutKey) (rows : List TicketEventRow) : ℚ :=
  (rows.map (commissionColumn.valueUnder tables key)).sum

/-- The face value of a ticket under a key. -/
def faceValueUnder (key : PayoutKey) (row : TicketEventRow) : Numeric :=
  if row.key = key then row.faceValueNative else 0

section Columns

variable {tables : SourceTables}

theorem faceValueColumn_valueUnder (key : PayoutKey) :
    faceValueColumn.valueUnder tables key = fun row => (faceValueUnder key row).toRat := by
  funext row
  unfold MoneyColumn.valueUnder faceValueUnder
  by_cases own : row.key = key
  · rw [if_pos own]
    exact if_pos own
  · rw [if_neg own, Decimal.toRat_zero]
    exact if_neg own

/-- The two shares of a ticket are parts of its face value. -/
theorem shares_are_parts (range : SharesInRange tables) {row : TicketEventRow}
    (unsigned : 0 ≤ row.faceValueNative) (key : PayoutKey) :
    0 ≤ commissionColumn.valueUnder tables key row ∧
      0 ≤ delegatorsColumn.valueUnder tables key row ∧
      commissionColumn.valueUnder tables key row + delegatorsColumn.valueUnder tables key row =
        (faceValueUnder key row).toRat := by
  unfold MoneyColumn.valueUnder faceValueUnder
  by_cases own : row.key = key
  · have nonneg : 0 ≤ row.faceValueNative.toRat :=
      div_nonneg (Int.cast_nonneg unsigned) (by positivity)
    obtain ⟨low, high⟩ := commissionFromFeeShare_mem nonneg
      (feeShareRawAtBlock_le range row.orchestratorAddress row.position)
    have own' : orchPayouts.keyOf row = key := own
    rw [if_pos own', if_pos own', if_pos own]
    exact ⟨low, sub_nonneg.mpr high, add_sub_cancel _ _⟩
  · have other : ¬ orchPayouts.keyOf row = key := own
    rw [if_neg other, if_neg other, if_neg own, Decimal.toRat_zero]
    exact ⟨le_refl 0, le_refl 0, add_zero 0⟩

/-- A stored row holds the sums of its batches. -/
theorem stored_columns {batches : List (List TicketEventRow)} {key : PayoutKey}
    {stored : Lib.Total (PayoutSums Numeric)}
    (found : (orchPayouts.foldBatches tables batches ∅).lookup key = some stored) :
    stored.sums.sumCommissionNative =
        storeBatches (commissionColumn.valueUnder tables key) 18 batches ∧
      stored.sums.sumDelegatorsShareNative =
        storeBatches (delegatorsColumn.valueUnder tables key) 18 batches ∧
      stored.sums.sumFaceValueNative =
        storeBatches (faceValueColumn.valueUnder tables key) 18 batches := by
  have held : ∀ column : MoneyColumn orchPayouts,
      column.stored stored.sums = storeBatches (column.valueUnder tables key) 18 batches := by
    intro column
    have cell : column.cell (orchPayouts.foldBatches tables batches ∅) key = _ :=
      MoneyColumn.cell_foldBatches_empty batches key
    rw [MoneyColumn.cell, found, Option.map_some] at cell
    split_ifs at cell
    exact Option.some.inj cell
  exact ⟨held commissionColumn, held delegatorsColumn, held faceValueColumn⟩

/-- The two columns exceed the face values by a unit for each tied batch. -/
theorem units_shares (range : SharesInRange tables) {batches : List (List TicketEventRow)}
    (unsigned : ∀ rows ∈ batches, ∀ row ∈ rows, 0 ≤ row.faceValueNative) (key : PayoutKey) :
    (storeBatches (commissionColumn.valueUnder tables key) 18 batches +
        storeBatches (delegatorsColumn.valueUnder tables key) 18 batches).units =
      (storeBatches (faceValueColumn.valueUnder tables key) 18 batches).units +
        (batches.countP fun rows => decide (Decimal.IsTie 18 (batchCommission tables key rows))) := by
  rw [faceValueColumn_valueUnder]
  exact units_storeBatches_parts fun rows batch row inside =>
    shares_are_parts range (unsigned rows batch row inside) key

/-- A batch with a tie has a ticket of the key. -/
theorem touches_of_isTie {key : PayoutKey} {rows : List TicketEventRow}
    (tie : Decimal.IsTie 18 (batchCommission tables key rows)) :
    MoneyColumn.Touches orchPayouts rows key := by
  by_contra untouched
  rw [batchCommission, MoneyColumn.sum_valueUnder_of_not_touches untouched, Decimal.IsTie, zero_mul,
    Int.fract_zero] at tie
  norm_num at tie

end Columns

/-- A stored row gives away its face value. -/
def Conserves (sums : PayoutSums Numeric) : Prop :=
  sums.sumCommissionNative + sums.sumDelegatorsShareNative = sums.sumFaceValueNative

instance (sums : PayoutSums Numeric) : Decidable (Conserves sums) :=
  inferInstanceAs (Decidable (_ = _))

/-- The face values of redemptions are unsigned. -/
def UnsignedFaceValues (batches : List (List TicketEventRow)) : Prop :=
  ∀ rows ∈ batches, ∀ row ∈ rows, 0 ≤ row.faceValueNative

instance (batches : List (List TicketEventRow)) : Decidable (UnsignedFaceValues batches) :=
  inferInstanceAs (Decidable (∀ rows ∈ batches, ∀ row ∈ rows, 0 ≤ row.faceValueNative))

/-- **After any batches, every row of `orch_payouts_daily` conserves its face value exactly when no
batch has a commission halfway between two units.** -/
theorem conserves_iff {tables : SourceTables} (range : SharesInRange tables)
    {batches : List (List TicketEventRow)} (unsigned : UnsignedFaceValues batches) :
    (∀ key, ∀ stored ∈ (orchPayouts.foldBatches tables batches ∅).lookup key,
      Conserves stored.sums) ↔
      ∀ rows ∈ batches, ∀ key, ¬ Decimal.IsTie 18 (batchCommission tables key rows) := by
  have units : ∀ {key stored},
      (orchPayouts.foldBatches tables batches ∅).lookup key = some stored →
      (Conserves stored.sums ↔ batches.countP (fun rows =>
        decide (Decimal.IsTie 18 (batchCommission tables key rows))) = 0) := by
    intro key stored found
    obtain ⟨commission, delegators, faceValue⟩ := stored_columns found
    have exceed := units_shares range unsigned key
    rw [Conserves, commission, delegators, faceValue, Decimal.ext_iff, exceed]
    omega
  constructor
  · intro conserve rows batch key tie
    have touched : MoneyColumn.Touches orchPayouts batches.flatten key := by
      obtain ⟨row, inside, own⟩ := touches_of_isTie tie
      exact ⟨row, List.mem_flatten.mpr ⟨rows, batch, inside⟩, own⟩
    obtain ⟨stored, found⟩ : ∃ stored,
        (orchPayouts.foldBatches tables batches ∅).lookup key = some stored := by
      have cell : commissionColumn.cell (orchPayouts.foldBatches tables batches ∅) key = _ :=
        MoneyColumn.cell_foldBatches_empty batches key
      rw [if_pos touched, MoneyColumn.cell] at cell
      obtain ⟨stored, found, _⟩ := Option.map_eq_some_iff.mp cell
      exact ⟨stored, found⟩
    have none_tied := List.countP_eq_zero.mp ((units found).mp (conserve key stored found)) rows batch
    exact none_tied (decide_eq_true tie)
  · intro untied key stored found
    refine (units found).mpr (List.countP_eq_zero.mpr fun rows batch tie => ?_)
    exact untied rows batch key (of_decide_eq_true tie)

/-! ## A tied ticket -/

/-- Two tickets of one unit, in one batch, conserve their face values. -/
theorem pairedTickets_conserve :
    ∃ stored ∈ (orchPayouts.foldBatches halfShare [[unitTicket 2 0, unitTicket 3 1]] ∅).lookup
      ⟨0, "0xo", "v1", .transcoding⟩, Conserves stored.sums := by
  have conserve : ∀ key, ∀ stored ∈ (orchPayouts.foldBatches halfShare
      [[unitTicket 2 0, unitTicket 3 1]] ∅).lookup key, Conserves stored.sums := by
    refine (conserves_iff (by decide +kernel) (by decide +kernel)).mpr fun rows batch key => ?_
    obtain rfl := List.mem_singleton.mp batch
    by_cases own : key = ⟨0, "0xo", "v1", .transcoding⟩
    · subst own
      decide +kernel
    · refine mt touches_of_isTie fun touched => own ?_
      obtain ⟨row, inside, rfl⟩ := touched
      rcases List.mem_pair.mp inside with rfl | rfl <;> rfl
  have present : ((orchPayouts.foldBatches halfShare [[unitTicket 2 0, unitTicket 3 1]] ∅).lookup
      ⟨0, "0xo", "v1", .transcoding⟩).isSome := by decide +kernel
  exact ⟨_, Option.get_mem present, conserve _ _ (Option.get_mem present)⟩

/-- **A ticket of one unit, shared half and half, is stored as a commission of one unit and a
delegators' share of one unit.** -/
theorem tiedTicket_is_overpaid :
    ¬ ∀ (tables : SourceTables) (batches : List (List TicketEventRow)), SharesInRange tables →
      UnsignedFaceValues batches → ∀ key,
        ∀ stored ∈ (orchPayouts.foldBatches tables batches ∅).lookup key,
          Conserves stored.sums := by
  intro law
  have conserve := law halfShare [[unitTicket 2 0]] (by decide +kernel) (by decide +kernel)
    ⟨0, "0xo", "v1", .transcoding⟩
  exact absurd conserve (by decide +kernel)

end ProtocolExplorer.Rollups
