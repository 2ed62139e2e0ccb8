import ProtocolExplorer.Api.Dashboard
import ProtocolExplorer.Staker.TxReceipts

/-!
# Net economics of an orchestrator

The route adds payouts and rewards over the days of a trailing period, and the fees of the
transactions of its rewards and redemptions over the same period.  The fees are joined to events,
one row for each event; the period has a time of day, which the days have not.

* `gasCost_eq_iff` — when the fees are those of the distinct transactions;
* `sameWindow_iff` — when days and instants select the same events;
* `netEconomics_sound_iff` — both, for a whole response;
* `twoTickets_charged_twice` — a transaction that redeems two tickets.
-/

set_option autoImplicit false

namespace ProtocolExplorer.Api

open ProtocolExplorer.Lib
open ProtocolExplorer.Store
open ProtocolExplorer.Rollups
open ProtocolExplorer.Staker

/-! ## The route -/

/-- The table `tx_receipts`: the fee in ETH is that in wei, as `fetch_receipt_row` writes it. -/
structure StoredReceipts where
  rows : Table TxHash ReceiptRow
  fees : ∀ hash row, rows.lookup hash = some row → row.txFeeEth = u256ToDecimal row.txFeeWei

/-- `fetch_receipt_row` writes such rows. -/
theorem txFeeEth_receiptFields {lib : ReceiptLibrary} {txHash : TxHash} {receipt : Receipt}
    {fields : ReceiptFields} (parsed : receiptFields lib txHash receipt = .ok fields) :
    fields.txFeeEth = u256ToDecimal fields.txFeeWei := by
  unfold receiptFields at parsed
  simp only [bind, Except.bind, pure, Except.pure] at parsed
  repeat' split at parsed
  all_goals cases parsed
  rfl

/-- `period_days`, between a day and a year. -/
def periodDaysOf (requested : Option ℕ) : ℕ := max 1 (min 365 (requested.getD 30))

/-- `period_end - Duration::days(period_days)`. -/
def periodStartOf (periodDays : ℕ) (periodEnd : Timestamp) : Timestamp :=
  periodEnd - periodDays * oneDay

/-- `event_name IN ('Reward', 'WinningTicketRedeemed')`. -/
def EventName.isRevenue (name : EventName) : Bool :=
  decide (name = .Reward) || decide (name = .WinningTicketRedeemed)

/-- Canonical rewards and redemptions to an orchestrator. -/
def isRevenueOf (address : Address) (e : RawEvent) : Bool :=
  decide (e.toAddress = some address) && EventName.isRevenue e.eventName && e.isCanonical

/-- `e.block_timestamp >= $3 AND e.block_timestamp < $4`. -/
def inPeriod (periodStart periodEnd ts : Timestamp) : Bool :=
  decide (periodStart ≤ ts) && decide (ts < periodEnd)

/-- The transactions of the events that the fees are joined to, one for each event. -/
def chargedTransactions (address : Address) (periodStart periodEnd : Timestamp)
    (events : List RawEvent) : List TxHash :=
  (events.filter fun e => isRevenueOf address e && inPeriod periodStart periodEnd e.blockTimestamp).map
    fun e => e.txHash

/-- `tx_fee_eth` of a transaction, if it has a row. -/
def StoredReceipts.feeOf (receipts : StoredReceipts) (hash : TxHash) : Numeric :=
  ((receipts.rows.lookup hash).map fun row => row.txFeeEth).getD 0

/-- `gas_eth`: the join has a row for each event with a receipt. -/
def gasEth (receipts : StoredReceipts) (address : Address) (periodStart periodEnd : Timestamp)
    (events : List RawEvent) : Numeric :=
  ((chargedTransactions address periodStart periodEnd events).map receipts.feeOf).sum

structure NetEconomicsResponse where
  address : Address
  periodDays : ℕ
  periodStart : Timestamp
  periodEnd : Timestamp
  grossPayoutsUsd : Numeric
  grossRewardsUsd : Numeric
  gasCostNativeEth : Numeric
  grossTotalUsd : Numeric

/-- `orchestrators_net_economics`, at an instant. -/
def orchestratorsNetEconomics (receipts : StoredReceipts) (db : Db) (address : Address)
    (requested : Option ℕ) (now : Timestamp) : NetEconomicsResponse :=
  let periodDays := periodDaysOf requested
  let periodStart := periodStartOf periodDays now
  let payouts := payoutsUsd (.period address periodStart now) db
  let rewards := rewardsUsd (.period address periodStart now) db
  { address
    periodDays
    periodStart
    periodEnd := now
    grossPayoutsUsd := payouts
    grossRewardsUsd := rewards
    gasCostNativeEth := gasEth receipts address periodStart now db.rawProtocolEvents
    grossTotalUsd := payouts + rewards }

/-! ## Fees by transaction -/

/-- `tx_fee_wei` of a transaction. -/
def StoredReceipts.weiOf (receipts : StoredReceipts) (hash : TxHash) : ℕ :=
  ((receipts.rows.lookup hash).map fun row => row.txFeeWei).getD 0

theorem feeOf_eq (receipts : StoredReceipts) (hash : TxHash) :
    receipts.feeOf hash = u256ToDecimal (receipts.weiOf hash) := by
  unfold StoredReceipts.feeOf StoredReceipts.weiOf
  cases found : receipts.rows.lookup hash with
  | none => rfl
  | some row => exact receipts.fees hash row found

/-- Storing wei is additive. -/
def weiHom : ℕ →+ Numeric where
  toFun := u256ToDecimal
  map_zero' := rfl
  map_add' a b := Decimal.ext (Nat.cast_add a b)

theorem weiHom_injective : Function.Injective weiHom := by
  intro a b same
  exact Int.ofNat.inj (congrArg Decimal.units same)

/-- The fees of the distinct transactions. -/
def distinctGasEth (receipts : StoredReceipts) (address : Address)
    (periodStart periodEnd : Timestamp) (events : List RawEvent) : Numeric :=
  ∑ hash ∈ (chargedTransactions address periodStart periodEnd events).toFinset,
    receipts.feeOf hash

/-- Every transaction that is charged has one event, or no fee. -/
def ChargedOnce (receipts : StoredReceipts) (address : Address)
    (periodStart periodEnd : Timestamp) (events : List RawEvent) : Prop :=
  ∀ hash ∈ chargedTransactions address periodStart periodEnd events,
    (chargedTransactions address periodStart periodEnd events).count hash = 1 ∨
      receipts.weiOf hash = 0

/-- **The fees are those of the distinct transactions exactly if every transaction has one event,
or no fee.** -/
theorem gasCost_eq_iff (receipts : StoredReceipts) (address : Address)
    (periodStart periodEnd : Timestamp) (events : List RawEvent) :
    gasEth receipts address periodStart periodEnd events =
        distinctGasEth receipts address periodStart periodEnd events ↔
      ChargedOnce receipts address periodStart periodEnd events := by
  have fees : receipts.feeOf = weiHom ∘ receipts.weiOf := funext (feeOf_eq receipts)
  unfold gasEth distinctGasEth ChargedOnce
  rw [fees, ← List.map_map, ← map_list_sum]
  simp only [Function.comp_apply]
  rw [← map_sum, weiHom_injective.eq_iff]
  exact sum_eq_sum_distinct_iff

/-! ## Days and instants -/

/-- The midnight before an instant. -/
def midnight (ts : Timestamp) : Timestamp := dayUtc ts * oneDay

theorem dayUtc_eq (ts : Timestamp) : dayUtc ts = ts / oneDay :=
  Int.fdiv_eq_ediv_of_nonneg _ (by decide)

theorem midnight_le (ts : Timestamp) : midnight ts ≤ ts := by
  rw [midnight, dayUtc_eq]
  exact Int.ediv_mul_le ts (by decide)

theorem lt_midnight_add (ts : Timestamp) : ts < midnight ts + oneDay := by
  rw [midnight, dayUtc_eq, ← add_one_mul]
  exact Int.lt_ediv_add_one_mul_self ts (by decide)

theorem le_dayUtc_iff {day : ℤ} {ts : Timestamp} : day ≤ dayUtc ts ↔ day * oneDay ≤ ts := by
  rw [dayUtc_eq]
  exact Int.le_ediv_iff_mul_le (by decide)

/-- A whole number of days earlier it is the same time of day. -/
theorem midnight_periodStartOf (periodDays : ℕ) (ts : Timestamp) :
    midnight (periodStartOf periodDays ts) = midnight ts - periodDays * oneDay := by
  unfold midnight periodStartOf
  rw [dayUtc_eq, dayUtc_eq, Int.sub_mul_ediv_right _ _ (by decide), sub_mul]

/-- Days and instants select the same rewards and redemptions. -/
def SameWindow (address : Address) (periodStart periodEnd : Timestamp) (events : List RawEvent) :
    Prop :=
  ∀ e ∈ events, isRevenueOf address e = true →
    (TotalScope.period address periodStart periodEnd).selects (dayUtc e.blockTimestamp) address =
      inPeriod periodStart periodEnd e.blockTimestamp

/-- No reward or redemption lies between a midnight and the time of day of the request, on the
first or on the last day. -/
def NoneInPartialDays (address : Address) (periodStart periodEnd : Timestamp)
    (events : List RawEvent) : Prop :=
  ∀ e ∈ events, isRevenueOf address e = true →
    ¬ (midnight periodStart ≤ e.blockTimestamp ∧ e.blockTimestamp < periodStart) ∧
      ¬ (midnight periodEnd ≤ e.blockTimestamp ∧ e.blockTimestamp < periodEnd)

/-- **Days and instants select the same events exactly if none lies in the partial days.** -/
theorem sameWindow_iff (address : Address) {periodDays : ℕ} (positive : 0 < periodDays)
    (periodEnd : Timestamp) (events : List RawEvent) :
    SameWindow address (periodStartOf periodDays periodEnd) periodEnd events ↔
      NoneInPartialDays address (periodStartOf periodDays periodEnd) periodEnd events := by
  refine forall₂_congr fun e _ => imp_congr_right fun _ => ?_
  have first := midnight_periodStartOf periodDays periodEnd
  have before : midnight periodEnd ≤ periodEnd := midnight_le periodEnd
  have within : periodEnd < midnight periodEnd + oneDay := lt_midnight_add periodEnd
  have start : periodStartOf periodDays periodEnd = periodEnd - periodDays * oneDay := rfl
  have aDay : oneDay ≤ periodDays * oneDay :=
    le_mul_of_one_le_left (by decide) (by exact_mod_cast positive)
  have days : (TotalScope.period address (periodStartOf periodDays periodEnd) periodEnd).selects
      (dayUtc e.blockTimestamp) address = true ↔
        midnight (periodStartOf periodDays periodEnd) ≤ e.blockTimestamp ∧
          ¬ midnight periodEnd ≤ e.blockTimestamp := by
    simp only [TotalScope.selects, decide_true, Bool.true_and, Bool.and_eq_true, decide_eq_true_eq,
      ← not_le, le_dayUtc_iff]
    rfl
  rw [Bool.eq_iff_iff, days, first, start]
  simp only [inPeriod, Bool.and_eq_true, decide_eq_true_eq]
  -- the first partial day ends before the last one begins
  generalize midnight periodEnd = last at *
  generalize (periodDays : ℤ) * oneDay = length at *
  generalize e.blockTimestamp = ts
  constructor
  · intro same
    refine ⟨fun early => ?_, fun late => ?_⟩
    · have selected := (same.mp ⟨early.1, by linarith [early.2]⟩).1
      linarith [early.2]
    · have selected := (same.mpr ⟨by linarith [late.1], late.2⟩).2
      exact selected late.1
  · rintro ⟨noneEarly, noneLate⟩
    constructor
    · rintro ⟨from_, until_⟩
      refine ⟨?_, by linarith⟩
      by_contra early
      exact noneEarly ⟨from_, not_le.mp early⟩
    · rintro ⟨from_, until_⟩
      refine ⟨by linarith, fun late => noneLate ⟨late, until_⟩⟩

/-! ## A whole response -/

/-- The fees are those of the distinct transactions, and all figures range over one window. -/
structure NetEconomicsSound (receipts : StoredReceipts) (db : Db)
    (response : NetEconomicsResponse) : Prop where
  gas : response.gasCostNativeEth = distinctGasEth receipts response.address response.periodStart
    response.periodEnd db.rawProtocolEvents
  window : SameWindow response.address response.periodStart response.periodEnd db.rawProtocolEvents

/-- **A response is sound exactly if every transaction has one event or no fee, and no event lies
in the partial days of its period.** -/
theorem netEconomics_sound_iff (receipts : StoredReceipts) (db : Db) (address : Address)
    (requested : Option ℕ) (now : Timestamp) :
    NetEconomicsSound receipts db (orchestratorsNetEconomics receipts db address requested now) ↔
      ChargedOnce receipts address (periodStartOf (periodDaysOf requested) now) now
          db.rawProtocolEvents ∧
        NoneInPartialDays address (periodStartOf (periodDaysOf requested) now) now
          db.rawProtocolEvents := by
  have positive : 0 < periodDaysOf requested := Nat.lt_of_lt_of_le Nat.zero_lt_one (le_max_left ..)
  rw [← gasCost_eq_iff, ← sameWindow_iff address positive now]
  exact ⟨fun sound => ⟨sound.gas, sound.window⟩, fun holds => ⟨holds.1, holds.2⟩⟩

/-! ## Two tickets in one transaction -/

/-- The receipt of the transaction of the tickets, of a thousandth of an ETH. -/
def redeemReceipt : ReceiptRow where
  txHash := "0xt"
  blockNumber := 1
  blockTimestamp := 0
  gasUsed := 100000
  effectiveGasPrice := 10 ^ 10
  txFeeWei := 10 ^ 15
  txFeeEth := u256ToDecimal (10 ^ 15)
  status := 1
  fromAddress := "0xg"
  toAddress := none

def redeemReceipts : StoredReceipts where
  rows := Finmap.singleton "0xt" redeemReceipt
  fees hash row found := by
    have same : row = redeemReceipt := by
      by_cases own : hash = "0xt"
      · subst own
        rw [Finmap.lookup_singleton_eq] at found
        exact (Option.some.inj found).symm
      · have known := Finmap.mem_of_lookup_eq_some found
        exact absurd (Finmap.mem_singleton .. |>.mp known) own
    rw [same]
    rfl

/-- Two tickets of one transaction. -/
def twoTickets : Db :=
  { Db.empty with
    rawProtocolEvents :=
      [(Pipeline.ticketRow 1 "0xg").stored 1, (Pipeline.ticketRow 2 "0xg").stored 2] }

/-- **A transaction that redeems two tickets is charged twice.** -/
theorem twoTickets_charged_twice :
    ¬ ∀ receipts db address requested now,
      NetEconomicsSound receipts db
        (orchestratorsNetEconomics receipts db address requested now) := by
  intro law
  have sound := (law redeemReceipts twoTickets "0xo" none oneDay).gas
  have once := (gasCost_eq_iff redeemReceipts "0xo" (periodStartOf (periodDaysOf none) oneDay) oneDay
    twoTickets.rawProtocolEvents).mp sound
  have charged := once "0xt" (by decide +kernel)
  exact absurd charged (by decide +kernel)

end ProtocolExplorer.Api
