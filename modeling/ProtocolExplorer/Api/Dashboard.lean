import ProtocolExplorer.Rollups.Completeness
import ProtocolExplorer.Rollups.ServedColumns

/-!
# Dashboard totals

`/network/stats`, `/rounds`, `/rounds/{id}` and the net-economics route add up the orchestrators'
share of payouts and rewards over whole days of `orch_payouts_daily` and `orch_rewards_daily`.  Both
tables have one row per valuation version, and none of the queries selects a version.

* `payoutsUsd_eq`, `rewardsUsd_eq` — what a total adds up, in terms of the valuations;
* `totals_countOnce` — **no event is counted twice if none has two versions that contribute, and,
  shares being non-negative, only then**;
* `secondVersion_doubles` — a ticket with a second valuation.
-/

set_option autoImplicit false

namespace ProtocolExplorer.Api

open ProtocolExplorer.Lib
open ProtocolExplorer.Store
open ProtocolExplorer.Rollups
open ProtocolExplorer.Valuator (insertValuations)

/-! ## The totals -/

/-- The `WHERE` clause of a total. -/
inductive TotalScope where
  /-- `day_utc >= (NOW() - INTERVAL '1 day')::date`. -/
  | lastDay (now : Timestamp)
  /-- `day_utc = started_at::date`. -/
  | onDay (startedAt : Timestamp)
  /-- `orchestrator_address = …`, `day_utc >= period_start::date`, `day_utc < period_end::date`. -/
  | period (address : Address) (periodStart periodEnd : Timestamp)

/-- `INTERVAL '1 day'`. -/
def oneDay : Timestamp := toTimestamp 86400

def TotalScope.selects (scope : TotalScope) (day : ℤ) (orchestrator : Address) : Bool :=
  match scope with
  | lastDay now => decide (dayUtc (now - oneDay) ≤ day)
  | onDay startedAt => decide (day = dayUtc startedAt)
  | period address periodStart periodEnd =>
      decide (orchestrator = address) && decide (dayUtc periodStart ≤ day) &&
        decide (day < dayUtc periodEnd)

section Totals

variable (scope : TotalScope) (db : Db)

/-- `COALESCE(SUM(sum_commission_usd), 0)` of `orch_payouts_daily`. -/
def payoutsUsd : Numeric :=
  orchPayouts.servedColumn PayoutSums.sumCommissionUsd
    (fun key => scope.selects key.dayUtc key.orchestratorAddress) db

/-- `COALESCE(SUM(sum_orch_tokens_usd), 0)` of `orch_rewards_daily`. -/
def rewardsUsd : Numeric :=
  orchRewards.servedColumn RewardSums.sumOrchTokensUsd
    (fun key => scope.selects key.dayUtc key.orchestratorAddress) db

end Totals

/-- `payouts_usd_24h` of `stats`. -/
def payoutsUsd24h (now : Timestamp) : Db → Numeric := payoutsUsd (.lastDay now)

/-- `rewards_usd_24h` of `stats`. -/
def rewardsUsd24h (now : Timestamp) : Db → Numeric := rewardsUsd (.lastDay now)

/-- `payouts_usd_on_day` of `round_get` and `rounds_index`. -/
def payoutsUsdOnDay (startedAt : Timestamp) : Db → Numeric := payoutsUsd (.onDay startedAt)

/-- `rewards_usd_on_day` of `round_get` and `rounds_index`. -/
def rewardsUsdOnDay (startedAt : Timestamp) : Db → Numeric := rewardsUsd (.onDay startedAt)

/-! ## What a total adds up -/

/-- The valuations of redeemed tickets that a total adds up. -/
def payoutRows (scope : TotalScope) (tables : SourceTables) : List TicketEventRow :=
  orchPayouts.servedRows false (fun key => scope.selects key.dayUtc key.orchestratorAddress) tables

/-- The valuations of rewards that a total adds up. -/
def rewardRows (scope : TotalScope) (tables : SourceTables) : List RewardEventRow :=
  orchRewards.servedRows false (fun key => scope.selects key.dayUtc key.orchestratorAddress) tables

/-- The orchestrator's share of a valued ticket, in USD. -/
def commissionUsd (tables : SourceTables) (row : TicketEventRow) : ℚ :=
  (payoutSums tables row []).sumCommissionUsd

/-- The orchestrator's share of a valued reward, in USD. -/
def orchTokensUsd (tables : SourceTables) (row : RewardEventRow) : ℚ :=
  (rewardSums tables row).sumOrchTokensUsd

/-- Both rollups hold the fold of all their source rows. -/
structure RolledUp (db : Db) : Prop where
  payouts : orchPayouts.Complete false db
  rewards : orchRewards.Complete false db

theorem ofRat_zero : (Decimal.ofRat 0 : Numeric) = 0 := by
  have same := Decimal.ofRat_toRat (0 : Numeric)
  rwa [Decimal.toRat_zero] at same

theorem payoutsUsd_eq {db : Db} (rolledUp : RolledUp db) (scope : TotalScope) :
    payoutsUsd scope db = keyedSum Decimal.ofRat TicketEventRow.key (commissionUsd db.sourceTables)
      (payoutRows scope db.sourceTables) :=
  DailyRollup.servedColumn_of_complete rolledUp.payouts
    ⟨⟨PayoutSums.sumCommissionUsd, rfl⟩, fun _ _ => rfl⟩ PayoutSums.sumCommissionUsd Decimal.ofRat
    ofRat_zero (fun _ => rfl) (fun _ _ => rfl) _

theorem rewardsUsd_eq {db : Db} (rolledUp : RolledUp db) (scope : TotalScope) :
    rewardsUsd scope db = keyedSum Decimal.ofRat RewardEventRow.key (orchTokensUsd db.sourceTables)
      (rewardRows scope db.sourceTables) :=
  DailyRollup.servedColumn_of_complete rolledUp.rewards
    ⟨⟨RewardSums.sumOrchTokensUsd, rfl⟩, fun _ _ => rfl⟩ RewardSums.sumOrchTokensUsd Decimal.ofRat
    ofRat_zero (fun _ => rfl) (fun _ _ => rfl) _

/-! ## Counting an event once -/

/-- A total is a sum over distinct events, as the cells of its table store it. -/
def CountsOnce {Row Key : Type} [DecidableEq Key] (figure : Numeric) (keyOf : Row → Key)
    (eventId : Row → ℤ) (share : Row → ℚ) (rows : List Row) : Prop :=
  ∃ counted, CountedOnce eventId share rows counted ∧
    figure = keyedSum Decimal.ofRat keyOf share counted

/-- Both totals of a scope count every event once. -/
structure TotalsCountOnce (scope : TotalScope) (db : Db) : Prop where
  payouts : CountsOnce (payoutsUsd scope db) TicketEventRow.key TicketEventRow.eventId
    (commissionUsd db.sourceTables) (payoutRows scope db.sourceTables)
  rewards : CountsOnce (rewardsUsd scope db) RewardEventRow.key RewardEventRow.eventId
    (orchTokensUsd db.sourceTables) (rewardRows scope db.sourceTables)

/-- No event in the scope has two valuations that contribute. -/
structure SinglyValued (scope : TotalScope) (tables : SourceTables) : Prop where
  payouts : SingleShares TicketEventRow.eventId (commissionUsd tables) (payoutRows scope tables)
  rewards : SingleShares RewardEventRow.eventId (orchTokensUsd tables) (rewardRows scope tables)

/-- The shares in the scope are not negative. -/
structure NonNegative (scope : TotalScope) (tables : SourceTables) : Prop where
  payouts : ∀ row ∈ payoutRows scope tables, 0 ≤ commissionUsd tables row
  rewards : ∀ row ∈ rewardRows scope tables, 0 ≤ orchTokensUsd tables row

theorem countsOnce_of_single {Row Key : Type} [DecidableEq Key] {keyOf : Row → Key}
    {eventId : Row → ℤ} {share : Row → ℚ} {rows : List Row}
    (single : SingleShares eventId share rows) :
    CountsOnce (keyedSum Decimal.ofRat keyOf share rows) keyOf eventId share rows := by
  refine ⟨contributing share rows, countedOnce_of_single single, ?_⟩
  refine (keyedSum_filter ofRat_zero fun row _ dropped => ?_).symm
  simpa using dropped

/-- **No event is counted twice if none has two valuations that contribute; and, shares being
non-negative, only then.** -/
theorem totals_countOnce (scope : TotalScope) (db : Db) (rolledUp : RolledUp db) :
    (SinglyValued scope db.sourceTables → TotalsCountOnce scope db) ∧
      (NonNegative scope db.sourceTables → TotalsCountOnce scope db →
        SinglyValued scope db.sourceTables) := by
  constructor
  · intro single
    refine ⟨?_, ?_⟩
    · rw [payoutsUsd_eq rolledUp]
      exact countsOnce_of_single single.payouts
    · rw [rewardsUsd_eq rolledUp]
      exact countsOnce_of_single single.rewards
  · rintro nonneg ⟨⟨tickets, ticketsOnce, _⟩, ⟨rewards, rewardsOnce, _⟩⟩
    exact ⟨single_of_countedOnce nonneg.payouts ticketsOnce,
      single_of_countedOnce nonneg.rewards rewardsOnce⟩

/-! ## One ticket, one version or two -/

/-- Both rollups, caught up from nothing. -/
def caughtUpRollups (db : Db) : Db := orchRewards.rebuildAll false (orchPayouts.rebuildAll false db)

theorem rolledUp_caughtUpRollups (db : Db) : RolledUp (caughtUpRollups db) where
  payouts := DailyRollup.complete_rebuildAll (r := orchPayouts) db
  rewards := DailyRollup.complete_rebuildAll (r := orchRewards) _

theorem caughtUpRollups_sourceTables (db : Db) :
    (caughtUpRollups db).sourceTables = db.sourceTables := rfl

/-- A finalized ticket of 2000 dollars, valued under some versions. -/
def valuedTicket (versions : List Version) : Db :=
  insertValuations (versions.map fun version => Pipeline.ticketValuation 1 version)
    { Db.empty with rawProtocolEvents := [(Pipeline.ticketRow 1 "0xg").finalizedAs 1 0] }

/-- A ticket with one valuation is counted once. -/
theorem oneVersion_countsOnce : TotalsCountOnce (.onDay 0) (caughtUpRollups (valuedTicket ["v1"])) :=
  (totals_countOnce _ _ (rolledUp_caughtUpRollups _)).1
    ⟨by unfold SingleShares; decide +kernel, by unfold SingleShares; decide +kernel⟩

/-- **A second valuation doubles the ticket.** -/
theorem secondVersion_doubles :
    ¬ ∀ scope db, RolledUp db → TotalsCountOnce scope db := by
  intro law
  obtain ⟨counted, once, _⟩ := (law (.onDay 0) (caughtUpRollups (valuedTicket ["v1", "v2"]))
    (rolledUp_caughtUpRollups _)).payouts
  rw [caughtUpRollups_sourceTables] at once
  have nonneg : ∀ row ∈ payoutRows (.onDay 0) (valuedTicket ["v1", "v2"]).sourceTables,
      0 ≤ commissionUsd (valuedTicket ["v1", "v2"]).sourceTables row := by
    decide +kernel
  have single := single_of_countedOnce nonneg once
  exact absurd single (by unfold SingleShares; decide +kernel)

end ProtocolExplorer.Api
