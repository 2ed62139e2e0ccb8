import ProtocolExplorer.Api.Dashboard
import ProtocolExplorer.Api.Rounds
import ProtocolExplorer.Lib.WindowAverages

/-!
# The 30-round average

`/rounds/{id}` averages the payouts and rewards of the latest 30 days on which a round has rows.
The average ignores days without rollup rows.  `/rounds` reports the payouts and rewards of the day
of every round, zero for a day without rollup rows.

* `meanOfRounds_eq` — what `/rounds` reports, day by day;
* `trailingAverage_of_even`, `even_of_trailingAverage` — one average, for the amounts of its table;
* `trailingAverages_iff` — **the averages are the means over the latest 30 rounds, whatever the
  amounts, exactly if there are as many days as rounds and the rounds are spread evenly over the
  days with rollup rows**;
* `sparseDays_overstate` — 30 rounds on 30 days, one of them with payouts.
-/

set_option autoImplicit false

namespace ProtocolExplorer.Api

open ProtocolExplorer.Lib
open ProtocolExplorer.Store
open ProtocolExplorer.Rollups

/-! ## The index of rounds -/

/-- A row of `/rounds`. -/
structure RoundIndexRow where
  round : ℤ
  startedBlock : ℤ
  startedAt : Timestamp
  activeOrchestrators : ℕ
  totalLptStaked : Numeric
  payoutsUsdOnDay : Numeric
  rewardsUsdOnDay : Numeric

section Routes

variable (db : Db)

/-- One row of `rounds_index`; a round without rows has none. -/
def roundIndexRow (round : ℤ) : Option RoundIndexRow :=
  (startedOfIndex db round).map fun started =>
    { round
      startedBlock := started.1
      startedAt := started.2
      activeOrchestrators := (stakesOf db round).countP fun row => row.isActive
      totalLptStaked := ((stakesOf db round).map fun row => row.totalStake).sum
      payoutsUsdOnDay := Api.payoutsUsdOnDay started.2 db
      rewardsUsdOnDay := Api.rewardsUsdOnDay started.2 db }

/-- The rounds below a cursor, `ORDER BY round DESC LIMIT limit`. -/
def listedRounds (cursor : Option ℤ) (limit : ℕ) : List ℤ :=
  (sortKeys ((recordedRounds db).filter fun round => ∀ below ∈ cursor, round < below)).reverse.take
    (min limit 500)

/-- `rounds_index`. -/
def roundsIndex (cursor : Option ℤ) (limit : ℕ) : List RoundIndexRow :=
  (listedRounds db cursor limit).filterMap (roundIndexRow db)

/-- The 30 latest rounds not after a round, as `/rounds` reports them. -/
def latestRounds (roundId : ℤ) : List RoundIndexRow := roundsIndex db (some (roundId + 1)) 30

/-! ## The window -/

/-- `block_timestamp::date` of the rows of rounds not after a round. -/
def daysUpTo (roundId : ℤ) : Finset ℤ :=
  ((recordedRounds db).filter fun round => round ≤ roundId).biUnion fun round =>
    ((stakesOf db round).map fun row => dayUtc row.blockTimestamp).toFinset

/-- `win` of `round_get`: `SELECT DISTINCT … ORDER BY day DESC LIMIT 30`. -/
def windowDays (roundId : ℤ) : List ℤ := (sortKeys (daysUpTo db roundId)).reverse.take 30

end Routes

section DaySums

variable {Row Key Label Sums Stored : Type} [AddCommMonoid Sums] [AddCommMonoid Stored]
  [DecidableEq Key] (r : DailyRollup Row Key Label Sums Stored) (dayOf : Key → ℤ)
  (column : Stored →+ Numeric) (db : Db)

/-- Does the table have a row of the day? -/
def hasRowsOn (day : ℤ) : Bool := decide (∃ key ∈ (r.table db).keys, dayOf key = day)

/-- `SELECT SUM(column) … WHERE day_utc = day`, `NULL` without rows. -/
def sumOfDay (day : ℤ) : Option Numeric :=
  if hasRowsOn r dayOf db day = true then
    some (r.servedColumn column (fun key => decide (dayOf key = day)) db)
  else none

end DaySums

def commissionColumn : PayoutSums Numeric →+ Numeric :=
  ⟨⟨PayoutSums.sumCommissionUsd, rfl⟩, fun _ _ => rfl⟩

def orchTokensColumn : RewardSums Numeric →+ Numeric :=
  ⟨⟨RewardSums.sumOrchTokensUsd, rfl⟩, fun _ _ => rfl⟩

/-- The payouts of a day, summed over `orch_payouts_daily`. -/
def payoutsOfDay : Db → ℤ → Option Numeric := sumOfDay orchPayouts PayoutKey.dayUtc commissionColumn

/-- The rewards of a day, summed over `orch_rewards_daily`. -/
def rewardsOfDay : Db → ℤ → Option Numeric := sumOfDay orchRewards RewardKey.dayUtc orchTokensColumn

/-- `COALESCE(AVG(…), 0)` if the window has 30 days, without the rounding of the quotient. -/
def trailingAverage (daySum : ℤ → Option Numeric) (window : List ℤ) : Option ℚ :=
  if 30 ≤ window.length then
    some (sqlAverage (fun day => (daySum day).map Decimal.toRat) window)
  else none

/-- `payouts_usd_30round_avg` of `round_get`. -/
def payoutsUsd30RoundAvg (db : Db) (roundId : ℤ) : Option ℚ :=
  trailingAverage (payoutsOfDay db) (windowDays db roundId)

/-- `rewards_usd_30round_avg` of `round_get`. -/
def rewardsUsd30RoundAvg (db : Db) (roundId : ℤ) : Option ℚ :=
  trailingAverage (rewardsOfDay db) (windowDays db roundId)

/-! ## What the averages should be -/

/-- The mean of a member over 30 rounds. -/
def meanOfRounds (member : RoundIndexRow → Numeric) (rows : List RoundIndexRow) : Option ℚ :=
  if 30 ≤ rows.length then
    some ((rows.map fun row => (member row).toRat).sum / rows.length)
  else none

/-- Both averages are the means over the 30 latest rounds. -/
structure TrailingAveragesCorrect (db : Db) (roundId : ℤ) : Prop where
  payouts : payoutsUsd30RoundAvg db roundId =
    meanOfRounds RoundIndexRow.payoutsUsdOnDay (latestRounds db roundId)
  rewards : rewardsUsd30RoundAvg db roundId =
    meanOfRounds RoundIndexRow.rewardsUsdOnDay (latestRounds db roundId)

/-- Databases that differ in the amounts of the daily tables at most. -/
structure SameLayout (db other : Db) : Prop where
  rounds : other.orchStakeByRound = db.orchStakeByRound
  payouts : other.orchPayoutsDaily.keys = db.orchPayoutsDaily.keys
  rewards : other.orchRewardsDaily.keys = db.orchRewardsDaily.keys

/-- The days on which the 30 latest rounds started. -/
def daysOfRounds (db : Db) (roundId : ℤ) : List ℤ :=
  (latestRounds db roundId).map fun row => dayUtc row.startedAt

/-- There are 30 days exactly if there are 30 rounds, and the rounds are spread evenly over the
days with rollup rows. -/
structure WindowFollowsRounds (db : Db) (roundId : ℤ) : Prop where
  enough : 30 ≤ (windowDays db roundId).length ↔ 30 ≤ (daysOfRounds db roundId).length
  payouts : 30 ≤ (daysOfRounds db roundId).length →
    SpreadEvenly (hasRowsOn orchPayouts PayoutKey.dayUtc db) (windowDays db roundId)
      (daysOfRounds db roundId)
  rewards : 30 ≤ (daysOfRounds db roundId).length →
    SpreadEvenly (hasRowsOn orchRewards RewardKey.dayUtc db) (windowDays db roundId)
      (daysOfRounds db roundId)

/-! ## Sums of a day -/

theorem getD_map_toRat (sum : Option Numeric) :
    (sum.map Decimal.toRat).getD 0 = (sum.getD 0).toRat := by
  cases sum with
  | none => exact Decimal.toRat_zero.symm
  | some amount => rfl

section DaySums

variable {Row Key Label Sums Stored : Type} [AddCommMonoid Sums] [AddCommMonoid Stored]
  [DecidableEq Key] {r : DailyRollup Row Key Label Sums Stored} {dayOf : Key → ℤ}
  {column : Stored →+ Numeric} {db other : Db}

theorem isSome_sumOfDay (day : ℤ) :
    (sumOfDay r dayOf column db day).isSome = hasRowsOn r dayOf db day := by
  unfold sumOfDay
  cases rows : hasRowsOn r dayOf db day <;> simp

/-- A day without rows has an empty sum. -/
theorem getD_sumOfDay (day : ℤ) : (sumOfDay r dayOf column db day).getD 0 =
    r.servedColumn column (fun key => decide (dayOf key = day)) db := by
  unfold sumOfDay
  split
  · exact Option.getD_some
  · next none =>
      rw [hasRowsOn, decide_eq_true_eq] at none
      refine (Finset.sum_eq_zero fun key selected => ?_).symm
      obtain ⟨stored, onDay⟩ := Finset.mem_filter.mp selected
      exact absurd ⟨key, stored, of_decide_eq_true onDay⟩ none

omit [DecidableEq Key] in
theorem hasRowsOn_congr (same : (r.table other).keys = (r.table db).keys) :
    hasRowsOn r dayOf other = hasRowsOn r dayOf db := by
  funext day
  rw [hasRowsOn, hasRowsOn, same]

/-- The same keys, with an amount under one of them. -/
def singleCell (chosen : Key) (amount : Stored) (table : Table Key (Total Stored)) :
    Table Key (Total Stored) :=
  Table.rewriteKeys (fun key => some ⟨if key = chosen then amount else 0, 0⟩) table.keys table

theorem lookup_singleCell {chosen : Key} {amount : Stored} {table : Table Key (Total Stored)}
    {key : Key} (stored : key ∈ table) : (singleCell chosen amount table).lookup key =
      some ⟨if key = chosen then amount else 0, 0⟩ := by
  rw [singleCell, Table.lookup_rewriteKeys, if_pos (Finmap.mem_keys.mpr stored)]

theorem keys_singleCell (chosen : Key) (amount : Stored) (table : Table Key (Total Stored)) :
    (singleCell chosen amount table).keys = table.keys := by
  ext key
  rw [Finmap.mem_keys, Finmap.mem_keys]
  by_cases stored : key ∈ table
  · exact iff_of_true (Finmap.mem_of_lookup_eq_some (lookup_singleCell stored)) stored
  · have absent : (singleCell chosen amount table).lookup key = none := by
      rw [singleCell, Table.lookup_rewriteKeys,
        if_neg fun member => stored (Finmap.mem_keys.mp member), Finmap.lookup_eq_none.mpr stored]
    exact iff_of_false (Finmap.lookup_eq_none.mp absent) stored

/-- A table with an amount under one of its keys. -/
def withAmount (r : DailyRollup Row Key Label Sums Stored) (chosen : Key) (amount : Stored)
    (db : Db) : Db :=
  r.withTable (singleCell chosen amount (r.table db)) db

theorem keys_withAmount (chosen : Key) (amount : Stored) :
    (r.table (withAmount r chosen amount db)).keys = (r.table db).keys := by
  rw [withAmount, r.table_withTable, keys_singleCell]

/-- An amount under one key is the sum of its day, and other days have none. -/
theorem sumOfDay_withAmount {chosen : Key} (stored : chosen ∈ r.table db) (amount : Stored)
    (day : ℤ) : (sumOfDay r dayOf column (withAmount r chosen amount db) day).getD 0 =
      if day = dayOf chosen then column amount else 0 := by
  rw [getD_sumOfDay, DailyRollup.servedColumn, withAmount, r.table_withTable, keys_singleCell]
  have cells : ∀ key ∈ (r.table db).keys.filter fun key => decide (dayOf key = day) = true,
      (((singleCell chosen amount (r.table db)).lookup key).map fun stored =>
        column stored.sums).getD 0 = if key = chosen then column amount else 0 := by
    intro key selected
    rw [lookup_singleCell (Finmap.mem_keys.mp (Finset.mem_filter.mp selected).1), Option.map_some,
      Option.getD_some]
    split
    · rfl
    · exact map_zero column
  rw [Finset.sum_congr rfl cells, Finset.sum_ite_eq']
  simp only [Finset.mem_filter, Finmap.mem_keys, stored, true_and, decide_eq_true_eq]
  simp only [eq_comm]

/-! ## One average -/

/-- The mean over some days, if there are 30. -/
def meanOfDays (daySum : ℤ → Option Numeric) (days : List ℤ) : Option ℚ :=
  if 30 ≤ days.length then some (meanOver (fun day => (daySum day).map Decimal.toRat) days)
  else none

variable {window days : List ℤ}

/-- **Over days that are spread evenly, the average is the mean.** -/
theorem trailingAverage_of_even (distinct : window.Nodup)
    (enough : 30 ≤ window.length ↔ 30 ≤ days.length)
    (even : 30 ≤ days.length → SpreadEvenly (hasRowsOn r dayOf db) window days) :
    trailingAverage (sumOfDay r dayOf column db) window =
      meanOfDays (sumOfDay r dayOf column db) days := by
  unfold trailingAverage meanOfDays
  by_cases long : 30 ≤ days.length
  · rw [if_pos (enough.mpr long), if_pos long]
    have nonempty : days ≠ [] := List.ne_nil_of_length_pos (by omega)
    refine congrArg some (sqlAverage_eq_mean distinct ?_ nonempty)
    simpa only [Option.isSome_map, isSome_sumOfDay] using even long
  · rw [if_neg (mt enough.mp long), if_neg long]

/-- There is an average exactly if there is a mean. -/
theorem enough_of_trailingAverage {daySum : ℤ → Option Numeric}
    (correct : trailingAverage daySum window = meanOfDays daySum days) :
    30 ≤ window.length ↔ 30 ≤ days.length := by
  unfold trailingAverage meanOfDays at correct
  split at correct <;> split at correct
  · exact iff_of_true ‹_› ‹_›
  · cases correct
  · cases correct
  · exact iff_of_false ‹_› ‹_›

/-- **An average that is the mean for every single amount is over days spread evenly.** -/
theorem even_of_trailingAverage (distinct : window.Nodup) (amount : Stored)
    (nonzero : (column amount).toRat ≠ 0)
    (correct : ∀ chosen, trailingAverage (sumOfDay r dayOf column (withAmount r chosen amount db))
      window = meanOfDays (sumOfDay r dayOf column (withAmount r chosen amount db)) days)
    (long : 30 ≤ days.length) : SpreadEvenly (hasRowsOn r dayOf db) window days := by
  refine spreadEvenly_iff.mpr fun day present => ?_
  rw [hasRowsOn, decide_eq_true_eq] at present
  obtain ⟨chosen, stored, rfl⟩ := present
  have agree := correct chosen
  have long' := (enough_of_trailingAverage agree).mpr long
  unfold trailingAverage meanOfDays at agree
  rw [if_pos long', if_pos long, Option.some.injEq] at agree
  have single : ∀ other, ((sumOfDay r dayOf column (withAmount r chosen amount db) other).map
      Decimal.toRat).getD 0 = if other = dayOf chosen then (column amount).toRat else 0 := by
    intro other
    have cell : (sumOfDay r dayOf column (withAmount r chosen amount db) other).getD 0 =
        if other = dayOf chosen then column amount else 0 :=
      sumOfDay_withAmount (Finmap.mem_keys.mp stored) amount other
    rw [getD_map_toRat, cell]
    split
    · rfl
    · exact Decimal.toRat_zero
  have rows : (fun other => ((sumOfDay r dayOf column (withAmount r chosen amount db) other).map
      Decimal.toRat).isSome) = hasRowsOn r dayOf db := by
    funext other
    rw [Option.isSome_map, isSome_sumOfDay, hasRowsOn_congr (keys_withAmount chosen amount)]
  have nonempty : days ≠ [] := List.ne_nil_of_length_pos (by omega)
  have weight := weight_of_sqlAverage_eq_mean distinct nonzero single nonempty agree
  rwa [rows] at weight

end DaySums

/-! ## Both averages -/

section Averages

variable {db other : Db} {roundId : ℤ}

theorem nodup_windowDays (db : Db) (roundId : ℤ) : (windowDays db roundId).Nodup :=
  (List.nodup_reverse.mpr (nodup_sortKeys _)).sublist (List.take_sublist ..)

theorem stakesOf_congr (same : other.orchStakeByRound = db.orchStakeByRound) (round : ℤ) :
    stakesOf other round = stakesOf db round := by
  unfold stakesOf addressesOf
  rw [same]

theorem windowDays_congr (same : other.orchStakeByRound = db.orchStakeByRound) (roundId : ℤ) :
    windowDays other roundId = windowDays db roundId := by
  unfold windowDays daysUpTo recordedRounds
  simp only [stakesOf_congr same, same]

/-- The days of rounds, from the table of rounds alone. -/
theorem daysOfRounds_eq (db : Db) (roundId : ℤ) : daysOfRounds db roundId =
    (listedRounds db (some (roundId + 1)) 30).filterMap fun round =>
      (startedOfIndex db round).map fun started => dayUtc started.2 := by
  rw [daysOfRounds, latestRounds, roundsIndex, List.map_filterMap]
  simp only [roundIndexRow, Option.map_map]
  rfl

theorem daysOfRounds_congr (same : other.orchStakeByRound = db.orchStakeByRound) (roundId : ℤ) :
    daysOfRounds other roundId = daysOfRounds db roundId := by
  rw [daysOfRounds_eq, daysOfRounds_eq]
  unfold listedRounds startedOfIndex recordedRounds
  simp only [stakesOf_congr same, same]

/-- `/rounds` reports the sums of the day of a round. -/
theorem onDay_of_latestRounds {row : RoundIndexRow} (listed : row ∈ latestRounds db roundId) :
    row.payoutsUsdOnDay = (payoutsOfDay db (dayUtc row.startedAt)).getD 0 ∧
      row.rewardsUsdOnDay = (rewardsOfDay db (dayUtc row.startedAt)).getD 0 := by
  obtain ⟨round, _, reported⟩ := List.mem_filterMap.mp listed
  obtain ⟨started, _, rfl⟩ := Option.map_eq_some_iff.mp reported
  have payouts : (payoutsOfDay db (dayUtc started.2)).getD 0 = payoutsUsdOnDay started.2 db :=
    getD_sumOfDay _
  have rewards : (rewardsOfDay db (dayUtc started.2)).getD 0 = rewardsUsdOnDay started.2 db :=
    getD_sumOfDay _
  exact ⟨payouts.symm, rewards.symm⟩

/-- **The mean over rounds is that over their days.** -/
theorem meanOfRounds_eq {member : RoundIndexRow → Numeric} {daySum : ℤ → Option Numeric}
    (onDay : ∀ row ∈ latestRounds db roundId,
      member row = (daySum (dayUtc row.startedAt)).getD 0) :
    meanOfRounds member (latestRounds db roundId) = meanOfDays daySum (daysOfRounds db roundId) := by
  unfold meanOfRounds meanOfDays meanOver daysOfRounds
  rw [List.length_map, List.map_map]
  have terms : (latestRounds db roundId).map (fun row => (member row).toRat) =
      (latestRounds db roundId).map ((fun day => ((daySum day).map Decimal.toRat).getD 0) ∘
        fun row => dayUtc row.startedAt) := by
    refine List.map_congr_left fun row listed => ?_
    rw [onDay row listed, Function.comp_apply, getD_map_toRat]
  rw [terms]

/-- Both averages, in terms of the days of rounds. -/
theorem trailingAveragesCorrect_iff : TrailingAveragesCorrect db roundId ↔
    trailingAverage (payoutsOfDay db) (windowDays db roundId) =
        meanOfDays (payoutsOfDay db) (daysOfRounds db roundId) ∧
      trailingAverage (rewardsOfDay db) (windowDays db roundId) =
        meanOfDays (rewardsOfDay db) (daysOfRounds db roundId) := by
  have payouts := meanOfRounds_eq fun row (listed : row ∈ latestRounds db roundId) =>
    (onDay_of_latestRounds listed).1
  have rewards := meanOfRounds_eq fun row (listed : row ∈ latestRounds db roundId) =>
    (onDay_of_latestRounds listed).2
  rw [← payouts, ← rewards]
  exact ⟨fun correct => ⟨correct.payouts, correct.rewards⟩, fun correct => ⟨correct.1, correct.2⟩⟩

/-- 10⁻¹⁸ dollars. -/
def smallestAmount : Numeric := ⟨1⟩

def smallestPayout : PayoutSums Numeric :=
  { (0 : PayoutSums Numeric) with sumCommissionUsd := smallestAmount }

def smallestReward : RewardSums Numeric :=
  { (0 : RewardSums Numeric) with sumOrchTokensUsd := smallestAmount }

theorem toRat_smallestAmount : smallestAmount.toRat ≠ 0 := by
  have units : ((1 : ℤ) : ℚ) ≠ 0 := by norm_num
  have scale : (10 ^ 18 : ℚ) ≠ 0 := by norm_num
  exact div_ne_zero units scale

theorem sameLayout_withPayout (chosen : PayoutKey) (amount : PayoutSums Numeric) :
    SameLayout db (withAmount orchPayouts chosen amount db) :=
  ⟨rfl, keys_withAmount (r := orchPayouts) chosen amount, rfl⟩

theorem sameLayout_withReward (chosen : RewardKey) (amount : RewardSums Numeric) :
    SameLayout db (withAmount orchRewards chosen amount db) :=
  ⟨rfl, rfl, keys_withAmount (r := orchRewards) chosen amount⟩

/-- **The averages are the means over the 30 latest rounds, whatever the amounts, exactly if there
are as many days as rounds, and the rounds are spread evenly over the days with rollup rows.** -/
theorem trailingAverages_iff (db : Db) (roundId : ℤ) :
    (∀ other, SameLayout db other → TrailingAveragesCorrect other roundId) ↔
      WindowFollowsRounds db roundId := by
  have distinct := nodup_windowDays db roundId
  constructor
  · intro correct
    have agree : ∀ other, SameLayout db other →
        trailingAverage (payoutsOfDay other) (windowDays db roundId) =
            meanOfDays (payoutsOfDay other) (daysOfRounds db roundId) ∧
          trailingAverage (rewardsOfDay other) (windowDays db roundId) =
            meanOfDays (rewardsOfDay other) (daysOfRounds db roundId) := by
      intro other layout
      have here := trailingAveragesCorrect_iff.mp (correct other layout)
      rwa [windowDays_congr layout.rounds, daysOfRounds_congr layout.rounds] at here
    refine ⟨enough_of_trailingAverage (agree db ⟨rfl, rfl, rfl⟩).1, ?_, ?_⟩
    · exact even_of_trailingAverage distinct smallestPayout toRat_smallestAmount
        fun chosen => (agree _ (sameLayout_withPayout chosen _)).1
    · exact even_of_trailingAverage distinct smallestReward toRat_smallestAmount
        fun chosen => (agree _ (sameLayout_withReward chosen _)).2
  · intro follows other layout
    have payoutRows : hasRowsOn orchPayouts PayoutKey.dayUtc other =
        hasRowsOn orchPayouts PayoutKey.dayUtc db := hasRowsOn_congr layout.payouts
    have rewardRows : hasRowsOn orchRewards RewardKey.dayUtc other =
        hasRowsOn orchRewards RewardKey.dayUtc db := hasRowsOn_congr layout.rewards
    rw [trailingAveragesCorrect_iff, windowDays_congr layout.rounds,
      daysOfRounds_congr layout.rounds]
    refine ⟨trailingAverage_of_even distinct follows.enough ?_,
      trailingAverage_of_even distinct follows.enough ?_⟩
    · rw [payoutRows]
      exact follows.payouts
    · rw [rewardRows]
      exact follows.rewards

end Averages

/-! ## Days without payouts -/

/-- A round that starts on the day of its number. -/
def roundOnDay (round : ℕ) : OrchStake where
  blockNumber := round
  blockTimestamp := round * oneDay
  blockHash := "0xb"
  totalStake := 0
  serviceUri := none
  latestFeeCutPercent := 0
  latestRewardCutPercent := 0
  latestFeeSharePercent := 0
  isActive := true
  lastLifecycleEventAt := none
  triggeringEventId := none

/-- 30 rounds on 30 days; payouts of 30 dollars on the first day only. -/
def sparseDays : Db :=
  { Db.empty with
    orchStakeByRound := (List.range 30).foldl
      (fun table (round : ℕ) => table.insert ("0xo", (round : ℤ)) (roundOnDay round)) ∅
    orchPayoutsDaily := Finmap.singleton ⟨0, "0xo", "v1", .transcoding⟩
      ⟨{ (0 : PayoutSums Numeric) with ticketCount := 1, sumCommissionUsd := ⟨30 * 10 ^ 18⟩ }, 1⟩ }

/-- **The average is 30 dollars, and the mean over the 30 rounds one.** -/
theorem sparseDays_overstate :
    ¬ ∀ db roundId, roundId ∈ recordedRounds db → TrailingAveragesCorrect db roundId := by
  intro law
  have agree := (law sparseDays 29 (by decide +kernel)).payouts
  have average : payoutsUsd30RoundAvg sparseDays 29 = some 30 := by decide +kernel
  have mean : meanOfRounds RoundIndexRow.payoutsUsdOnDay (latestRounds sparseDays 29) = some 1 := by
    decide +kernel
  rw [average, mean] at agree
  exact absurd agree (by decide)

end ProtocolExplorer.Api
