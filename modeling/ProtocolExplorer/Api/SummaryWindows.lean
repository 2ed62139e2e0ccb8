import ProtocolExplorer.Lib.Calendar
import ProtocolExplorer.Lib.Failures

/-!
# The windows of the summaries

The endpoints `summary_daily`, `summary_weekly` and `summary_monthly` of the payouts and of the
rewards read a date and ask for the summary from a first day to a last one.  The dates are those
of `NaiveDate`; `%Y` reads years of any length, so every one of them can be asked for.

* `weekly_computes`, `monthly_computes` — the windows, when there is one;
* `Computes.tiles` — the windows of a division of time contain their dates and do not overlap;
* `summaryWindows_iff` — **the dates whose six windows are what they should be**.
-/

set_option autoImplicit false

namespace ProtocolExplorer.Api.SummaryWindows

open ProtocolExplorer.Lib

/-! ## Dates -/

/-- The year of `NaiveDate::MIN`. -/
def minYear : ℤ := -262143

/-- The year of `NaiveDate::MAX`. -/
def maxYear : ℤ := 262142

structure NaiveDate extends CivilDate where
  inRange : minYear ≤ year ∧ year ≤ maxYear
  deriving DecidableEq

/-- A date of the calendar, if the type has it. -/
def checked (date : CivilDate) : Option NaiveDate :=
  if inRange : minYear ≤ date.year ∧ date.year ≤ maxYear then some ⟨date, inRange⟩ else none

/-- What a handler ends with when it has no window. -/
inductive Failure where
  | badRequest (message : String)
  | panicked
  deriving DecidableEq

/-- `date + Duration::days(_)`, which panics when the type has no such date. -/
def plusDays (date : NaiveDate) (days : ℕ) : Except Failure NaiveDate :=
  (checked (CivilDate.next^[days] date.toCivilDate)).elim (.error .panicked) .ok

/-- `date - Duration::days(_)`. -/
def minusDays (date : NaiveDate) (days : ℕ) : Except Failure NaiveDate :=
  (checked (CivilDate.prev^[days] date.toCivilDate)).elim (.error .panicked) .ok

/-- `with_day`. -/
def withDay (date : NaiveDate) (day : ℕ) : Option NaiveDate :=
  if valid : 1 ≤ day ∧ day ≤ daysInMonth date.year date.month then
    some ⟨⟨date.year, date.month, day, date.monthValid, valid⟩, date.inRange⟩
  else none

/-- `NaiveDate::from_ymd_opt`. -/
def fromYmdOpt (year : ℤ) (month day : ℕ) : Option NaiveDate :=
  if months : 1 ≤ month ∧ month ≤ 12 then
    if days : 1 ≤ day ∧ day ≤ daysInMonth year month then
      checked ⟨year, month, day, months, days⟩
    else none
  else none

/-- `.ok_or_else(|| ApiError::bad_request("invalid date"))`. -/
def orInvalid (date : Option NaiveDate) : Except Failure NaiveDate :=
  date.elim (.error (.badRequest "invalid date")) .ok

/-- `NaiveDate::parse_from_str(_, "%Y-%m-%d")` and the text `{:?}` of a string. -/
structure DateLibrary where
  parseFromStr : String → Option NaiveDate
  debug : String → String

/-- What is handed to `summary_for_range`. -/
structure Window where
  start : NaiveDate
  stop : NaiveDate
  deriving DecidableEq

/-! ## The payouts -/

namespace Payouts

section

variable (lib : DateLibrary)

/-- `parse_date`. -/
def parseDate (value field : String) : Except Failure NaiveDate :=
  (lib.parseFromStr value).elim
    (.error (.badRequest
      ("invalid " ++ field ++ ": " ++ lib.debug value ++ "; use YYYY-MM-DD"))) .ok

/-- `summary_daily`. -/
def summaryDaily (date : String) : Except Failure Window := do
  let day ← parseDate lib date "date"
  return ⟨day, day⟩

/-- `summary_weekly`. -/
def summaryWeekly (date : String) : Except Failure Window := do
  let date ← parseDate lib date "date"
  let start ← minusDays date date.weekday
  let stop ← plusDays start 6
  return ⟨start, stop⟩

/-- `summary_monthly`. -/
def summaryMonthly (date : String) : Except Failure Window := do
  let date ← parseDate lib date "date"
  let start ← orInvalid (withDay date 1)
  let nextMonth ← orInvalid (if start.month = 12 then fromYmdOpt (start.year + 1) 1 1
    else fromYmdOpt start.year (start.month + 1) 1)
  let stop ← minusDays nextMonth 1
  return ⟨start, stop⟩

end

end Payouts

/-! ## The rewards -/

namespace Rewards

section

variable (lib : DateLibrary)

/-- `parse_date`. -/
def parseDate (raw field : String) : Except Failure NaiveDate :=
  (lib.parseFromStr raw).elim
    (.error (.badRequest ("invalid " ++ field ++ " " ++ lib.debug raw ++ "; use YYYY-MM-DD"))) .ok

/-- `summary_daily`. -/
def summaryDaily (date : String) : Except Failure Window := do
  let day ← parseDate lib date "date"
  return ⟨day, day⟩

/-- `summary_weekly`. -/
def summaryWeekly (date : String) : Except Failure Window := do
  let day ← parseDate lib date "date"
  let start ← minusDays day day.weekday
  let stop ← plusDays start 6
  return ⟨start, stop⟩

/-- `summary_monthly`. -/
def summaryMonthly (date : String) : Except Failure Window := do
  let day ← parseDate lib date "date"
  let start ← orInvalid (withDay day 1)
  let stop ←
    if start.month = 12 then do
      let following ← orInvalid (fromYmdOpt (start.year + 1) 1 1)
      minusDays following 1
    else do
      let following ← orInvalid (fromYmdOpt start.year (start.month + 1) 1)
      minusDays following 1
  return ⟨start, stop⟩

end

end Rewards

/-! ## Computing with dates -/

section Dates

variable {date other : NaiveDate} {days : ℕ}

theorem toCivilDate_injective : Function.Injective NaiveDate.toCivilDate := by
  rintro ⟨_, _⟩ ⟨_, _⟩ rfl
  rfl

theorem checked_eq_some {civil : CivilDate} :
    checked civil = some date ↔ date.toCivilDate = civil := by
  rw [checked]
  split_ifs with inRange
  · rw [Option.some.injEq]
    constructor
    · rintro rfl
      rfl
    · rintro rfl
      rfl
  · refine iff_of_false (by simp) ?_
    rintro rfl
    exact inRange date.inRange

theorem elim_eq_ok {failure : Failure} {found : Option NaiveDate} :
    (found.elim (.error failure) .ok : Except Failure NaiveDate) = .ok date ↔
      found = some date := by
  cases found <;> simp

theorem plusDays_eq_ok : plusDays date days = .ok other ↔
    other.toCivilDate = CivilDate.next^[days] date.toCivilDate := by
  rw [plusDays, elim_eq_ok, checked_eq_some]

theorem minusDays_eq_ok : minusDays date days = .ok other ↔
    other.toCivilDate = CivilDate.prev^[days] date.toCivilDate := by
  rw [minusDays, elim_eq_ok, checked_eq_some]

/-- The first day of the month is always there. -/
theorem withDay_one (date : NaiveDate) :
    withDay date 1 = some ⟨date.monthStart, date.inRange⟩ := by
  rw [withDay, dif_pos ⟨le_refl 1, daysInMonth_pos date.year date.month⟩]
  rfl

theorem fromYmdOpt_one {year : ℤ} {month : ℕ} (valid : 1 ≤ month ∧ month ≤ 12) :
    fromYmdOpt year month 1 = checked (CivilDate.firstOf year month valid) := by
  rw [fromYmdOpt, dif_pos valid, dif_pos ⟨le_refl 1, daysInMonth_pos year month⟩]
  rfl

end Dates

/-! ## What the handlers compute -/

section Handlers

variable {lib : DateLibrary}

/-- The handler answers a date with its block, if the block is one it can compute. -/
def Computes (lib : DateLibrary) (handler : String → Except Failure Window)
    (start stop : CivilDate → CivilDate) (within : Window → Prop) : Prop :=
  ∀ text w, handler text = .ok w ↔ within w ∧ ∃ date, lib.parseFromStr text = some date ∧
    w.start.toCivilDate = start date.toCivilDate ∧ w.stop.toCivilDate = stop date.toCivilDate

theorem Payouts.parseDate_eq_ok {text field : String} {date : NaiveDate} :
    Payouts.parseDate lib text field = .ok date ↔ lib.parseFromStr text = some date :=
  elim_eq_ok

theorem Rewards.parseDate_eq_ok {text field : String} {date : NaiveDate} :
    Rewards.parseDate lib text field = .ok date ↔ lib.parseFromStr text = some date :=
  elim_eq_ok

/-- The date itself. -/
theorem payouts_daily : Computes lib (Payouts.summaryDaily lib) id id fun _ => True := by
  intro text w
  simp only [Payouts.summaryDaily, bind_eq_ok, pure_eq_ok, Payouts.parseDate_eq_ok, true_and]
  refine exists_congr fun date => and_congr_right fun _ => ?_
  constructor
  · rintro rfl
    exact ⟨rfl, rfl⟩
  · rintro ⟨first, last⟩
    cases w
    rw [Window.mk.injEq]
    exact ⟨(toCivilDate_injective first).symm, (toCivilDate_injective last).symm⟩

/-- The week of the date. -/
theorem payouts_weekly : Computes lib (Payouts.summaryWeekly lib) CivilDate.monday
    CivilDate.sunday fun _ => True := by
  intro text w
  simp only [Payouts.summaryWeekly, bind_eq_ok, pure_eq_ok, Payouts.parseDate_eq_ok,
    minusDays_eq_ok, plusDays_eq_ok, true_and]
  refine exists_congr fun date => and_congr_right fun _ => ?_
  constructor
  · rintro ⟨start, atMonday, stop, atSunday, rfl⟩
    exact ⟨atMonday, atSunday.trans (by rw [atMonday]; rfl)⟩
  · rintro ⟨atMonday, atSunday⟩
    exact ⟨w.start, atMonday, w.stop, atSunday.trans (by rw [atMonday]; rfl), rfl⟩

/-- The date after the month, in one expression. -/
theorem nextMonth_eq (date : CivilDate) :
    (if date.month = 12 then fromYmdOpt (date.year + 1) 1 1
      else fromYmdOpt date.year (date.month + 1) 1) = checked date.monthEnd.next := by
  have month := date.monthValid
  rw [CivilDate.next_monthEnd]
  split_ifs with december later later
  · omega
  · exact fromYmdOpt_one _
  · exact fromYmdOpt_one _
  · omega

/-- The month of the date, unless it is the last one. -/
theorem payouts_monthly : Computes lib (Payouts.summaryMonthly lib) CivilDate.monthStart
    CivilDate.monthEnd fun w => w.stop.next.year ≤ maxYear := by
  intro text w
  simp only [Payouts.summaryMonthly, bind_eq_ok, pure_eq_ok, Payouts.parseDate_eq_ok,
    minusDays_eq_ok, orInvalid, elim_eq_ok, withDay_one]
  constructor
  · rintro ⟨date, parsed, start, first, following, next, stop, before, rfl⟩
    cases first
    have next : following.toCivilDate = date.monthEnd.next :=
      checked_eq_some.mp ((nextMonth_eq date.toCivilDate).symm.trans next)
    have last : stop.toCivilDate = date.monthEnd := by
      rw [before, Function.iterate_one, next, CivilDate.prev_next]
    refine ⟨?_, date, parsed, rfl, last⟩
    simp only [last, ← next]
    exact following.inRange.2
  · rintro ⟨within, date, parsed, first, last⟩
    rw [last] at within
    have later : minYear ≤ date.monthEnd.next.year := by
      have := CivilDate.le_year_iff.mp (show minYear ≤ date.monthEnd.year from date.inRange.1)
      rw [CivilDate.le_year_iff, CivilDate.dayNumber_next]
      omega
    refine ⟨date, parsed, _, rfl, ⟨date.monthEnd.next, later, within⟩, ?_, w.stop, ?_, ?_⟩
    · exact (nextMonth_eq date.toCivilDate).trans (checked_eq_some.mpr rfl)
    · rw [last, Function.iterate_one, CivilDate.prev_next]
    · cases w
      rw [Window.mk.injEq]
      exact ⟨toCivilDate_injective first.symm, rfl⟩

theorem rewards_weekly_iff (text : String) (w : Window) :
    Rewards.summaryWeekly lib text = .ok w ↔ Payouts.summaryWeekly lib text = .ok w := by
  simp only [Rewards.summaryWeekly, Payouts.summaryWeekly, bind_eq_ok, Payouts.parseDate_eq_ok,
    Rewards.parseDate_eq_ok]

theorem rewards_daily_iff (text : String) (w : Window) :
    Rewards.summaryDaily lib text = .ok w ↔ Payouts.summaryDaily lib text = .ok w := by
  simp only [Rewards.summaryDaily, Payouts.summaryDaily, bind_eq_ok, Payouts.parseDate_eq_ok,
    Rewards.parseDate_eq_ok]

theorem rewards_monthly_iff (text : String) (w : Window) :
    Rewards.summaryMonthly lib text = .ok w ↔ Payouts.summaryMonthly lib text = .ok w := by
  simp only [Rewards.summaryMonthly, Payouts.summaryMonthly, bind_eq_ok, Payouts.parseDate_eq_ok,
    Rewards.parseDate_eq_ok]
  refine exists_congr fun date => and_congr_right fun _ => ?_
  refine exists_congr fun start => and_congr_right fun _ => ?_
  split_ifs
  · simp only [bind_eq_ok]
  · simp only [bind_eq_ok]

end Handlers

/-! ## The windows -/

section Windows

/-- The dates from the first one of a window to the last one. -/
def Window.Contains (w : Window) (date : NaiveDate) : Prop :=
  w.start.toCivilDate ≤ date.toCivilDate ∧ date.toCivilDate ≤ w.stop.toCivilDate

/-- A window is one of a series without gaps and overlaps: it contains the date, it is the window
of all its dates, the next date begins a window, and other windows do not meet it. -/
structure Tiles (lib : DateLibrary) (handler : String → Except Failure Window)
    (date : NaiveDate) (w : Window) : Prop where
  contains : w.Contains date
  same : ∀ text other, lib.parseFromStr text = some other → w.Contains other →
    handler text = .ok w
  adjacent : ∀ text other v, lib.parseFromStr text = some other → handler text = .ok v →
    other.toCivilDate = w.stop.next → v.start = other
  disjoint : ∀ text v, handler text = .ok v → v = w ∨
    w.stop.toCivilDate < v.start.toCivilDate ∨ v.stop.toCivilDate < w.start.toCivilDate

variable {lib : DateLibrary} {handler : String → Except Failure Window}
  {start stop : CivilDate → CivilDate} {within : Window → Prop}

theorem window_ext {w v : Window} (first : w.start.toCivilDate = v.start.toCivilDate)
    (last : w.stop.toCivilDate = v.stop.toCivilDate) : w = v := by
  cases w
  cases v
  rw [Window.mk.injEq]
  exact ⟨toCivilDate_injective first, toCivilDate_injective last⟩

/-- **The windows of a division of time** are a series without gaps and overlaps. -/
theorem Computes.tiles (computes : Computes lib handler start stop within)
    (division : Division start stop) {text : String} {date : NaiveDate} {w : Window}
    (parsed : lib.parseFromStr text = some date) (answered : handler text = .ok w) :
    Tiles lib handler date w := by
  obtain ⟨computable, own, parsed', first, last⟩ := (computes text w).mp answered
  cases parsed.symm.trans parsed'
  refine ⟨?_, fun text other read inside => ?_, fun text other v read ended next => ?_,
    fun text v ended => ?_⟩
  · rw [Window.Contains, first, last]
    exact division.contains _
  · rw [Window.Contains, first, last] at inside
    obtain ⟨sameStart, sameStop⟩ := division.whole _ _ inside.1 inside.2
    exact (computes text w).mpr
      ⟨computable, other, read, first.trans sameStart.symm, last.trans sameStop.symm⟩
  · obtain ⟨_, other', read', first', _⟩ := (computes text v).mp ended
    cases read.symm.trans read'
    have after : stop date.toCivilDate < other.toCivilDate := by
      rw [next, last, CivilDate.lt_def, CivilDate.dayNumber_next]
      omega
    refine toCivilDate_injective (first'.trans (division.adjacent after fun earlier before => ?_))
    rw [next, last, CivilDate.lt_def, CivilDate.dayNumber_next] at before
    rw [CivilDate.le_def]
    omega
  · obtain ⟨_, other, _, first', last'⟩ := (computes text v).mp ended
    rw [first, last, first', last']
    rcases division.disjoint other.toCivilDate date.toCivilDate with ⟨one, two⟩ | rest
    · exact Or.inl (window_ext (first'.trans (one.trans first.symm))
        (last'.trans (two.trans last.symm)))
    · exact Or.inr rest.symm

/-- The endpoints answer a date with one window, which is of a kind, in a series without gaps and
overlaps. -/
def Agree (lib : DateLibrary) (handlers : List (String → Except Failure Window)) (text : String)
    (date : NaiveDate) (kind : Window → Prop) : Prop :=
  ∃ w, kind w ∧ ∀ handler ∈ handlers, handler text = .ok w ∧ Tiles lib handler date w

/-- Two endpoints with the same answers, which are blocks of a division of time. -/
theorem agree {payouts rewards : String → Except Failure Window}
    (computes : Computes lib payouts start stop within)
    (same : ∀ text w, rewards text = .ok w ↔ payouts text = .ok w)
    (division : Division start stop) {text : String} {date : NaiveDate} {w : Window}
    {kind : Window → Prop} (parsed : lib.parseFromStr text = some date)
    (answered : payouts text = .ok w) (ofKind : kind w) :
    Agree lib [payouts, rewards] text date kind := by
  have other : Computes lib rewards start stop within :=
    fun text w => (same text w).trans (computes text w)
  have answered' := (same text w).mpr answered
  refine ⟨w, ofKind, List.forall_mem_cons.mpr ⟨⟨answered, ?_⟩, List.forall_mem_singleton.mpr
    ⟨answered', ?_⟩⟩⟩
  · exact computes.tiles division parsed answered
  · exact other.tiles division parsed answered'

/-- What the six windows of a date should be. -/
structure Right (lib : DateLibrary) (text : String) (date : NaiveDate) : Prop where
  daily : Agree lib [Payouts.summaryDaily lib, Rewards.summaryDaily lib] text date
    fun w => w = ⟨date, date⟩
  /-- From Monday to Sunday. -/
  weekly : Agree lib [Payouts.summaryWeekly lib, Rewards.summaryWeekly lib] text date
    fun w => w.start.weekday = 0 ∧ w.stop.weekday = 6 ∧
      w.stop.toCivilDate = CivilDate.next^[6] w.start.toCivilDate
  monthly : Agree lib [Payouts.summaryMonthly lib, Rewards.summaryMonthly lib] text date
    fun w => w.start.toCivilDate = date.monthStart ∧ w.stop.toCivilDate = date.monthEnd

end Windows

/-! ## The dates with the right windows -/

section Bounds

/-- The first Monday that the type has. -/
def firstMonday : CivilDate := ⟨minYear, 1, 5, CivilDate.january, by decide⟩

/-- The beginning of the last month that the type has. -/
def lastMonth : CivilDate := CivilDate.firstOf maxYear 12 CivilDate.december

variable {lib : DateLibrary} {text : String} {date : NaiveDate}

theorem firstMonday_number :
    firstMonday.dayNumber = daysBeforeYear minYear + 5 ∧ (firstMonday.dayNumber - 1) % 7 = 0 := by
  decide +kernel

theorem lastMonth_number : lastMonth.dayNumber + 30 = daysBeforeYear (maxYear + 1) := by
  decide +kernel

/-- The Monday of a date is one of the type from the first one on. -/
theorem minYear_le_monday :
    minYear ≤ date.monday.year ↔ firstMonday ≤ date.toCivilDate := by
  obtain ⟨number, onMonday⟩ := firstMonday_number
  have monday := CivilDate.dayNumber_monday date.toCivilDate
  rw [CivilDate.le_year_iff, CivilDate.le_def]
  omega

/-- Before the last month, the Sunday of a date is one of the type. -/
theorem sunday_le_maxYear (before : date.toCivilDate < lastMonth) :
    date.sunday.year ≤ maxYear := by
  have number := lastMonth_number
  have monday := CivilDate.dayNumber_monday date.toCivilDate
  have sunday := CivilDate.dayNumber_sunday date.toCivilDate
  rw [CivilDate.lt_def] at before
  rw [CivilDate.year_le_iff]
  omega

/-- A month is the last one if the next date is none of the type. -/
theorem next_monthEnd_le_maxYear :
    date.monthEnd.next.year ≤ maxYear ↔ date.toCivilDate < lastMonth := by
  have month := date.monthValid
  have year := date.inRange.2
  rw [CivilDate.next_monthEnd, lastMonth, CivilDate.lt_firstOf_iff]
  split_ifs with later
  · refine iff_of_true year ?_
    omega
  · simp only [CivilDate.firstOf]
    omega

theorem exists_date {civil : CivilDate} (after : minYear ≤ civil.year)
    (before : civil.year ≤ maxYear) : ∃ date : NaiveDate, date.toCivilDate = civil :=
  ⟨⟨civil, after, before⟩, rfl⟩

/-- The week of a date, if the type has its Monday and its Sunday. -/
theorem weekly_exists (parsed : lib.parseFromStr text = some date)
    (after : minYear ≤ date.monday.year) (before : date.sunday.year ≤ maxYear) :
    ∃ w, Payouts.summaryWeekly lib text = .ok w := by
  obtain ⟨first, last⟩ := CivilDate.weeks_division.contains date.toCivilDate
  have order := CivilDate.year_mono (first.trans last)
  obtain ⟨start, atMonday⟩ := exists_date after (order.trans before)
  obtain ⟨stop, atSunday⟩ := exists_date (after.trans order) before
  exact ⟨⟨start, stop⟩, (payouts_weekly _ _).mpr ⟨trivial, date, parsed, atMonday, atSunday⟩⟩

/-- The month of a date, if the type has the next one. -/
theorem monthly_exists (parsed : lib.parseFromStr text = some date)
    (next : date.monthEnd.next.year ≤ maxYear) :
    Payouts.summaryMonthly lib text =
      .ok ⟨⟨date.monthStart, date.inRange⟩, ⟨date.monthEnd, date.inRange⟩⟩ :=
  (payouts_monthly _ _).mpr ⟨next, date, parsed, rfl, rfl⟩

/-- **The windows of a date are what they should be** from the first Monday of the type on, and
before its last month; other dates have a window that is not computed. -/
theorem summaryWindows_iff (lib : DateLibrary) (text : String) (date : NaiveDate)
    (parsed : lib.parseFromStr text = some date) :
    Right lib text date ↔ firstMonday ≤ date.toCivilDate ∧ date.toCivilDate < lastMonth := by
  constructor
  · rintro ⟨_, ⟨week, _, weekly⟩, ⟨month, _, monthly⟩⟩
    obtain ⟨_, own, read, first, _⟩ :=
      (payouts_weekly text week).mp (weekly _ (List.mem_cons_self ..)).1
    obtain ⟨next, own', read', _, last⟩ :=
      (payouts_monthly text month).mp (monthly _ (List.mem_cons_self ..)).1
    cases parsed.symm.trans read
    cases parsed.symm.trans read'
    refine ⟨minYear_le_monday.mp ?_, next_monthEnd_le_maxYear.mp ?_⟩
    · rw [← first]
      exact week.start.inRange.1
    · rwa [← last]
  · rintro ⟨after, before⟩
    obtain ⟨week, weekly⟩ :=
      weekly_exists parsed (minYear_le_monday.mpr after) (sunday_le_maxYear before)
    have monthly := monthly_exists parsed (next_monthEnd_le_maxYear.mpr before)
    have daily : Payouts.summaryDaily lib text = .ok ⟨date, date⟩ :=
      (payouts_daily _ _).mpr ⟨trivial, date, parsed, rfl, rfl⟩
    refine ⟨agree payouts_daily rewards_daily_iff Division.days parsed daily rfl,
      agree payouts_weekly rewards_weekly_iff CivilDate.weeks_division parsed weekly ?_,
      agree payouts_monthly rewards_monthly_iff CivilDate.months_division parsed monthly
        ⟨rfl, rfl⟩⟩
    obtain ⟨_, own, read, first, last⟩ := (payouts_weekly text week).mp weekly
    rw [first, last]
    exact ⟨CivilDate.weekday_monday _, CivilDate.weekday_sunday _, rfl⟩

/-! ### Two dates -/

/-- A library that reads one text. -/
def readingOne (text : String) (date : NaiveDate) : DateLibrary :=
  ⟨fun value => if value = text then some date else none, fun value => value⟩

/-- The 29th of February 2024. -/
def leapDay : NaiveDate := ⟨⟨2024, 2, 29, by decide, by decide⟩, by decide⟩

theorem summaryWindows_leapDay : Right (readingOne "2024-02-29" leapDay) "2024-02-29" leapDay ↔
    firstMonday ≤ leapDay.toCivilDate ∧ leapDay.toCivilDate < lastMonth :=
  summaryWindows_iff _ _ _ (by decide)

/-- The last date of the type, a Monday. -/
def lastDate : NaiveDate := ⟨⟨maxYear, 12, 31, CivilDate.december, by decide⟩, by decide⟩

/-- The week of the last date ends in a panic. -/
theorem lastDate_panics : Payouts.summaryWeekly (readingOne "+262142-12-31" lastDate)
    "+262142-12-31" = .error .panicked := by
  decide +kernel

/-- A date that is read has no window. -/
theorem lastDate_violates : ¬ ∀ (lib : DateLibrary) (text : String) (date : NaiveDate),
    lib.parseFromStr text = some date → Right lib text date := by
  intro right
  obtain ⟨_, ⟨week, _, weekly⟩, _⟩ :=
    right (readingOne "+262142-12-31" lastDate) "+262142-12-31" lastDate (by decide)
  have answered := (weekly _ (List.mem_cons_self ..)).1
  rw [lastDate_panics] at answered
  cases answered

end Bounds

end ProtocolExplorer.Api.SummaryWindows
