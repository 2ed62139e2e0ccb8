import Mathlib

/-!
# The Gregorian calendar

The dates of the proleptic Gregorian calendar, one after the other.  A date has a number, in which
the first of January of the year one is 1; dates with one number are the same.

* `dayNumber_next`, `dayNumber_prev` — the next date and the one before it;
* `dayNumber_injective` — **a date is known by its number**;
* `Division.disjoint`, `Division.adjacent` — the blocks of a division of time;
* `months_division`, `weeks_division` — **the months and the weeks divide time**.
-/

set_option autoImplicit false

namespace ProtocolExplorer.Lib

/-- A year with a 29th of February. -/
def isLeapYear (year : ℤ) : Bool := decide (year % 4 = 0 ∧ (year % 100 ≠ 0 ∨ year % 400 = 0))

def daysInMonth (year : ℤ) : ℕ → ℕ
  | 2 => if isLeapYear year then 29 else 28
  | 4 => 30
  | 6 => 30
  | 9 => 30
  | 11 => 30
  | _ => 31

/-- The days of a year before a month. -/
def daysBeforeMonth (year : ℤ) : ℕ → ℕ
  | 0 => 0
  | 1 => 0
  | month + 2 => daysBeforeMonth year (month + 1) + daysInMonth year (month + 1)

/-- The days before a year, from the year one on. -/
def daysBeforeYear (year : ℤ) : ℤ :=
  365 * (year - 1) + (year - 1) / 4 - (year - 1) / 100 + (year - 1) / 400

theorem daysInMonth_pos (year : ℤ) (month : ℕ) : 1 ≤ daysInMonth year month := by
  unfold daysInMonth
  split
  · split_ifs <;> omega
  all_goals omega

theorem daysBeforeMonth_succ (year : ℤ) {month : ℕ} (valid : 1 ≤ month) :
    daysBeforeMonth year (month + 1) = daysBeforeMonth year month + daysInMonth year month := by
  obtain ⟨month, rfl⟩ := Nat.exists_eq_add_of_le' valid
  rfl

/-- A year ends with its twelfth month. -/
theorem daysBeforeYear_succ (year : ℤ) :
    daysBeforeYear (year + 1) = daysBeforeYear year + daysBeforeMonth year 13 := by
  have months : daysBeforeMonth year 13 = if isLeapYear year then 366 else 365 := by
    simp only [daysBeforeMonth, daysInMonth]
    split_ifs <;> rfl
  rw [months, daysBeforeYear, daysBeforeYear, isLeapYear]
  split_ifs with leap
  · have leap := of_decide_eq_true leap
    omega
  · have common := of_decide_eq_false (Bool.eq_false_of_not_eq_true leap)
    omega

theorem daysBeforeMonth_mono (year : ℤ) : Monotone (daysBeforeMonth year) := by
  refine monotone_nat_of_le_succ fun month => ?_
  cases month with
  | zero => exact le_refl _
  | succ month => exact Nat.le_add_right _ _

theorem daysBeforeYear_mono : Monotone daysBeforeYear := by
  refine monotone_int_of_le_succ fun year => ?_
  rw [daysBeforeYear_succ]
  omega

/-! ## Dates -/

structure CivilDate where
  year : ℤ
  month : ℕ
  day : ℕ
  monthValid : 1 ≤ month ∧ month ≤ 12
  dayValid : 1 ≤ day ∧ day ≤ daysInMonth year month
  deriving DecidableEq

namespace CivilDate

theorem january : 1 ≤ 1 ∧ 1 ≤ 12 := by decide

theorem december : 1 ≤ 12 ∧ 12 ≤ 12 := by decide

/-- The first date of a month. -/
def firstOf (year : ℤ) (month : ℕ) (valid : 1 ≤ month ∧ month ≤ 12) : CivilDate :=
  ⟨year, month, 1, valid, le_refl 1, daysInMonth_pos year month⟩

/-- The last date of a month. -/
def lastOf (year : ℤ) (month : ℕ) (valid : 1 ≤ month ∧ month ≤ 12) : CivilDate :=
  ⟨year, month, daysInMonth year month, valid, daysInMonth_pos year month, le_refl _⟩

def next (date : CivilDate) : CivilDate :=
  if inside : date.day < daysInMonth date.year date.month then
    ⟨date.year, date.month, date.day + 1, date.monthValid, Nat.le_add_left 1 _, inside⟩
  else if later : date.month < 12 then
    firstOf date.year (date.month + 1) ⟨Nat.le_add_left 1 _, later⟩
  else firstOf (date.year + 1) 1 january

def prev (date : CivilDate) : CivilDate :=
  if inside : 1 < date.day then
    ⟨date.year, date.month, date.day - 1, date.monthValid, Nat.le_sub_one_of_lt inside,
      (Nat.sub_le _ 1).trans date.dayValid.2⟩
  else if later : 1 < date.month then
    lastOf date.year (date.month - 1)
      ⟨Nat.le_sub_one_of_lt later, (Nat.sub_le _ 1).trans date.monthValid.2⟩
  else lastOf (date.year - 1) 12 december

/-- The number of a date. -/
def dayNumber (date : CivilDate) : ℤ :=
  daysBeforeYear date.year + daysBeforeMonth date.year date.month + date.day

/-! ### The order of the dates -/

theorem dayNumber_next (date : CivilDate) : date.next.dayNumber = date.dayNumber + 1 := by
  have days := date.dayValid
  have months := date.monthValid
  have after := daysBeforeMonth_succ date.year months.1
  unfold next
  split_ifs with inside later
  · simp only [dayNumber]
    omega
  · simp only [dayNumber, firstOf, after]
    omega
  · have last : date.month = 12 := by omega
    have year := daysBeforeYear_succ date.year
    have last_month : daysBeforeMonth date.year 13 =
        daysBeforeMonth date.year 12 + daysInMonth date.year 12 := rfl
    rw [last] at days inside
    have first_month : daysBeforeMonth (date.year + 1) 1 = 0 := rfl
    simp only [dayNumber, firstOf, year, last, first_month]
    omega

theorem dayNumber_prev (date : CivilDate) : date.prev.dayNumber = date.dayNumber - 1 := by
  have days := date.dayValid
  have months := date.monthValid
  unfold prev
  split_ifs with inside later
  · simp only [dayNumber]
    omega
  · obtain ⟨month, same⟩ := Nat.exists_eq_add_of_le' months.1
    have before := daysBeforeMonth_succ date.year (show 1 ≤ month by omega)
    simp only [dayNumber, lastOf, same, before, Nat.add_sub_cancel]
    omega
  · have first : date.month = 1 := by omega
    have year := daysBeforeYear_succ (date.year - 1)
    have last_month : daysBeforeMonth (date.year - 1) 13 =
        daysBeforeMonth (date.year - 1) 12 + daysInMonth (date.year - 1) 12 := rfl
    have first_month : daysBeforeMonth date.year 1 = 0 := rfl
    rw [sub_add_cancel] at year
    simp only [dayNumber, lastOf, year, first, first_month]
    omega

theorem dayNumber_next_iterate (date : CivilDate) (k : ℕ) :
    (next^[k] date).dayNumber = date.dayNumber + k := by
  induction k with
  | zero => simp
  | succ k inductionHypothesis =>
      rw [Function.iterate_succ_apply', dayNumber_next, inductionHypothesis]
      push_cast
      ring

theorem dayNumber_prev_iterate (date : CivilDate) (k : ℕ) :
    (prev^[k] date).dayNumber = date.dayNumber - k := by
  induction k with
  | zero => simp
  | succ k inductionHypothesis =>
      rw [Function.iterate_succ_apply', dayNumber_prev, inductionHypothesis]
      push_cast
      ring

/-- The numbers of the dates of a month. -/
theorem dayNumber_bounds (date : CivilDate) :
    daysBeforeYear date.year + daysBeforeMonth date.year date.month < date.dayNumber ∧
      date.dayNumber ≤ daysBeforeYear date.year + daysBeforeMonth date.year (date.month + 1) := by
  have days := date.dayValid
  rw [daysBeforeMonth_succ date.year date.monthValid.1, dayNumber]
  omega

/-- The numbers of the dates of a year. -/
theorem dayNumber_bounds_year (date : CivilDate) :
    daysBeforeYear date.year < date.dayNumber ∧
      date.dayNumber ≤ daysBeforeYear (date.year + 1) := by
  have bounds := dayNumber_bounds date
  have months := daysBeforeMonth_mono date.year
    (show date.month + 1 ≤ 13 from Nat.succ_le_succ date.monthValid.2)
  rw [daysBeforeYear_succ]
  omega

/-- The dates of an earlier year, or of an earlier month of the same year, have smaller numbers. -/
theorem dayNumber_lt {first second : CivilDate}
    (earlier : first.year < second.year ∨ first.year = second.year ∧ first.month < second.month) :
    first.dayNumber < second.dayNumber := by
  rcases earlier with year | ⟨year, month⟩
  · have above := (dayNumber_bounds_year first).2
    have below := (dayNumber_bounds_year second).1
    have years := daysBeforeYear_mono (show first.year + 1 ≤ second.year from year)
    omega
  · have above := (dayNumber_bounds first).2
    have below := (dayNumber_bounds second).1
    have months := daysBeforeMonth_mono second.year (show first.month + 1 ≤ second.month from month)
    rw [year] at above
    omega

/-- **A date is known by its number.** -/
theorem dayNumber_injective : Function.Injective dayNumber := by
  intro first second same
  have year : first.year = second.year := by
    rcases lt_trichotomy first.year second.year with before | equal | after
    · exact absurd same (dayNumber_lt (Or.inl before)).ne
    · exact equal
    · exact absurd same (dayNumber_lt (Or.inl after)).ne'
  have month : first.month = second.month := by
    rcases lt_trichotomy first.month second.month with before | equal | after
    · exact absurd same (dayNumber_lt (Or.inr ⟨year, before⟩)).ne
    · exact equal
    · exact absurd same (dayNumber_lt (Or.inr ⟨year.symm, after⟩)).ne'
  have day : first.day = second.day := by
    rw [dayNumber, dayNumber, year, month] at same
    omega
  cases first
  cases second
  cases year
  cases month
  cases day
  rfl

/-- The order of time. -/
instance : LinearOrder CivilDate := LinearOrder.lift' dayNumber dayNumber_injective

theorem le_def {first second : CivilDate} :
    first ≤ second ↔ first.dayNumber ≤ second.dayNumber := Iff.rfl

theorem lt_def {first second : CivilDate} :
    first < second ↔ first.dayNumber < second.dayNumber := Iff.rfl

theorem le_year_iff {year : ℤ} {date : CivilDate} :
    year ≤ date.year ↔ daysBeforeYear year < date.dayNumber := by
  have bounds := dayNumber_bounds_year date
  constructor
  · intro after
    have := daysBeforeYear_mono after
    omega
  · intro above
    by_contra before
    have := daysBeforeYear_mono (show date.year + 1 ≤ year by omega)
    omega

theorem year_le_iff {year : ℤ} {date : CivilDate} :
    date.year ≤ year ↔ date.dayNumber ≤ daysBeforeYear (year + 1) := by
  rw [← not_lt, ← not_lt, ← le_year_iff]
  rfl

theorem year_mono {first second : CivilDate} (order : first ≤ second) :
    first.year ≤ second.year :=
  year_le_iff.mpr ((le_def.mp order).trans (year_le_iff.mp (le_refl second.year)))

theorem lt_firstOf_iff {year : ℤ} {month : ℕ} {valid : 1 ≤ month ∧ month ≤ 12}
    {date : CivilDate} : date < firstOf year month valid ↔
      date.year < year ∨ date.year = year ∧ date.month < month := by
  refine ⟨fun before => ?_, fun earlier => dayNumber_lt earlier⟩
  by_contra later
  have first : (firstOf year month valid).dayNumber ≤ date.dayNumber := by
    rcases lt_trichotomy year date.year with after | rfl | earlier
    · exact (dayNumber_lt (Or.inl after)).le
    · have months : month ≤ date.month := by omega
      have days := date.dayValid
      have sums := daysBeforeMonth_mono date.year months
      simp only [dayNumber, firstOf]
      omega
    · exact absurd (Or.inl earlier) later
  exact absurd before (not_lt.mpr first)

end CivilDate

/-! ## Divisions of time -/

/-- Time, divided into blocks; `start` and `stop` give the bounds of the block of a date. -/
structure Division {α : Type} [LinearOrder α] (start stop : α → α) : Prop where
  contains : ∀ date, start date ≤ date ∧ date ≤ stop date
  whole : ∀ date other, start date ≤ other → other ≤ stop date →
    start other = start date ∧ stop other = stop date

namespace Division

variable {α : Type} [LinearOrder α] {start stop : α → α}

/-- Every date is a block. -/
theorem days : Division (id : α → α) id :=
  ⟨fun _ => ⟨le_refl _, le_refl _⟩, fun _ _ after before => by
    rw [id, id, le_antisymm before after]
    exact ⟨rfl, rfl⟩⟩

/-- Two blocks are one, or one is before the other. -/
theorem disjoint (division : Division start stop) (first second : α) :
    (start first = start second ∧ stop first = stop second) ∨
      stop first < start second ∨ stop second < start first := by
  rcases lt_or_ge (stop first) (start second) with before | meets
  · exact Or.inr (Or.inl before)
  rcases lt_or_ge (stop second) (start first) with after | meets'
  · exact Or.inr (Or.inr after)
  refine Or.inl ?_
  -- the later of the two first dates is in both blocks
  obtain ⟨one, two⟩ := division.contains first
  obtain ⟨one', two'⟩ := division.contains second
  rcases le_total (start first) (start second) with order | order
  · obtain ⟨here, there⟩ := division.whole first (start second) order meets
    obtain ⟨own, own'⟩ := division.whole second (start second) le_rfl (one'.trans two')
    exact ⟨here.symm.trans own, there.symm.trans own'⟩
  · obtain ⟨here, there⟩ := division.whole second (start first) order meets'
    obtain ⟨own, own'⟩ := division.whole first (start first) le_rfl (one.trans two)
    exact ⟨own.symm.trans here, own'.symm.trans there⟩

/-- The date after a block begins one. -/
theorem adjacent (division : Division start stop) {date following : α}
    (after : stop date < following) (next : ∀ other < following, other ≤ stop date) :
    start following = following := by
  obtain ⟨one, two⟩ := division.contains following
  rcases division.disjoint date following with ⟨_, same⟩ | before | later
  · exact absurd (two.trans same.symm.le) (not_le.mpr after)
  · rcases one.lt_or_eq with earlier | equal
    · exact absurd (next _ earlier) (not_le.mpr before)
    · exact equal
  · obtain ⟨one', two'⟩ := division.contains date
    exact absurd (after.trans_le two) (not_lt.mpr (later.le.trans (one'.trans two')))

end Division

namespace CivilDate

/-! ### Months -/

/-- The first date of the month of a date. -/
def monthStart (date : CivilDate) : CivilDate := firstOf date.year date.month date.monthValid

/-- The last date of the month of a date. -/
def monthEnd (date : CivilDate) : CivilDate := lastOf date.year date.month date.monthValid

/-- After a month comes the first of the next one. -/
theorem next_monthEnd (date : CivilDate) : date.monthEnd.next =
    if later : date.month < 12 then
      firstOf date.year (date.month + 1) ⟨Nat.le_add_left 1 _, later⟩
    else firstOf (date.year + 1) 1 january := by
  have last : ¬ date.monthEnd.day < daysInMonth date.monthEnd.year date.monthEnd.month :=
    lt_irrefl _
  rw [next, dif_neg last]
  rfl

theorem prev_next (date : CivilDate) : date.next.prev = date :=
  dayNumber_injective (by rw [dayNumber_prev, dayNumber_next, add_sub_cancel_right])

/-- **The months** divide time. -/
theorem months_division : Division monthStart monthEnd := by
  refine ⟨fun date => ?_, fun date other after before => ?_⟩
  · have days := date.dayValid
    simp only [le_def, dayNumber, monthStart, monthEnd, firstOf, lastOf]
    omega
  · have notEarlier : ¬ (other.year < date.year ∨
        other.year = date.year ∧ other.month < date.month) :=
      fun earlier => not_lt.mpr after (lt_firstOf_iff.mpr earlier)
    have notLater : ¬ (date.year < other.year ∨
        date.year = other.year ∧ date.month < other.month) :=
      fun later => not_lt.mpr before (dayNumber_lt later)
    have year : other.year = date.year := by omega
    have month : other.month = date.month := by omega
    simp only [monthStart, monthEnd, firstOf, lastOf, year, month, and_self]

/-! ### Weeks -/

/-- The days since Monday. -/
def weekday (date : CivilDate) : ℕ := ((date.dayNumber - 1) % 7).toNat

theorem weekday_eq (date : CivilDate) : (date.weekday : ℤ) = (date.dayNumber - 1) % 7 := by
  rw [weekday]
  omega

/-- The Monday of the week of a date. -/
def monday (date : CivilDate) : CivilDate := prev^[date.weekday] date

/-- The Sunday of the week of a date. -/
def sunday (date : CivilDate) : CivilDate := next^[6] date.monday

theorem dayNumber_monday (date : CivilDate) :
    date.monday.dayNumber = date.dayNumber - (date.dayNumber - 1) % 7 := by
  rw [monday, dayNumber_prev_iterate, weekday_eq]

theorem dayNumber_sunday (date : CivilDate) :
    date.sunday.dayNumber = date.monday.dayNumber + 6 := by
  rw [sunday, dayNumber_next_iterate]
  rfl

theorem weekday_monday (date : CivilDate) : date.monday.weekday = 0 := by
  have monday := dayNumber_monday date
  have weekday := weekday_eq date.monday
  omega

theorem weekday_sunday (date : CivilDate) : date.sunday.weekday = 6 := by
  have monday := dayNumber_monday date
  have sunday := dayNumber_sunday date
  have weekday := weekday_eq date.sunday
  omega

/-- **The weeks** divide time. -/
theorem weeks_division : Division monday sunday := by
  refine ⟨fun date => ?_, fun date other after before => ?_⟩
  · have monday := dayNumber_monday date
    have sunday := dayNumber_sunday date
    rw [le_def, le_def]
    omega
  · have one := dayNumber_monday date
    have two := dayNumber_monday other
    have sunday := dayNumber_sunday date
    rw [le_def] at after before
    have same : other.monday = date.monday := by
      refine dayNumber_injective ?_
      omega
    exact ⟨same, by rw [CivilDate.sunday, same, CivilDate.sunday]⟩

end CivilDate

end ProtocolExplorer.Lib
