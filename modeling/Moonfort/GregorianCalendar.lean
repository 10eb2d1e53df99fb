import Mathlib

/-!
# The Gregorian calendar

Dates and times of day in the calendar with its leap years, and the instant that they name, as
the number of milliseconds behind the first day of the year 0. Valid times are in the order of
their instants exactly when their components are, compared from the year on.
-/

namespace GregorianCalendar

/-- A year with a 29th of February. -/
def isLeapYear (year : ℕ) : Bool := year % 4 == 0 && (year % 100 != 0 || year % 400 == 0)

/-- The number of days of a month, counted from 1. -/
def daysInMonth (year month : ℕ) : ℕ :=
  if month = 2 then (if isLeapYear year then 29 else 28)
  else if month ∈ [4, 6, 9, 11] then 30
  else 31

/-- The number of days of a year in front of a month. -/
def daysBeforeMonth (year month : ℕ) : ℕ :=
  ((List.range (month - 1)).map fun k => daysInMonth year (k + 1)).sum

/-- The number of days of a year. -/
def daysInYear (year : ℕ) : ℕ := daysBeforeMonth year 13

/-- The number of days in front of a year. -/
def daysBeforeYear (year : ℕ) : ℕ := ((List.range year).map daysInYear).sum

/-- A date with a time of day. -/
structure CalendarTime where
  year : ℕ
  month : ℕ
  day : ℕ
  hour : ℕ
  minute : ℕ
  second : ℕ
  millisecond : ℕ
  deriving DecidableEq

namespace CalendarTime

/-- The date and the time of day exist. -/
structure Valid (t : CalendarTime) : Prop where
  month_pos : 1 ≤ t.month
  month_le : t.month ≤ 12
  day_pos : 1 ≤ t.day
  day_le : t.day ≤ daysInMonth t.year t.month
  hour_le : t.hour ≤ 23
  minute_le : t.minute ≤ 59
  second_le : t.second ≤ 59
  millisecond_le : t.millisecond ≤ 999

/-- The number of days in front of a date. -/
def dayNumber (t : CalendarTime) : ℕ :=
  daysBeforeYear t.year + daysBeforeMonth t.year t.month + (t.day - 1)

/-- The instant, in milliseconds. -/
def instant (t : CalendarTime) : ℕ :=
  (((t.dayNumber * 24 + t.hour) * 60 + t.minute) * 60 + t.second) * 1000 + t.millisecond

/-- The components, the largest one first. -/
def components (t : CalendarTime) : List ℕ :=
  [t.year, t.month, t.day, t.hour, t.minute, t.second, t.millisecond]

end CalendarTime

/-! ## Days -/

/-- The days before the next month. -/
theorem daysBeforeMonth_succ (year : ℕ) {month : ℕ} (h : 1 ≤ month) :
    daysBeforeMonth year (month + 1) = daysBeforeMonth year month + daysInMonth year month := by
  obtain ⟨k, rfl⟩ : ∃ k, month = k + 1 := ⟨month - 1, by omega⟩
  rw [daysBeforeMonth, daysBeforeMonth, Nat.add_sub_cancel, Nat.add_sub_cancel, List.range_succ,
    List.map_append, List.sum_append, List.map_singleton, List.sum_singleton]

/-- The days before a month grow with it. -/
theorem daysBeforeMonth_le (year : ℕ) {month later : ℕ} (hpos : 1 ≤ month) (h : month ≤ later) :
    daysBeforeMonth year month ≤ daysBeforeMonth year later := by
  induction later, h using Nat.le_induction with
  | base => exact le_rfl
  | succ later hle ih =>
    rw [daysBeforeMonth_succ year (by omega)]
    omega

/-- The days before the next year. -/
theorem daysBeforeYear_succ (year : ℕ) :
    daysBeforeYear (year + 1) = daysBeforeYear year + daysInYear year := by
  rw [daysBeforeYear, daysBeforeYear, List.range_succ, List.map_append, List.sum_append,
    List.map_singleton, List.sum_singleton]

/-- The days before a year grow with it. -/
theorem daysBeforeYear_le {year later : ℕ} (h : year ≤ later) :
    daysBeforeYear year ≤ daysBeforeYear later := by
  induction later, h using Nat.le_induction with
  | base => exact le_rfl
  | succ later _ ih =>
    rw [daysBeforeYear_succ]
    omega

namespace CalendarTime

variable {t u : CalendarTime}

/-- A date is in front of the next month. -/
theorem Valid.dayNumber_lt_month (h : t.Valid) :
    t.dayNumber < daysBeforeYear t.year + daysBeforeMonth t.year (t.month + 1) := by
  have hpos := h.day_pos
  have hle := h.day_le
  rw [dayNumber, daysBeforeMonth_succ _ h.month_pos]
  omega

/-- A date is in front of the next year. -/
theorem Valid.dayNumber_lt_year (h : t.Valid) : t.dayNumber < daysBeforeYear (t.year + 1) := by
  have hmonth := h.month_le
  have hlt := h.dayNumber_lt_month
  have hle : daysBeforeMonth t.year (t.month + 1) ≤ daysBeforeMonth t.year 13 :=
    daysBeforeMonth_le t.year (by omega) (by omega)
  rw [daysBeforeYear_succ, daysInYear]
  omega

/-- Dates are in the order of their components. -/
theorem Valid.dayNumber_lt (ht : t.Valid)
    (h : t.year < u.year ∨ t.year = u.year ∧
      (t.month < u.month ∨ t.month = u.month ∧ t.day < u.day)) :
    t.dayNumber < u.dayNumber := by
  have hday := ht.day_pos
  rcases h with hyear | ⟨hyear, hmonth | ⟨hmonth, hlt⟩⟩
  · have hlt := ht.dayNumber_lt_year
    have hle : daysBeforeYear (t.year + 1) ≤ daysBeforeYear u.year := daysBeforeYear_le hyear
    rw [dayNumber.eq_def u]
    omega
  · have hlt := ht.dayNumber_lt_month
    have hle : daysBeforeMonth t.year (t.month + 1) ≤ daysBeforeMonth t.year u.month :=
      daysBeforeMonth_le t.year (by omega) hmonth
    rw [dayNumber.eq_def u, ← hyear]
    omega
  · rw [dayNumber, dayNumber, hyear, hmonth]
    omega

/-- Components are compared from the year downwards. -/
theorem components_lt_iff : t.components < u.components ↔
    t.year < u.year ∨ t.year = u.year ∧ (t.month < u.month ∨ t.month = u.month ∧
      (t.day < u.day ∨ t.day = u.day ∧ (t.hour < u.hour ∨ t.hour = u.hour ∧
        (t.minute < u.minute ∨ t.minute = u.minute ∧ (t.second < u.second ∨ t.second = u.second ∧
          t.millisecond < u.millisecond))))) := by
  simp [components, List.cons_lt_cons_iff]

/-- Times with smaller components are earlier. -/
theorem Valid.instant_lt (ht : t.Valid) (h : t.components < u.components) :
    t.instant < u.instant := by
  have hhour := ht.hour_le
  have hminute := ht.minute_le
  have hsecond := ht.second_le
  have hmillisecond := ht.millisecond_le
  rw [components_lt_iff] at h
  by_cases hdate : t.year < u.year ∨ t.year = u.year ∧
      (t.month < u.month ∨ t.month = u.month ∧ t.day < u.day)
  · have hlt := ht.dayNumber_lt hdate
    rw [instant, instant]
    omega
  · have hsame : t.dayNumber = u.dayNumber := by
      have heq : t.year = u.year ∧ t.month = u.month ∧ t.day = u.day := by omega
      rw [dayNumber, dayNumber, heq.1, heq.2.1, heq.2.2]
    rw [instant, instant, hsame]
    omega

/-- The components determine a time. -/
theorem eq_of_components (h : t.components = u.components) : t = u := by
  cases t
  cases u
  simpa [components] using h

/-- Valid times are in the order of their instants exactly when their components are. -/
theorem Valid.instant_lt_iff (ht : t.Valid) (hu : u.Valid) :
    t.instant < u.instant ↔ t.components < u.components := by
  refine ⟨fun h => ?_, ht.instant_lt⟩
  rcases lt_trichotomy t.components u.components with hlt | heq | hlt
  · exact hlt
  · rw [eq_of_components heq] at h
    exact absurd h (lt_irrefl _)
  · exact absurd (hu.instant_lt hlt) h.asymm

end CalendarTime

end GregorianCalendar
