/-!
Dates: years, months and days, days counted within a year, and weeks.

* `Date.dayOfYear`, `Date.ofDayOfYear` — a date and the number of days before it in its year.
* `Date.ofWeek?` — the date of a day in a week. The first week of a year holds its first Thursday.
-/

namespace StyleLedger

/-- A date. Months and days are counted from one. -/
structure Date where
  year : Nat
  month : Nat
  day : Nat
deriving Repr, DecidableEq, Inhabited

namespace Date

/-- Whether a year has a leap day. -/
def isLeap (year : Nat) : Bool :=
  year % 4 = 0 && (year % 100 ≠ 0 || year % 400 = 0)

/-- The lengths of the months of a year. -/
def monthLengths (year : Nat) : List Nat :=
  [31, if isLeap year then 29 else 28, 31, 30, 31, 30, 31, 31, 30, 31, 30, 31]

/-- The number of days in some months. -/
def total (lengths : List Nat) : Nat :=
  lengths.foldl Nat.add 0

/-- The length of a year. -/
def yearLength (year : Nat) : Nat :=
  total (monthLengths year)

/-- Whether a date is in the calendar; years have up to four digits. -/
def isValid (d : Date) : Bool :=
  1 ≤ d.year && d.year ≤ 9999 && 1 ≤ d.month && 1 ≤ d.day &&
    d.day ≤ ((monthLengths d.year)[d.month - 1]?).getD 0

/-- The number of days before a date in its year. -/
def dayOfYear (d : Date) : Nat :=
  total ((monthLengths d.year).take (d.month - 1)) + (d.day - 1)

/-- The month and the day of the month after a number of days, from the start of a month on, when
the lengths of that month and those that follow are given. -/
def inMonths (month days : Nat) : List Nat → Nat × Nat
  | [] => (month, days + 1)
  | n :: ns => if days < n then (month, days + 1) else inMonths (month + 1) (days - n) ns

/-- The date after a number of days of a year. -/
def inYear (year days : Nat) : Date :=
  let (month, day) := inMonths 1 days (monthLengths year)
  { year, month, day }

/-- The date a number of days after the first day of a year, or before it; the years on both sides
are reached. -/
def ofDayOfYear (year : Nat) (days : Int) : Date :=
  if days < 0 then inYear (year - 1) (days + yearLength (year - 1)).toNat
  else if days < yearLength year then inYear year days.toNat
  else inYear (year + 1) (days - yearLength year).toNat

/-- The date a number of days after another, or before it. -/
def addDays (d : Date) (days : Int) : Date :=
  ofDayOfYear d.year (d.dayOfYear + days)

/-! ## Weeks -/

/-- The number of days before a year. -/
def daysBefore (year : Nat) : Nat :=
  let n := year - 1
  365 * n + n / 4 - n / 100 + n / 400

/-- The day of the week on which a year begins; Monday is zero. -/
def firstWeekday (year : Nat) : Nat :=
  daysBefore year % 7

/-- The number of weeks of a year. -/
def weekCount (year : Nat) : Nat :=
  if firstWeekday year = 3 || (firstWeekday year = 2 && isLeap year) then 53 else 52

/-- The date of a day in a week of a year, all counted from one. -/
def ofWeek? (year week day : Nat) : Option Date :=
  let weekday : Int := firstWeekday year
  let monday := if 3 < weekday then 7 - weekday else -weekday
  if 1 ≤ week && week ≤ weekCount year && 1 ≤ day && day ≤ 7 then
    some (ofDayOfYear year (monday + 7 * (week - 1) + (day - 1)))
  else none

end Date

end StyleLedger
