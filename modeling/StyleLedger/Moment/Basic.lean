import StyleLedger.Moment.Date

/-!
Moments: a date and a time of day, as files are named after them and logs record them. A clock shows
a moment, or is at fault.
-/

namespace StyleLedger

/-- A moment on the meridian. -/
structure Moment where
  date : Date
  hour : Nat := 0
  minute : Nat := 0
  second : Nat := 0
  microsecond : Nat := 0
deriving Repr, DecidableEq, Inhabited

/-- Why a clock gives no moment on the meridian. -/
inductive ClockFault
  /-- The moment is not in the calendar. -/
  | outOfRange
  /-- A year that is looked at is not in the calendar. -/
  | yearOutOfRange (year : Nat)
deriving Repr, DecidableEq, Inhabited

/-- The wording of a fault. -/
def ClockFault.message : ClockFault → String
  | outOfRange => "date value out of range"
  | yearOutOfRange year => "year " ++ toString year ++ " is out of range"

namespace Moment

/-- A number in digits, padded with zeros to a width. -/
def padded (width n : Nat) : String :=
  let ds := Nat.toDigits 10 n
  String.ofList (List.replicate (width - ds.length) '0' ++ ds)

/-- The digits of a moment down to the second. The year is written without padding. -/
def stamp (t : Moment) : String :=
  String.join (padded 0 t.date.year ::
    [t.date.month, t.date.day, t.hour, t.minute, t.second].map (padded 2))

/-- A moment in words; microseconds are written if there are any. -/
def text (t : Moment) : String :=
  "-".intercalate [padded 4 t.date.year, padded 2 t.date.month, padded 2 t.date.day] ++ "T" ++
    ":".intercalate [padded 2 t.hour, padded 2 t.minute, padded 2 t.second] ++
    (if t.microsecond = 0 then "" else "." ++ padded 6 t.microsecond) ++ "+00:00"

/-- The number of microseconds in a day. -/
def dayLength : Int := 86400 * 1000000

/-- The number of microseconds since midnight. -/
def sinceMidnight (t : Moment) : Int :=
  ((t.hour * 60 + t.minute) * 60 + t.second) * 1000000 + t.microsecond

/-- The moment a number of microseconds after midnight of a date, or before it. -/
def ofMicroseconds (date : Date) (count : Int) : Moment :=
  let rest := (count.fmod dayLength).toNat
  let seconds := rest / 1000000
  { date := date.addDays (count.fdiv dayLength)
    hour := seconds / 3600, minute := seconds / 60 % 60, second := seconds % 60
    microsecond := rest % 1000000 }

/-- The moment a number of microseconds earlier, or later. -/
def earlier (t : Moment) (count : Int) : Moment :=
  ofMicroseconds t.date (t.sinceMidnight - count)

end Moment

end StyleLedger
