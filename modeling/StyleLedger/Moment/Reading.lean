import StyleLedger.Moment.Basic
import StyleLedger.Text.Category

/-!
Reading moments.

A moment is written as a date, any one character, and a time of day. The date is given by year,
month and day, or by year, week and day of the week, with or without hyphens. The time stops after
any of its parts; its parts are divided by colons or not at all, and seconds may have a fraction, of
which six digits count. An offset from the meridian may follow, or the letter `Z`.

* `LocalMoment.ofText?` — the moment that a text stands for, as its place has it.
* `LocalMoment.onMeridian` — the same moment on the meridian, if it is in the calendar.
-/

namespace StyleLedger

/-- A moment as a place has it, and how many microseconds the place is ahead of the meridian, if
that is said. -/
structure LocalMoment where
  moment : Moment
  ahead : Option Int := none
deriving Repr, DecidableEq, Inhabited

namespace LocalMoment

open Text (isAsciiDigit)

/-- The number that exactly `count` digits at the front of a text stand for, and the rest. -/
def digits? (count : Nat) (cs : List Char) : Option (Nat × List Char) :=
  let ds := cs.take count
  if ds.length = count && ds.all isAsciiDigit then
    some (ds.foldl (fun n c => 10 * n + (c.toNat - '0'.toNat)) 0, cs.drop count)
  else none

/-- The text after a character that must be there if `needed`. -/
def after? (needed : Bool) (c : Char) (cs : List Char) : Option (List Char) :=
  if !needed then some cs
  else
    match cs with
    | d :: rest => if d = c then some rest else none
    | [] => none

/-! ## Dates -/

/-- The length of the date at the front of a text. Hyphens and the letter `W` in the fifth and the
sixth place tell the forms apart. -/
def dateLength? (cs : List Char) : Option Nat :=
  let at? (i : Nat) : Option Char := cs[i]?
  let count := cs.length
  if count < 7 then none
  else if count = 7 then some 7
  else if at? 4 = some '-' then
    if at? 5 ≠ some 'W' then some 10
    else if at? 8 ≠ some '-' then some 8
    else if count = 9 then none
    else if (at? 10).any isAsciiDigit then some 8
    else some 10
  else if at? 4 = some 'W' then
    let length := 7 + ((cs.drop 7).takeWhile isAsciiDigit).length
    some (if length < 9 then length else if length % 2 = 0 then 7 else 8)
  else some 8

/-- The date that a week of a year and what follows it stand for; the first day of the week if
nothing follows. -/
def weekDate? (hyphens : Bool) (year : Nat) (cs : List Char) : Option Date := do
  let (week, rest) ← digits? 2 cs
  if rest.isEmpty then Date.ofWeek? year week 1
  else
    let (day, _) ← digits? 1 (← after? hyphens '-' rest)
    Date.ofWeek? year week day

/-- The date that a month and a day of a year stand for. -/
def monthDate? (hyphens : Bool) (year : Nat) (cs : List Char) : Option Date := do
  let (month, rest) ← digits? 2 cs
  let (day, _) ← digits? 2 (← after? hyphens '-' rest)
  return { year, month, day }

/-- The date that a text stands for. -/
def date? (cs : List Char) : Option Date := do
  let (year, rest) ← digits? 4 cs
  let hyphens := rest.head? = some '-'
  let rest := if hyphens then rest.drop 1 else rest
  match rest with
  | 'W' :: week => weekDate? hyphens year week
  | _ => monthDate? hyphens year rest

/-! ## Times of day -/

/-- A time of day: its parts, its microseconds, and whether all of its text was needed. -/
structure Clock where
  parts : List Nat
  microsecond : Nat := 0
  complete : Bool := true
deriving Repr, DecidableEq, Inhabited

/-- A part of a time of day; parts left out are zero. -/
def Clock.part (c : Clock) (i : Nat) : Nat := (c.parts[i]?).getD 0

/-- The microseconds that a fraction stands for, and whether all of its text was needed. -/
def fraction? (cs : List Char) : Option (Nat × Bool) := do
  let count := min 6 cs.length
  let (n, rest) ← digits? count cs
  return (n * Nat.pow 10 (6 - count), (rest.dropWhile isAsciiDigit).isEmpty)

/-- The time of day with a fraction after some parts. -/
def withFraction? (parts : List Nat) (cs : List Char) : Option Clock := do
  let (microsecond, complete) ← fraction? cs
  return { parts, microsecond, complete }

/-- Reads up to `left` more parts after some parts; `colons` tells whether colons divide them, as
soon as that is known. -/
def clockFrom? (parts : List Nat) (colons : Option Bool) : Nat → List Char → Option Clock
  | 0, cs => withFraction? parts cs
  | left + 1, cs => do
    let (n, rest) ← digits? 2 cs
    let parts := parts ++ [n]
    match rest with
    | [] => return { parts }
    | [_] => return { parts, complete := false }
    | c :: tail =>
      let divided := colons.getD (c = ':')
      if divided && c = ':' then clockFrom? parts (some divided) left tail
      else if c = '.' || c = ',' then withFraction? parts tail
      else if divided then none
      else clockFrom? parts (some divided) left rest

/-- The time of day that a text stands for. -/
def clock? (cs : List Char) : Option Clock :=
  clockFrom? [] none 3 cs

/-- The microseconds since midnight at a time of day. -/
def Clock.microseconds (c : Clock) : Int :=
  ((c.part 0 * 60 + c.part 1) * 60 + c.part 2) * 1000000 + c.microsecond

/-- The offset that a text stands for, in microseconds. It is less than a day, and less than a
second is none. -/
def offset? : List Char → Option Int
  | ['Z'] => some 0
  | '+' :: cs => signed 1 cs
  | '-' :: cs => signed (-1) cs
  | _ => none
where
  /-- An offset after its sign. -/
  signed (sign : Int) (cs : List Char) : Option Int := do
    let c ← clock? cs
    let count := if c.microseconds < 1000000 then 0 else c.microseconds
    if c.complete && count < Moment.dayLength then some (sign * count) else none

/-! ## Moments -/

/-- The moment of a date and a time of day, if there is one. -/
def moment? (date : Date) (c : Clock) : Option Moment :=
  if date.isValid && c.part 0 < 24 && c.part 1 < 60 && c.part 2 < 60 then
    some { date, hour := c.part 0, minute := c.part 1, second := c.part 2
           microsecond := c.microsecond }
  else none

/-- The moment of a date and the text of a time of day with its offset. -/
def ofParts? (date : Date) (cs : List Char) : Option LocalMoment := do
  let isZone (c : Char) : Bool := c = '+' || c = '-' || c = 'Z'
  let c ← clock? (cs.takeWhile (!isZone ·))
  let moment ← moment? date c
  match cs.dropWhile (!isZone ·) with
  | [] => if c.complete then some { moment } else none
  | zone => return { moment, ahead := some (← offset? zone) }

/-- The moment that a text stands for. Without a time of day it is midnight. -/
def ofText? (s : String) : Option LocalMoment := do
  let cs := s.toList
  let length ← dateLength? cs
  let date ← date? (cs.take length)
  match cs.drop length with
  | [] => return { moment := ← moment? date { parts := [] } }
  | _ :: time => ofParts? date time

/-- The same moment on the meridian. A place that is not said is on it; there the day before is
looked at too, and has to be in the calendar. -/
def onMeridian (t : LocalMoment) : Except ClockFault Moment :=
  match t.ahead with
  | some count =>
    let moment := t.moment.earlier count
    if moment.date.isValid then .ok moment else .error .outOfRange
  | none =>
    let dayBefore := t.moment.date.addDays (-1)
    if dayBefore.isValid then .ok t.moment else .error (.yearOutOfRange dayBefore.year)

end LocalMoment

end StyleLedger
