import StyleLedger.Decimal.Rounded
import StyleLedger.Json.Decode
import StyleLedger.Store.Schema
import StyleLedger.Text.Blank

/-!
Cells: which values the store can hold, and what a column makes of them.

* `Json.unstorable?` — why a value cannot be held at all.
* `Affinity.store` — the value that a column holds when it is given one.
-/

namespace StyleLedger

/-- Why a value cannot be held. -/
inductive Unstorable
  /-- A value with parts; the word for it. -/
  | parts (kind : String)
  /-- An integer beyond 64 bits. -/
  | tooLarge
deriving Repr, DecidableEq, Inhabited

/-- Whether an integer fits into 64 bits. -/
def fitsWord (n : Int) : Bool :=
  -9223372036854775808 ≤ n && n ≤ 9223372036854775807

/-- Why a value cannot be held, if it cannot. -/
def Json.unstorable? : Json → Option Unstorable
  | array _ => some (.parts "list")
  | object _ => some (.parts "dict")
  | number (.integer n) => if fitsWord n then none else some .tooLarge
  | _ => none

namespace Affinity

/-! ## Texts -/

/-- A value as a text. Truth values count as the numbers one and zero, and what is not a number is
absent. -/
def asText : Json → Json
  | .bool b => .text (if b then "1" else "0")
  | .number (.integer n) => .text (toString n)
  | .number (.real .nan) => .null
  | .number (.real x) => .text (x.rounded 15)
  | v => v

/-! ## Whole numbers -/

/-- The blanks that may stand around a number. -/
def isPadding (c : Char) : Bool :=
  c == ' ' || (9 ≤ c.toNat && c.toNat ≤ 13)

/-- A significand from which on no further digit is taken in, as it might not fit into 64 bits. -/
def fullSignificand : Nat := (Nat.pow 2 64 - 10) / 10

/-- The significand that digits before and behind a point make up, and the power of ten that goes
with it. Digits that are not taken in count as zeros. -/
def significand (front fraction : List Char) : Nat × Int :=
  let digit (c : Char) : Nat := c.toNat - '0'.toNat
  let r := front.foldl (fun (s, e) c =>
    if s < fullSignificand then (10 * s + digit c, e) else (s, e + 1)) ((0 : Nat), (0 : Int))
  fraction.foldl (fun (s, e) c =>
    if s < fullSignificand then (10 * s + digit c, e - 1) else (s, e)) r

/-- Takes zeros into a significand, or out of it, as long as the power of ten asks for it. -/
def balance : (fuel : Nat) → Nat × Int → Nat × Int
  | 0, r => r
  | fuel + 1, (s, e) =>
    if 0 < e && s < Nat.pow 2 64 / 10 then balance fuel (10 * s, e - 1)
    else if e < 0 && s % 10 = 0 then balance fuel (s / 10, e + 1)
    else (s, e)

/-- A power of ten; one with more than five digits counts as ten thousand. -/
def limitPower (power : Int) : Int :=
  if power.natAbs < 100000 then power else power.sign * 10000

/-- The number that digits before and behind a point and a power of ten stand for. -/
def realOf (negative : Bool) (front fraction : List Char) (power : Int) : Binary :=
  let (s, e) := significand front fraction
  if s = 0 then .finite negative 0 0
  else
    let (s, e) := balance 20 (s, limitPower power + e)
    (Wide.shift ⟨s, 0⟩ e).nearest negative

/-- A number without blanks and without its sign: digits with at most one point, of which at least
one is there, and a power of ten. -/
def readNumber? (negative : Bool) (cs : List Char) : Option Numeral :=
  let (front, rest) := Json.takeDigits cs
  let (fraction, rest, hasPoint) := match rest with
    | '.' :: rest => ((Json.takeDigits rest).1, (Json.takeDigits rest).2, true)
    | rest => ([], rest, false)
  let (power, rest) := Json.readPower rest
  if (front.isEmpty && fraction.isEmpty) || !rest.isEmpty then none
  else
    let n : Int := Json.digitsValue front
    let n := if negative then -n else n
    if !hasPoint && power.isNone && fitsWord n then some (.integer n)
    else some (.real (realOf negative front fraction (power.getD 0)))

/-- The number that a text is. -/
def numberOf? (s : String) : Option Numeral :=
  match Text.dropEndWhile isPadding (s.toList.dropWhile isPadding) with
  | '-' :: cs => readNumber? true cs
  | '+' :: cs => readNumber? false cs
  | cs => readNumber? false cs

/-- A number that is whole and lies strictly between the bounds of 64 bits, as an integer. -/
def wholeNumber (n : Numeral) : Numeral :=
  match n.whole? with
  | some k =>
    if -9223372036854775808 < k && k < 9223372036854775807 then .integer k else n
  | none => n

/-- A value as a number, whole if it can be; what is not a number stays as it is. -/
def asWhole : Json → Json
  | .bool b => .int (if b then 1 else 0)
  | .number (.real .nan) => .null
  | .number (.integer n) => .int n
  | .number n => .number (wholeNumber n)
  | .text s =>
    match numberOf? s with
    | some n => .number (wholeNumber n)
    | none => .text s
  | v => v

/-- The value that a column holds when it is given one. -/
def store : Affinity → Json → Json
  | text, v => asText v
  | whole, v => asWhole v
  | flag, v =>
    match asWhole v with
    | .null => .null
    | v => .bool v.isTrue

end Affinity

end StyleLedger
