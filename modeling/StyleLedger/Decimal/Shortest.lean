/-!
Decimal numerals, the binary floating-point number nearest to one, and the shortest numeral that
reads back as the same number.

All of it is exact arithmetic on naturals. A finite number of the 64-bit format is `m · 2 ^ q` with
`m < 2 ^ 53` and `-1074 ≤ q ≤ 971`.

* `Decimal.nearest` — rounding to the format, a half going to the even neighbour.
* `Binary.shortest` — the fewest digits that read back; of several, those nearest to the number.
* `Binary.text` — positional between `1e-4` and `1e16`, with a power of ten outside.
-/

namespace StyleLedger

/-- The numeral `± digits · 10 ^ exponent`. -/
structure Decimal where
  negative : Bool
  digits : Nat
  exponent : Int
deriving Repr, DecidableEq, Inhabited

/-- A number of the 64-bit binary format. -/
inductive Binary
  | finite (negative : Bool) (m : Nat) (q : Int)
  | infinite (negative : Bool)
  | nan
deriving Repr, DecidableEq, Inhabited

/-- A quotient rounded to the nearest natural, a half to the even one. -/
def roundHalfEven (num den : Nat) : Nat :=
  let q := num / den
  let twice := 2 * (num % den)
  if twice < den then q
  else if den < twice then q + 1
  else if q % 2 = 0 then q else q + 1

/-- The fraction `num / den · base ^ e` as a numerator and a denominator. -/
def scaled (base num den : Nat) (e : Int) : Nat × Nat :=
  match e with
  | .ofNat n => (num * base.pow n, den)
  | .negSucc n => (num, den * base.pow (n + 1))

/-- The largest `e` with `2 ^ e ≤ num / den`, for positive `num` and `den`. -/
def binaryMagnitude (num den : Nat) : Int :=
  let guess : Int := (Nat.log2 num : Int) - (Nat.log2 den : Int)
  let (n, d) := scaled 2 num den (-guess)
  if n < d then guess - 1 else guess

namespace Binary

/-- The number nearest to a positive fraction. -/
def ofFraction (negative : Bool) (num den : Nat) : Binary :=
  let q := max (binaryMagnitude num den - 52) (-1074)
  let (n, d) := scaled 2 num den (-q)
  let m := roundHalfEven n d
  let (m, q) := if m = Nat.pow 2 53 then (Nat.pow 2 52, q + 1) else (m, q)
  if 971 < q then infinite negative else finite negative m q

/-- Whether a number is zero. -/
def isZero : Binary → Bool
  | finite _ m _ => m == 0
  | _ => false

/-- A finite number as a fraction with a positive denominator. -/
def fraction? : Binary → Option (Int × Nat)
  | finite negative m q =>
    let (n, d) := scaled 2 m 1 q
    some (if negative then -(n : Int) else n, d)
  | _ => none

/-- The integer that a number is equal to. -/
def whole? (x : Binary) : Option Int :=
  match x.fraction? with
  | some (n, d) => if n % d = 0 then some (n / d) else none
  | none => none

/-- The number nearest to the one that is greater by one. -/
def next (x : Binary) : Binary :=
  match x.fraction? with
  | some (n, d) =>
    let sum := n + d
    if sum = 0 then finite false 0 0 else ofFraction (sum < 0) sum.natAbs d
  | none => x

end Binary

/-- The number nearest to a numeral. Numerals beyond `10 ^ 400` or below `10 ^ -400` are decided by
their magnitude alone. -/
def Decimal.nearest (x : Decimal) : Binary :=
  let magnitude : Int := (Nat.toDigits 10 x.digits).length + x.exponent
  if x.digits = 0 || magnitude < -400 then .finite x.negative 0 0
  else if 400 < magnitude then .infinite x.negative
  else
    let (n, d) := scaled 10 x.digits 1 x.exponent
    .ofFraction x.negative n d

namespace Binary

/-! ## The shortest numeral -/

/-- Whether a fraction lies in the interval of reals that round to `m · 2 ^ q`. Its ends belong to
it exactly when `m` is even; below a power of two the interval is half as wide. -/
def readsBack (m : Nat) (q : Int) (num den : Nat) : Bool :=
  let narrow := m = Nat.pow 2 52 && -1074 < q
  -- four times the number, its lower end and its upper end, in units of `2 ^ q`
  let low := if narrow then 4 * m - 1 else 4 * m - 2
  let high := 4 * m + 2
  let (n, d) := scaled 2 num den (-q)
  if m % 2 = 0 then low * d ≤ 4 * n && 4 * n ≤ high * d
  else low * d < 4 * n && 4 * n < high * d

/-- The decimal exponent of the leading digit of a positive fraction, searched downwards from an
upper bound. -/
def leadingExponent (num den : Nat) : Nat → Int → Int
  | 0, e => e
  | fuel + 1, e =>
    let (n, d) := scaled 10 num den (-e)
    if n < d then leadingExponent num den fuel (e - 1) else e

/-- The numeral with a given number of digits that reads back, if there is one; of two the nearer,
of two equally near the even one. -/
def withDigits? (m : Nat) (q lead : Int) (count : Nat) : Option (Nat × Int) :=
  let (num, den) := scaled 2 m 1 q
  let unit := lead - (count - 1 : Int)
  let (n, d) := scaled 10 num den (-unit)
  let candidate (k : Nat) : Option (Nat × Int) :=
    let (a, b) := scaled 10 k 1 unit
    if readsBack m q a b then some (k, unit) else none
  let near := roundHalfEven n d
  let far := if near = n / d then n / d + 1 else n / d
  (candidate near).or (candidate far)

/-- The shortest numeral that reads back as the positive number `m · 2 ^ q`. -/
def shortest (m : Nat) (q : Int) : Nat × Int :=
  let (num, den) := scaled 2 m 1 q
  let lead := leadingExponent num den 700 310
  ((List.range 17).findSome? fun i => withDigits? m q lead (i + 1)).getD (m, q)

/-- The digits of a natural in base ten. -/
def digitsOf (n : Nat) : List Char := Nat.toDigits 10 n

/-- An exponent: its sign and at least two digits. -/
def exponentText (e : Int) : List Char :=
  let ds := digitsOf e.natAbs
  (if e < 0 then '-' else '+') :: (if ds.length < 2 then '0' :: ds else ds)

/-- A positive number in digits. Trailing zeros of the numeral are not significant. -/
def positiveText (m : Nat) (q : Int) : List Char :=
  let (k, unit) := shortest m q
  let all := digitsOf k
  let ds := (all.reverse.dropWhile (· == '0')).reverse
  let point : Int := (all.length : Int) + unit
  if -4 < point && point ≤ 16 then
    if point ≤ 0 then
      "0.".toList ++ List.replicate (-point).toNat '0' ++ ds
    else
      let p := point.toNat
      if ds.length ≤ p then ds ++ List.replicate (p - ds.length) '0' ++ ".0".toList
      else ds.take p ++ '.' :: ds.drop p
  else
    let fraction := ds.drop 1
    ds.take 1 ++ (if fraction.isEmpty then [] else '.' :: fraction) ++
      'e' :: exponentText (point - 1)

/-- A number in digits. -/
def text : Binary → String
  | finite negative m q =>
    let body := if m = 0 then "0.0".toList else positiveText m q
    String.ofList (if negative then '-' :: body else body)
  | infinite negative => if negative then "-inf" else "inf"
  | nan => "nan"

end Binary

end StyleLedger
