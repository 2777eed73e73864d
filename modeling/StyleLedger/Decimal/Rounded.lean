import StyleLedger.Decimal.Wide

/-!
Binary numbers in a fixed number of significant digits, trailing zeros left out.

The digits are cut off a number whose decimal point was moved behind the last of them and more
(`Wide.spread`); a half goes up.

The form is positional while the exponent of the leading digit is at least -4 and smaller than the
number of digits; otherwise a power of ten follows. There is always a digit behind the point.
-/

namespace StyleLedger.Binary

/-- The numeral with a number of significant digits, up to seventeen, for a positive number: its
digits as a natural, and the exponent of the leading one. -/
def significant (count m : Nat) (q : Int) : Nat × Int :=
  let (x, e) := Wide.spread ⟨m, q⟩
  let length := (digitsOf x.whole).length
  let k := (x.whole / Nat.pow 10 (length - count - 1) + 5) / 10
  let lead := e + length - 1
  if k = Nat.pow 10 count then (Nat.pow 10 (count - 1), lead + 1) else (k, lead)

/-- Digits with a point behind the first few of them, and at least one digit behind the point. -/
def withPoint (whole : Nat) (ds : List Char) : List Char :=
  let front := ds.take whole ++ List.replicate (whole - ds.length) '0'
  let fraction := ds.drop whole
  front ++ '.' :: (if fraction.isEmpty then ['0'] else fraction)

/-- A positive number in a number of significant digits. -/
def positiveRounded (count m : Nat) (q : Int) : List Char :=
  let (k, lead) := significant count m q
  let ds := ((digitsOf k).reverse.dropWhile (· == '0')).reverse
  if lead < -4 || (count : Int) ≤ lead then withPoint 1 ds ++ 'e' :: exponentText lead
  else if lead < 0 then "0.".toList ++ List.replicate (-lead - 1).toNat '0' ++ ds
  else withPoint (lead + 1).toNat ds

/-- A number in a number of significant digits. Zero has no sign. -/
def rounded (count : Nat) : Binary → String
  | finite negative m q =>
    if m = 0 then "0.0"
    else
      let body := positiveRounded count m q
      String.ofList (if negative then '-' :: body else body)
  | infinite negative => if negative then "-Inf" else "Inf"
  | nan => ""

end StyleLedger.Binary
