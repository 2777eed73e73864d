import StyleLedger.Decimal.Shortest

/-!
Positive numbers with 64 significant bits, and the place of their decimal point.

The point is moved by multiplying with powers of ten, a hundred, ten or one place at a time, and
every product is rounded, a half going to the even neighbour. A number whose point was moved is
therefore near the exact one, but not always the nearest of its kind.

* `Wide.mul` — the rounded product.
* `Wide.shift` — moves the point by some places.
* `Wide.spread` — moves the point until eighteen or nineteen digits stand before it.
* `Wide.nearest` — rounds to the 64-bit format.
-/

namespace StyleLedger

/-- The number `m · 2 ^ q`. -/
structure Wide where
  m : Nat
  q : Int
deriving Repr, DecidableEq, Inhabited

namespace Wide

/-- The number nearest to a product. -/
def mul (a b : Wide) : Wide :=
  let n := a.m * b.m
  let extra := n.log2 - 63
  ⟨roundHalfEven n (Nat.pow 2 extra), a.q + b.q + extra⟩

/-- The number nearest to a power of ten. -/
def tenPower (e : Int) : Wide :=
  let (num, den) := scaled 10 1 1 e
  let q := binaryMagnitude num den - 63
  let (n, d) := scaled 2 num den (-q)
  ⟨roundHalfEven n d, q⟩

/-- Whether a number is not greater than another. -/
def le (a b : Wide) : Bool :=
  let (n, d) := scaled 2 a.m 1 (a.q - b.q)
  n ≤ b.m * d

/-- The number without its fraction. -/
def whole (x : Wide) : Nat :=
  let (n, d) := scaled 2 x.m 1 x.q
  n / d

/-! ## Moving the point -/

/-- Moves the point to the right, or to the left by a negative number of places. -/
def shift (x : Wide) (places : Int) : Wide :=
  let n := places.natAbs
  let steps := List.replicate (n / 100) 100 ++ List.replicate (n % 100 / 10) 10 ++
    List.replicate (n % 10) 1
  steps.foldl (fun y step => y.mul (tenPower (places.sign * step))) x

/-- Moves the point by `step` places at a time as long as a test holds, at most `fuel` times. The
second part is the exponent that makes up for it. -/
def shiftWhile (test : Wide → Bool) (step : Int) : (fuel : Nat) → Wide × Int → Wide × Int
  | 0, r => r
  | fuel + 1, (x, e) =>
    if test x then shiftWhile test step fuel (x.mul (tenPower step), e - step) else (x, e)

/-- Moves the point until eighteen or nineteen digits stand before it. No number of the 64-bit
format needs more than twelve steps of one kind. -/
def spread (x : Wide) : Wide × Int :=
  let reaches (e : Int) (y : Wide) : Bool := (tenPower e).le y
  if reaches 19 x then
    [(119, 100), (29, 10), (19, 1)].foldl (fun r (e, step) =>
      shiftWhile (reaches e ·) (-step) 12 r) (x, 0)
  else
    [(-97, 100), (7, 10), (17, 1)].foldl (fun r (e, step) =>
      shiftWhile (!reaches e ·) step 12 r) (x, 0)

/-! ## The 64-bit format -/

/-- The greatest finite number of the 64-bit format. -/
def greatest : Wide := ⟨Nat.pow 2 53 - 1, 971⟩

/-- The number of the 64-bit format that is nearest; beyond the greatest finite one there is only
the infinite. -/
def nearest (negative : Bool) (x : Wide) : Binary :=
  if x.le greatest then
    let (n, d) := scaled 2 x.m 1 x.q
    .ofFraction negative n d
  else .infinite negative

end Wide

end StyleLedger
