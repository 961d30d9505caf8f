import Calculator.Precision.Basic
import Calculator.Precision.Series

/-!
# Elementary functions of chosen precision

The elementary functions, accurate to the precision but for the rare value
that lies almost in the middle of two numbers. An argument is brought into
fixed point, with some bits beyond the precision; multiples of a constant are
taken away; a function in fixed point is applied; and the result is rounded
once. How many bits are added is part of what each function is: they decide
on which side such a rare value falls.

The arc sine and the arc cosine are arc tangents of quotients, and these are
truncated at every operation.

At precisions beyond `maxBits` only those values are computed that are exact:
the ones at zero, and the zeros at one.

## Main definitions

* `Precision.pi`, `Precision.e`, `Precision.degree`: The constants.
* `Precision.ln?`, `Precision.log?`: The logarithms.
* `Precision.expBySeries`: The exponential.
* `Precision.sin`, `Precision.cos`, `Precision.tan?`: The circular functions.
* `Precision.asin?`, `Precision.acos?`, `Precision.atan`: Their inverses.
-/

namespace Calculator

-- A power is that of the core library, whatever else is imported.
attribute [local instance (high)] instPowNat

namespace Precision

/-- A number in fixed point, rounded down. -/
def toFixed (width : Nat) : Dyadic → Int
  | .zero => 0
  | .ofOdd n k _ =>
    if k ≤ width then n <<< (width - k).toNat
    else if leadingBit n k < -width then 0
    else n >>> (k - width).toNat

/-- A number in fixed point, rounded to a number of bits. -/
def ofFixed (bits : Nat) (value : Int) (width : Int) : Dyadic :=
  nearest bits (value < 0) value.natAbs 1 width

/-- How many bits a number has before the point; for a number below a half it
    is the negative number of zeros behind the point. -/
def size (x : Dyadic) : Int :=
  top x + 1

/-! ### Constants -/

/-- The bits by which constants are wider than the precision. -/
def constantBits : Nat := 20

/-- The half circumference of the unit circle. -/
def pi (bits : Nat) : Dyadic :=
  ofFixed bits (Series.pi (bits + constantBits)) (bits + constantBits)

/-- The base of the natural logarithm. -/
def e (bits : Nat) : Dyadic :=
  ofFixed bits (Series.e (bits + constantBits)) (bits + constantBits)

/-- The size of a degree in radians. -/
def degree (bits : Nat) : Dyadic :=
  ofFixed bits (Series.pi (bits + constantBits) / 180) (bits + constantBits)

/-! ### Logarithms and exponentials -/

/-- How many leading bits a number close to one shares with it, for `n` of a
    number of bits with the point behind them or behind the first of them. -/
def sharedBits (n : Nat) (above : Bool) : Nat :=
  bitLength n - bitLength (if above then n - 2 ^ (bitLength n - 1) else 2 ^ bitLength n - n)

/-- The natural logarithm of `n * 2 ^ -k` in fixed point, for odd `n` above
    one, with the width. With the point before its leading bit, `n` becomes a
    number from a half up to one, and the rest of the exponent counts for the
    logarithm of two each. At large widths the number is made small instead. -/
def lnFixed (bits n : Nat) (k : Int) : Int × Nat :=
  let size := bitLength n - k
  let width := bits + 20
  if 10000 < size.natAbs && width < bitLength size.natAbs then
    -- Beside such an exponent the number itself does not matter.
    (-k * Series.ln2 width, width)
  else
    -- Near one, what the logarithm loses at the top is added at the bottom.
    let width := width + if size.natAbs ≤ 1 then sharedBits n (size ≠ 0) else 0
    if width ≤ Series.maxLnWidth then
      (Series.ln width (n <<< (width - bitLength n)) + size * Series.ln2 width, width)
    else
      let zeros := (width + 19) / 20
      let wide := width + zeros
      let small := Series.lnMean wide (n <<< (width - bitLength n))
      ((zeros + size) * Series.ln2 wide - small, wide)

/-- The natural logarithm, of positive numbers. -/
def ln? (bits : Nat) : Dyadic → Option Dyadic
  | .zero => none
  | .ofOdd n k _ =>
    if n = 1 && k = 0 then some .zero
    else if n < 0 || maxBits < bits then none
    else if n = 1 then some (ofFixed bits (-k * Series.ln2 (bits + 20)) (bits + 20))
    else
      let (value, width) := lnFixed bits n.natAbs k
      some (ofFixed bits value width)

/-- The common logarithm, as the quotient of two natural logarithms that have
    twenty more bits. -/
def log? (bits : Nat) (x : Dyadic) : Option Dyadic := do
  let numerator ← ln? (bits + 20) x
  let denominator ← ln? (bits + 20) 10
  quotient? bits numerator denominator

/-- The exponential of a number that is not zero, by a series. The argument is
    a multiple of the logarithm of two and a rest, and the multiple becomes the
    exponent; an argument below two is a rest as it is. -/
def expBySeries (bits : Nat) (x : Dyadic) : Dyadic :=
  let width := bits + 14
  if size x < -width then 1
  else if size x ≤ 1 then ofFixed bits (Series.exp width (toFixed width x)) width
  else
    let wide := width + (size x).toNat
    let argument := toFixed wide x
    let ln2 : Int := Series.ln2 wide
    -- The rest is not negative, because division rounds down.
    let rest := (argument % ln2) >>> (size x).toNat
    ofFixed bits (Series.exp width rest) (width - argument / ln2)

/-! ### Circular functions -/

/-- An angle as a number of quarter turns and a rest in fixed point, with the
    width of the rest. -/
structure Turned where
  /-- The quarter turns. -/
  turns : Nat
  /-- The rest. -/
  rest : Nat
  /-- The width of the rest. -/
  width : Nat
deriving DecidableEq, Repr

/-- The quarter turns of a magnitude above one. If the rest is too close to a
    quarter turn or to none, it is computed again with more bits to spare. -/
def turned (width : Nat) (x : Dyadic) : Nat → Nat → Turned
  | 0, _ => ⟨0, 0, width⟩
  | fuel + 1, more =>
    let before := (size x).toNat
    let wide := width + before + more
    let quarter := Series.pi (wide - 1)
    let angle := (toFixed wide x).natAbs
    let rest := angle % quarter
    let distance := if quarter / 2 < rest then quarter - rest else rest
    if distance >>> (width + before - 10) = 0 then turned width x fuel (2 * more)
    else ⟨angle / quarter, rest >>> before, width + more⟩

/-- The quarter turns of a magnitude that is not zero. One below one is a rest
    as it is, and gets a bit for every zero behind the point. -/
def quarterTurns (bits : Nat) (x : Dyadic) : Turned :=
  let width := bits + 10
  if 0 < size x then turned width x 64 20
  else
    let wide := width + (-(size x)).toNat
    ⟨0, (toFixed wide x).natAbs, wide⟩

/-- The cosine and the sine of a number that is not zero, in fixed point, and
    the width. -/
def cosSin (bits : Nat) (x : Dyadic) : Int × Int × Nat :=
  let angle := quarterTurns bits (if isNegative x then -x else x)
  let (c, s) := Series.cosSin angle.width angle.rest
  -- Every quarter turn exchanges the two and changes one of the signs.
  let (cos, sin) := match angle.turns % 4 with
    | 0 => (c, s)
    | 1 => (-s, c)
    | 2 => (-c, -s)
    | _ => (s, -c)
  (cos, if isNegative x then -sin else sin, angle.width)

/-- A number so small that the circular functions do not tell it from zero. -/
def isTiny (bits : Nat) (x : Dyadic) : Bool :=
  x = .zero || size x < -(bits + 10 : Int)

/-- The sine. -/
def sin (bits : Nat) (x : Dyadic) : Dyadic :=
  if isTiny bits x then round bits x
  else
    let (_, sin, width) := cosSin bits x
    ofFixed bits sin width

/-- The cosine. -/
def cos (bits : Nat) (x : Dyadic) : Dyadic :=
  if isTiny bits x then 1
  else
    let (cos, _, width) := cosSin bits x
    ofFixed bits cos width

/-- The tangent, unless the cosine vanishes. -/
def tan? (bits : Nat) (x : Dyadic) : Option Dyadic :=
  if isTiny bits x then some (round bits x)
  else
    let (cos, sin, _) := cosSin bits x
    if cos = 0 then none
    else some (nearest bits ((sin < 0) != (cos < 0)) sin.natAbs cos.natAbs 0)

/-! ### Inverses of the circular functions -/

/-- A quotient, truncated; a divisor of zero counts as one. -/
def truncatedQuotient (bits : Nat) (x y : Dyadic) : Dyadic :=
  match x, y with
  | .zero, _ => .zero
  | x, .zero => truncate bits x
  | .ofOdd n k _, .ofOdd m j _ =>
    truncated bits ((n < 0) != (m < 0)) n.natAbs m.natAbs (k - j)

/-- The arc tangent of a magnitude in fixed point. From two on it is a quarter
    turn less the arc tangent of the inverse. -/
def atanFixed (width : Nat) (x : Dyadic) : Nat :=
  if size x < 2 then Series.atan width (toFixed width x).natAbs
  else
    let inverse := toFixed width (truncatedQuotient width 1 x)
    Series.pi width / 2 + 1 - Series.atan width inverse.natAbs

/-- The arc tangent. It is a quarter turn for a number whose inverse is
    negligible beside that, and the number itself if that is negligible. -/
def atan (bits : Nat) (x : Dyadic) : Dyadic :=
  if x = .zero || (bits + 20 : Int) < -size x then round bits x
  else if (bits + 20 : Int) < size x then
    Dyadic.ofIntWithPrec (Binary64.signed (isNegative x) 1) 1 * pi bits
  else
    let width := bits + 30 + (size x).natAbs
    ofFixed bits (Binary64.signed (isNegative x) (atanFixed width x)) width

/-- One plus a number of at most that magnitude, truncated. -/
def onePlus (bits : Nat) (x : Dyadic) : Dyadic :=
  truncate bits (exactSum 1 (standIn bits 1 x))

/-- The other leg of a right triangle over the unit that has a given leg. -/
def otherLeg (bits : Nat) (x : Dyadic) : Dyadic :=
  truncatedSqrt bits (onePlus bits (-(x * x)))

/-- Whether a number is between minus one and one. -/
def inUnit (x : Dyadic) : Bool :=
  x = .zero || top x < 0 || x = 1 || x = -1

/-- The arc sine, of numbers between minus one and one, as twice the arc with
    the tangent `x / (1 + y)`, where `y` is the other leg. -/
def asin? (bits : Nat) (x : Dyadic) : Option Dyadic :=
  let wide := bits + 15
  if inUnit x then
    some (2 * atan bits (truncatedQuotient wide x (onePlus wide (otherLeg wide x))))
  else none

/-- The arc cosine, of numbers between minus one and one, as twice the arc
    with the tangent `y / (1 + x)`, where `y` is the other leg. -/
def acos? (bits : Nat) (x : Dyadic) : Option Dyadic :=
  let wide := bits + 15
  if x = -1 then some (pi bits)
  else if inUnit x then
    some (2 * atan bits (truncatedQuotient wide (otherLeg wide x) (onePlus wide x)))
  else none

end Precision

end Calculator
