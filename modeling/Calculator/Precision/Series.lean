import Calculator.Precision.Constants
import Calculator.Rounding

/-!
# Functions in fixed point

The elementary functions of arguments that have been brought near zero or near
one, in fixed point: a number `x` is represented by the integral part of
`x * 2 ^ width`. Every product is truncated, so a value is too small by a few
units. The callers choose a width with room for that.

Which reduction and which series is used depends on the width. Wherever it
pays, a function of a sum is composed of its value at a coarse *step*, which
is computed more precisely, and a short series for the rest; at larger widths
the argument is halved so often that a short series is left, and the halvings
are undone at the end. Logarithms at very large widths are arithmetic-geometric
means, and an arc tangent is always found from its tangent, with a precision
that doubles each time.

## Main definitions

* `Series.cosSin`: The cosine and the sine of an angle up to a quarter turn.
* `Series.exp`: The exponential of a number between minus two and two.
* `Series.ln`: The logarithm of a number from a half up to one.
* `Series.lnMean`: The logarithm of the inverse of a small number.
* `Series.atan`, `Series.arc`: The arc tangent of a number up to two.
-/

namespace Calculator

-- A power and an empty sum are those of the core library, whatever else is imported.
attribute [local instance (high)] instPowNat Zero.ofOfNat0

namespace Series

/-- A product in fixed point. -/
def scaled (width x y : Nat) : Nat :=
  (x * y) >>> width

/-- The smallest power of two that is not below a width, and twenty bits more:
    the width in which functions are computed at a step. -/
def stepWidth (width : Nat) : Nat :=
  2 ^ (Nat.log2 (width - 1) + 1) + 20

/-! ### Cosines and exponentials -/

/-- How often an argument is halved: so often that its leading bit is as far
    behind the point as half the square root of the width tells. -/
def halvings (width x : Nat) : Nat :=
  bitLength x + Nat.sqrt (width / 4) - width

/-- The bits beyond the width that a series for a cosine is summed with. Each
    doubling of an angle costs two, and so does each zero behind the point. -/
def extraBits (width x : Nat) : Nat :=
  10 + 2 * max (halvings width x) (width - bitLength x)

/-- The largest number up to `u + fuel` that is at most three tenths of the
    power seven twentieths of the width, if `u` is. -/
def strandsFrom (width : Nat) : Nat → Nat → Nat
  | 0, u => u
  | fuel + 1, u =>
    if 10 ^ (20 : Nat) * (u + 1) ^ (20 : Nat) ≤ 3 ^ (20 : Nat) * width ^ (7 : Nat) then
      strandsFrom width fuel (u + 1)
    else u

/-- The number of strands into which a series for a cosine is separated. -/
def strands (width : Nat) : Nat :=
  if width < 1500 then 2 else strandsFrom width width 0

/-- One more term for every strand, and the last of these terms. The `i`-th
    power over the factorial of `i` is the one before it, here `term`, divided
    by the last two factors; the powers themselves are left to the strands. -/
def extend (alternating : Bool) : Nat → Nat → List Int → Nat × List Int
  | _, term, [] => (term, [])
  | i, term, sum :: sums =>
    let next := term / ((i - 1) * i)
    let (last, rest) := extend alternating (i + 2) next sums
    (last, (if alternating && i % 4 = 2 then sum - next else sum + next) :: rest)

/-- The strands from the `i`-th power on until the terms vanish, each round
    being multiplied by the power `ratio` that all strands together cover. -/
def strandSums (alternating : Bool) (width ratio : Nat) : Nat → Nat → Nat → List Int → List Int
  | 0, _, _, sums => sums
  | fuel + 1, i, term, sums =>
    if term = 0 then sums
    else
      let (last, sums) := extend alternating i term sums
      strandSums alternating width ratio fuel (i + 2 * sums.length) (scaled width last ratio) sums

/-- The first powers of a number, from the one given on. -/
def powers (width x : Nat) : Nat → Nat → List Nat
  | 0, _ => []
  | count + 1, power => power :: powers width x count (scaled width power x)

/-- The cosine of a number, circular if the signs alternate and hyperbolic if
    they do not, in a given number of strands. -/
def cosine (alternating : Bool) (count width x : Nat) : Int :=
  let square := scaled width x x
  let all := powers width square (count + 1) (2 ^ width)
  let sums := strandSums alternating width (all.getLastD 0) width 2 square
    (List.replicate count 0)
  ((sums.zip all).map fun (sum, power) => (sum * (power : Int)) >>> width).sum
    + (2 ^ width : Nat)

/-- The cosine and the sine of a number that is not negative. The cosine of
    the halved argument is doubled again by `2 c ^ 2 - 1`, and the sine is the
    other leg. -/
def cosSinLong (width x : Nat) : Int × Int :=
  let extra := extraBits width x
  let wide := width + extra
  let start := cosine true (strands width) wide (x <<< (extra - halvings width x))
  let double (c : Int) : Int := ((c * c) >>> (wide - 1)) - (2 ^ wide : Nat)
  let cos := Nat.repeat double (halvings width x) start
  let sin : Int := Nat.sqrt (((2 ^ (2 * wide) : Nat) : Int) - cos * cos).natAbs
  (cos >>> extra, sin >>> extra)

/-- The exponential of a number. The hyperbolic cosine of the halved argument
    and its sine give the exponential, which is squared as often as the
    argument was halved. -/
def expLong (width : Nat) (x : Int) : Nat :=
  let extra := extraBits width x.natAbs
  let wide := width + extra
  let halved := halvings width x.natAbs
  let cosh := (cosine false (strands width) wide (x.natAbs <<< (extra - halved))).toNat
  let sinh := Nat.sqrt (cosh * cosh - 2 ^ (2 * wide))
  let start := if x < 0 then cosh - sinh else cosh + sinh
  Nat.repeat (fun y => scaled wide y y) halved start >>> extra

/-- The sums of the terms `square ^ j / i!` from a term on, apart for even and
    odd `i`, where `j` is half of `i`. -/
def pairSums (width square : Nat) : Nat → Nat → Nat → Nat × Nat
  | 0, _, _ => (0, 0)
  | fuel + 1, i, term =>
    if term = 0 then (0, 0)
    else
      let even := term / i
      let odd := even / (i + 1)
      let (evens, odds) := pairSums width square fuel (i + 2) (scaled width odd square)
      (even + evens, odd + odds)

/-- The exponential of a number at a small width. The argument is made shorter
    by as many bits as the square root of the width tells, and the result is
    squared as often. -/
def expShort (width : Nat) (x : Int) : Nat :=
  let halved := Nat.sqrt width
  let wide := width + halved
  let square := scaled wide x.natAbs x.natAbs
  let (evens, odds) := pairSums wide square wide 2 square
  let start := (2 ^ wide + evens : Nat) + ((((2 ^ wide + odds : Nat) : Int) * x) >>> wide)
  Nat.repeat (fun y => scaled wide y y) halved start.toNat >>> halved

/-- The exponential of a number between minus two and two. -/
def exp (width : Nat) (x : Int) : Nat :=
  if 600 < width then expLong width x else expShort width x

/-- The largest width at which an angle is composed of a step and a rest. -/
def maxStepWidth : Nat := 400

/-- The cosine and the sine of a number below a step. The terms are divided
    towards minus infinity, whatever their sign. -/
def circularSums (width x : Nat) : Nat → Int → Int → Int × Int
  | 0, _, _ => (0, 0)
  | fuel + 1, i, term =>
    if term = 0 then (0, 0)
    else
      let cos := term / i
      let sin := ((cos * x) >>> width) / (i + 1)
      let (coss, sins) := circularSums width x fuel (i + 2) (-((sin * x) >>> width))
      (cos + coss, sin + sins)

/-- The cosine and the sine of an angle up to a quarter turn. At small widths
    the angle is a multiple of a 256th and a rest, and the two are added. -/
def cosSin (width x : Nat) : Int × Int :=
  if maxStepWidth < width then cosSinLong width x
  else
    let step := x >>> (width - 8)
    let rest := x - (step <<< (width - 8))
    let (stepCos, stepSin) := cosSinLong (maxStepWidth + 10) (step <<< (maxStepWidth + 2))
    let c := stepCos >>> (maxStepWidth + 10 - width)
    let s := stepSin >>> (maxStepWidth + 10 - width)
    let (coss, sins) := circularSums width rest width 2 (-(scaled width rest rest : Nat))
    let cos := (2 ^ width : Nat) + coss
    let sin := rest + sins
    ((cos * c - sin * s) >>> width, (sin * c + cos * s) >>> width)

/-! ### Arc tangents and logarithms -/

/-- The sums of the terms `x * fourth ^ j / i`, apart for every second odd `i`
    from the one given on, where `j` counts them. -/
def oddSums (width fourth : Nat) : Nat → Nat → Nat → Nat × Nat
  | 0, _, _ => (0, 0)
  | fuel + 1, i, x =>
    if x = 0 then (0, 0)
    else
      let (firsts, seconds) := oddSums width fourth fuel (i + 4) (scaled width x fourth)
      (x / i + firsts, x / (i + 2) + seconds)

/-- The terms of the series of an arc tangent that are added, and those that
    are subtracted if the arc is circular. -/
def arcSums (width x : Nat) : Nat × Nat :=
  let square := scaled width x x
  let (firsts, seconds) := oddSums width (scaled width square square) width 1 x
  (firsts, scaled width seconds square)

/-- The hyperbolic arc tangent of a number below a half. -/
def hyperbolicArc (width x : Nat) : Nat :=
  (arcSums width x).1 + (arcSums width x).2

/-- The circular arc tangent of a number below a half. -/
def circularArc (width x : Nat) : Nat :=
  (arcSums width x).1 - (arcSums width x).2

/-- The tangent of half the angle that has the tangent `x`. -/
def halfTangent (width x : Nat) : Nat :=
  (x <<< width) / (2 ^ width + Nat.sqrt (2 ^ (2 * width) + x * x))

/-- The arc tangent of a number up to two, up to a few units: at small widths
    by halving the angle, and else by correcting an arc of half the width by
    the difference of its tangent to the given one. -/
def roughArc (width x : Nat) : Nat :=
  if width ≤ 128 then
    let wide := width + 32
    (circularArc wide (Nat.repeat (halfTangent wide) 8 (x <<< 32)) <<< 8) >>> 32
  else
    let half := width / 2 + 16
    let guess := roughArc half (x >>> (width - half)) <<< (width - half)
    let (cos, sin) := cosSin width guess
    let tangent := (sin <<< width) / cos
    let slope := (2 ^ width : Nat) + (tangent * tangent) >>> width
    (guess - ((tangent - x) <<< width) / slope : Int).toNat
termination_by width

/-- The arc tangent of a number up to two, truncated. -/
def arc (width x : Nat) : Nat :=
  roughArc (width + spare) (x <<< spare) >>> spare

/-- The arc tangent of a number up to two. At widths that are not too large it
    is composed of the arc at a 128th and an arc for the difference. -/
def atan (width x : Nat) : Nat :=
  if 3000 ≤ width then arc width x
  else
    let step := x >>> (width - 7)
    let wide := stepWidth width
    let start := arc wide (step <<< (wide - 7)) >>> (wide - width)
    let a := step <<< (width - 7)
    let d := x - a
    -- The tangent of the difference of two arcs with the tangents `x` and `a`.
    let rest := (d <<< width) / (scaled width a a + scaled width a d + 2 ^ width)
    start + (arcSums width rest).1 - (arcSums width rest).2

/-- The largest width at which a logarithm is composed of a step and a rest. -/
def maxLnWidth : Nat := 2500

/-- The logarithm of a number from a half up to one, by way of its 256th root. -/
def lnByRoots (width x : Nat) : Int :=
  let root := Nat.repeat (fun y => Nat.sqrt (y <<< width)) 8 x
  let one : Nat := 2 ^ width
  -- The root is below one, and its logarithm is not positive.
  let ratio := (((root : Int) - one) <<< width) / ((root + one : Nat) : Int)
  Int.negOfNat (hyperbolicArc width ratio.natAbs <<< 9)

/-- The logarithm of a number from a half up to one, composed of that of a
    512th and that of a ratio just above one. -/
def ln (width x : Nat) : Int :=
  let step := x >>> (width - 9)
  let wide := min (stepWidth width) (maxLnWidth + 20)
  let start := lnByRoots wide (step <<< (wide - 9)) >>> (wide - width)
  let a := step <<< (width - 9)
  let excess := ((x - a) <<< width) / a
  let ratio := (excess <<< width) / (2 ^ (width + 1) + excess)
  start + ((2 * hyperbolicArc width ratio : Nat) : Int)

/-- The sum of terms of which each is the one before it times the product of
    all the factors so far, the factors being in geometric progression. -/
def thetaSum (width ratio : Nat) : Nat → Nat → Nat → Nat
  | 0, _, _ => 0
  | fuel + 1, term, factor =>
    if term = 0 then 0
    else
      let next := scaled width factor ratio
      term + thetaSum width ratio fuel (scaled width term next) next

/-- The arithmetic-geometric mean of two numbers. At least five steps are
    taken, and then as many as it takes for the means to agree. -/
def mean (fuel : Nat) (i a b : Nat) : Nat :=
  match fuel with
  | 0 => a
  | fuel + 1 =>
    let next := (a + b) / 2
    if 4 < i && (a : Int) - next < 8 && (next : Int) - a < 8 then a
    else mean fuel (i + 1) next (Nat.sqrt (a * b))

/-- The logarithm of the inverse of a small number, as the half circumference
    over the mean of two squares of theta series. -/
def lnMean (width x : Nat) : Nat :=
  let square := scaled width x x
  let second := thetaSum width square width square square + 2 ^ width
  let second := scaled width ((second * second) >>> (width - 2)) (Nat.sqrt (x <<< width))
  let third := 2 ^ width + 2 * thetaSum width square width x x
  let third := scaled width third third
  (pi width <<< width) / mean width 0 second third

end Series

end Calculator
