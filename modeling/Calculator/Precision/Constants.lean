/-!
# Constants in fixed point

The constants behind the elementary functions, in fixed point: a number `x` is
represented by the integral part of `x * 2 ^ width`.

Each constant is a sum of rational numbers, or several. Such a sum is computed
by splitting it into two halves, again and again, and by bringing the halves
to one denominator. Nothing is rounded until one division yields the result,
and the numbers that are multiplied are of equal length, which is fastest.

## Main definitions

* `Series.Part`: A part of a sum, as a fraction.
* `Series.part`: The part of a sum from one term to another.
* `Series.arcInverse`: The arc tangent of an inverse, circular or hyperbolic.
* `Series.pi`, `Series.ln2`, `Series.e`: The constants.
-/

namespace Calculator

namespace Series

/-- A part of a sum of terms, each being the product of the ratios up to its
    index, divided by its weight. -/
structure Part where
  /-- The product of the weights. -/
  weight : Nat
  /-- The product of the numerators of the ratios. -/
  numerator : Int
  /-- The product of the denominators of the ratios. -/
  denominator : Nat
  /-- The sum of the part, over `weight * denominator`. -/
  total : Int
deriving DecidableEq, Repr

namespace Part

/-- The term of a ratio and a weight, as the part that holds only this term. -/
def single (weight : Nat) (numerator : Int) (denominator : Nat) : Part :=
  ⟨weight, numerator, denominator, numerator⟩

/-- A part followed by another. The terms of the second one still lack the
    ratios of the first. -/
def append (a b : Part) : Part where
  weight := a.weight * b.weight
  numerator := a.numerator * b.numerator
  denominator := a.denominator * b.denominator
  total := b.weight * b.denominator * a.total + a.weight * a.numerator * b.total

/-- The sum of a part in fixed point. -/
def fixed (width : Nat) (a : Part) : Nat :=
  (a.total.toNat <<< width) / (a.weight * a.denominator)

end Part

/-- The part of a sum that has a number of terms from a first one on. -/
def part (term : Nat → Part) (first count : Nat) : Part :=
  if count ≤ 1 then term first
  else
    (part term first (count / 2)).append
      (part term (first + count / 2) (count - count / 2))
termination_by count

/-- The arc tangent of `1 / q`, circular if the signs alternate and hyperbolic
    if they do not, for `q` at least two. -/
def arcInverse (alternating : Bool) (q width : Nat) : Nat :=
  let term (i : Nat) : Part :=
    if i = 0 then .single 1 1 q
    else .single (2 * i + 1) (if alternating then -1 else 1) (q * q)
  (part term 0 (width / (2 * Nat.log2 q) + 2)).fixed width

/-- The bits that the constants are computed with beyond those asked for. -/
def spare : Nat := 64

/-- The half circumference of the unit circle, as sixteen times the arc
    tangent of a fifth less four times that of a 239th. -/
def pi (width : Nat) : Nat :=
  (16 * arcInverse true 5 (width + spare) - 4 * arcInverse true 239 (width + spare)) >>> spare

/-- The natural logarithm of two, as a combination of three hyperbolic arc
    tangents: 18 of a 26th, less 2 of a 4801st, and 8 of an 8749th. -/
def ln2 (width : Nat) : Nat :=
  let inner := width + spare
  (18 * arcInverse false 26 inner + 8 * arcInverse false 8749 inner
    - 2 * arcInverse false 4801 inner) >>> spare

/-- The base of the natural logarithm, as the sum of the inverse factorials.
    The factorial of the last index is larger than the scale. -/
def e (width : Nat) : Nat :=
  let inner := width + spare
  let term (i : Nat) : Part := .single 1 1 (max 1 i)
  (part term 0 (2 * inner / Nat.log2 inner + 8)).fixed inner >>> spare

end Series

end Calculator
