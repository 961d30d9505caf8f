import Calculator.Decimal

/-!
# Doubles

The binary floating-point numbers of 64 bits, as exact numbers. Every finite
double is an integral multiple of `2 ^ -1074`, the *unit*, so arithmetic on
doubles is integer arithmetic followed by one rounding.

The doubles of one sign are numbered upwards from zero, and a finite double is
its sign and that number, its *rank*. The rank is at once the pattern of its
bits: below `2 ^ 52` ranks are the numbers of units themselves, and from there
on each further stretch of `2 ^ 52` ranks has twice the spacing of the one
before. Rounding needs no case for a carry out of a significand, since the
rank after the last of one stretch is the first of the next, and overflow is
just a rank that is too large.

## Main definitions

* `Binary64`: Finite doubles by sign and rank, the infinities, and NaN.
* `Binary64.units`: The value of a finite double, counted in units.
* `Binary64.nearest`: The double nearest to a quotient of units.
* `Binary64.add`, `mul`, `div`, `neg`, `sqrt`: Arithmetic.
* `Binary64.ofDecimal`, `ofInt`: The nearest double to an exact number.
* `Binary64.integer?`: The integer that a double is, if it is one.
* `Binary64.le`: The order of numbers; NaN is not related to anything.
-/

namespace Calculator

-- A power is that of the core library, whatever else is imported.
attribute [local instance (high)] instPowNat

/-- How many finite doubles there are of one sign. -/
def finiteCount : Nat :=
  2047 * 2 ^ (52 : Nat)

/-- A double. The two zeros are the finite doubles of rank zero. -/
inductive Binary64
  /-- The finite double of a sign and a rank. -/
  | finite (negative : Bool) (rank : Fin finiteCount)
  /-- An infinity. -/
  | infinite (negative : Bool)
  /-- The result of an operation that has none. -/
  | nan
deriving DecidableEq, Repr

namespace Binary64

/-- One, counted in units. -/
def unitsInOne : Nat :=
  2 ^ (1074 : Nat)

/-- The exponent of two of the spacing at a rank, in units. -/
def spacing (rank : Nat) : Nat :=
  rank / 2 ^ (52 : Nat) - 1

/-- The magnitude at a rank, in units. -/
def magnitude (rank : Nat) : Nat :=
  (rank - spacing rank * 2 ^ (52 : Nat)) * 2 ^ spacing rank

/-- An integer of the given sign and magnitude. -/
def signed (negative : Bool) (n : Nat) : Int :=
  if negative then -(n : Int) else n

/-- The value in units; an infinity counts as the power of two that would
    follow the largest double, and NaN as zero. -/
def units : Binary64 → Int
  | finite negative rank => signed negative (magnitude rank)
  | infinite negative => signed negative (2 ^ (2098 : Nat))
  | nan => 0

/-- Whether the sign is negative; that of NaN is not. -/
def isNegative : Binary64 → Bool
  | finite negative _ => negative
  | infinite negative => negative
  | nan => false

/-- Neither an infinity nor NaN. -/
def isFinite : Binary64 → Bool
  | finite _ _ => true
  | _ => false

/-- The zero of a sign. -/
def zero (negative : Bool) : Binary64 :=
  finite negative ⟨0, by decide⟩

instance : Inhabited Binary64 := ⟨zero false⟩

/-- The largest finite double of a sign. -/
def largest (negative : Bool) : Binary64 :=
  finite negative ⟨finiteCount - 1, by decide⟩

/-- The double of a sign and a rank, the infinity if the rank is too large. -/
def ofRank (negative : Bool) (rank : Nat) : Binary64 :=
  if h : rank < finiteCount then finite negative ⟨rank, h⟩ else infinite negative

/-- The rank nearest to the magnitude of `n / d` units. The spacing is chosen
    by the integral part of the quotient, so that at most 53 bits are kept. -/
def nearestRank (n d : Nat) : Nat :=
  -- Below two to the 53 the spacing is one unit, and the rank counts units.
  let exponent := Nat.log2 (n / d) - 52
  exponent * 2 ^ (52 : Nat) + divNearest n (d * 2 ^ exponent)

/-- The double nearest to the quotient `n / d` of units, with a sign; of two
    equally near, the one with an even significand. -/
def nearest (negative : Bool) (n d : Nat) : Binary64 :=
  ofRank negative (nearestRank n d)

/-- The double nearest to a magnitude in decimal, with a sign. -/
def ofDecimal (negative : Bool) (x : Decimal) : Binary64 :=
  nearest negative (x.numerator * unitsInOne) x.denominator

/-- The double nearest to an integer. -/
def ofInt (n : Int) : Binary64 :=
  nearest (n < 0) (n.natAbs * unitsInOne) 1

/-- The opposite number; zeros and infinities change their sign too. -/
protected def neg : Binary64 → Binary64
  | finite negative rank => finite (!negative) rank
  | infinite negative => infinite (!negative)
  | nan => nan

/-- The sum. An exact sum of zero is the positive zero, unless both zeros
    added are negative. -/
protected def add : Binary64 → Binary64 → Binary64
  | nan, _ => nan
  | _, nan => nan
  | infinite s, infinite t => if s = t then infinite s else nan
  | infinite s, finite _ _ => infinite s
  | finite _ _, infinite t => infinite t
  | x@(finite s _), y@(finite t _) =>
    -- The exact sum is an integer, and its sign is that of the result.
    let sum := x.units + y.units
    if sum = 0 then zero (s && t) else nearest (sum < 0) sum.natAbs 1

/-- The product. -/
protected def mul : Binary64 → Binary64 → Binary64
  | nan, _ => nan
  | _, nan => nan
  | infinite s, infinite t => infinite (s != t)
  | infinite s, finite t rank => if rank.val = 0 then nan else infinite (s != t)
  | finite s rank, infinite t => if rank.val = 0 then nan else infinite (s != t)
  -- The product counts squares of the unit; `unitsInOne` of them make a unit.
  | finite s r, finite t q => nearest (s != t) (magnitude r * magnitude q) unitsInOne

/-- The quotient. -/
protected def div : Binary64 → Binary64 → Binary64
  | nan, _ => nan
  | _, nan => nan
  | infinite _, infinite _ => nan
  | infinite s, finite t _ => infinite (s != t)
  | finite s _, infinite t => zero (s != t)
  | finite s r, finite t q =>
    if q.val = 0 then (if r.val = 0 then nan else infinite (s != t))
    else nearest (s != t) (magnitude r * unitsInOne) (magnitude q)

instance : Neg Binary64 := ⟨Binary64.neg⟩
instance : Add Binary64 := ⟨Binary64.add⟩
instance : Sub Binary64 := ⟨fun x y => x + -y⟩
instance : Mul Binary64 := ⟨Binary64.mul⟩
instance : Div Binary64 := ⟨Binary64.div⟩

/-- The square root of a number of units, in units, as a quotient that rounds
    like it: an irrational root lies strictly between two integers, and so
    does the half between them, while every point where rounding changes its
    mind is an integer. -/
def rootQuotient (n : Nat) : Nat × Nat :=
  let root := Nat.sqrt (n * unitsInOne)
  if root * root = n * unitsInOne then (root, 1) else (2 * root + 1, 2)

/-- The square root; that of a negative number is NaN, and that of a zero is
    the zero itself. -/
def sqrt : Binary64 → Binary64
  | nan => nan
  | infinite negative => if negative then nan else infinite false
  | finite negative rank =>
    if rank.val = 0 then finite negative rank
    else if negative then nan
    else nearest false (rootQuotient (magnitude rank)).1 (rootQuotient (magnitude rank)).2

/-- The magnitude of a double, with a positive sign. -/
def abs : Binary64 → Binary64
  | finite _ rank => finite false rank
  | infinite _ => infinite false
  | nan => nan

/-- The order of numbers: the two zeros are equal, and NaN is not related to
    anything, itself included. -/
def le (x y : Binary64) : Bool :=
  x ≠ nan && y ≠ nan && x.units ≤ y.units

/-- Whether one number is below another. -/
def lt (x y : Binary64) : Bool :=
  x ≠ nan && y ≠ nan && x.units < y.units

/-- Equality of numbers, for which the two zeros are one. -/
def sameNumber (x y : Binary64) : Bool :=
  x ≠ nan && y ≠ nan && x.units = y.units

/-- The integer that a double is, if it is one. -/
def integer? : Binary64 → Option Int
  | x@(finite _ _) => if x.units % unitsInOne = 0 then some (x.units / unitsInOne) else none
  | _ => none

end Binary64

end Calculator
