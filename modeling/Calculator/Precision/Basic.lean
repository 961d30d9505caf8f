import Calculator.Binary64.Basic
import Calculator.Precision.LowestTerms

/-!
# Arithmetic of chosen precision

Numbers with a chosen number of significant bits and an exponent of any size.
Values are dyadic numbers, so there is one zero, nothing overflows, and
nothing underflows. Every operation is the exact one followed by rounding to
the nearest number of the precision, the even one of two equally near.

Exponents may be astronomical, as in ten to the power of minus ten to the
three hundred. No operation may therefore bring two arbitrary numbers to one
exponent. A sum whose smaller part is too small to matter is rounded with a
stand-in for it, a number just as negligible and not as long; a comparison
with the range of the doubles first looks at the leading bits.

Precisions may be astronomical too, as long as nothing has to be rounded. What
is exact is therefore never widened to the precision: a quotient without a
remainder is taken as it is. A quotient or a root that would have to be widened
is not computed beyond `maxBits` bits.

## Main definitions

* `Precision`: How many decimal digits are asked for, and how many bits that is.
* `Precision.nearest`, `Precision.truncated`: A quotient brought to a number
  of bits, by rounding or by truncation.
* `Precision.round`, `sum`, `product`, `quotient?`, `sqrt`: Arithmetic.
* `Precision.inRange`: Whether a magnitude is at most the largest double.
-/

namespace Calculator

-- A power is that of the core library, whatever else is imported.
attribute [local instance (high)] instPowNat

namespace Precision

/-- The quotient `n / d` of natural numbers, with a sign and divided by a
    power of two, brought to a number of significant bits; `divide` is the
    division that drops the bits beyond them. A quotient that in lowest terms
    has a power of two as its divisor is a dyadic number already. -/
def quotientBy (divide : Nat → Nat → Nat) (bits : Nat) (negative : Bool) (n d : Nat)
    (shift : Int) : Dyadic :=
  let common := Nat.gcd n d
  let n := n / common
  let d := d / common
  if d = 2 ^ Nat.log2 d then
    let drop := Nat.log2 n + 1 - bits
    inLowestTerms (Binary64.signed negative (divide n (2 ^ drop))) (shift + Nat.log2 d - drop)
  else
    -- The numerator is widened until the integral part has all the bits.
    let extra := bits + Nat.log2 d + 1 - Nat.log2 n
    -- A quotient that is rounded up to one more bit has only zeros behind it.
    let drop := Nat.log2 (n * 2 ^ extra / d) + 1 - bits
    inLowestTerms (Binary64.signed negative (divide (n * 2 ^ extra) (d * 2 ^ drop)))
      (shift + extra - drop)

/-- A quotient rounded to a number of significant bits. -/
def nearest : Nat → Bool → Nat → Nat → Int → Dyadic :=
  quotientBy divNearest

/-- A quotient truncated to a number of significant bits. -/
def truncated : Nat → Bool → Nat → Nat → Int → Dyadic :=
  quotientBy (· / ·)

/-- A number rounded to a number of significant bits. -/
def round (bits : Nat) : Dyadic → Dyadic
  | .zero => .zero
  | .ofOdd n k _ => nearest bits (n < 0) n.natAbs 1 k

/-- A number truncated to a number of significant bits. -/
def truncate (bits : Nat) : Dyadic → Dyadic
  | .zero => .zero
  | .ofOdd n k _ => truncated bits (n < 0) n.natAbs 1 k

/-- The exponent of two of the leading bit of `n * 2 ^ -k`, for `n` not zero. -/
def leadingBit (n k : Int) : Int :=
  (Nat.log2 n.natAbs : Int) - k

/-- The exponent of two of the leading bit; zero has that of one. -/
def top : Dyadic → Int
  | .zero => 0
  | .ofOdd n k _ => leadingBit n k

/-- What may be added instead of `y` to a number `x` whose leading bit is no
    lower, when the sum is to be rounded to a number of bits. All points where
    such a rounding changes its mind near `x`, and `x` itself, are multiples
    of a certain power of two. A `y` below that power cannot be told from half
    of it, with the sign of `y`. -/
def standIn (bits : Nat) (x y : Dyadic) : Dyadic :=
  match x, y with
  | .ofOdd n k _, .ofOdd m j _ =>
    -- The sum may lose one bit at the top, and rounding looks one bit further.
    let grid := max k (bits + 2 - leadingBit n k)
    if leadingBit m j + 1 ≤ -grid then
      Dyadic.ofIntWithPrec (if m < 0 then -1 else 1) (grid + 1)
    else y
  | _, y => y

/-- The sum. -/
def sum (bits : Nat) (x y : Dyadic) : Dyadic :=
  if x = .zero then round bits y
  else if y = .zero then round bits x
  else if top y ≤ top x then round bits (exactSum x (standIn bits x y))
  else round bits (exactSum y (standIn bits y x))

/-- The product. -/
def product (bits : Nat) (x y : Dyadic) : Dyadic :=
  round bits (x * y)

/-- The most bits that a quotient or a root may be widened to. -/
def maxBits : Nat := 2 ^ (36 : Nat)

/-- The quotient, unless the divisor is zero. Where the odd parts leave no
    remainder, nothing is widened at any precision. -/
def quotient? (bits : Nat) (x y : Dyadic) : Option Dyadic :=
  match x, y with
  | _, .zero => none
  | .zero, _ => some .zero
  | .ofOdd n k _, .ofOdd m j _ =>
    if n.natAbs % m.natAbs = 0 || bits ≤ maxBits then
      some (nearest bits ((n < 0) != (m < 0)) n.natAbs m.natAbs (k - j))
    else none

/-- The square root of a magnitude `n * 2 ^ -k`, brought to a number of bits
    by `divide`. The radicand is widened until its integral root has two bits
    to spare, with an even exponent; a root that is not exact is told from its
    integral part by one more bit. -/
def sqrtBy (divide : Nat → Nat → Nat) (bits : Nat) (n : Nat) (k : Int) : Dyadic :=
  let extra := 2 * (bits + 1) + k.natAbs % 2
  let root := Nat.sqrt (n * 2 ^ extra)
  -- At least two bits are dropped, so the last one makes no tie by itself.
  let inexact := if root * root = n * 2 ^ extra then 0 else 1
  quotientBy divide bits false (2 * root + inexact) 1 ((k + extra) / 2 + 1)

/-- The square roots that need no widening at any precision: those of zero and
    of the powers of four. -/
def exactSqrt? : Dyadic → Option Dyadic
  | .zero => some .zero
  | .ofOdd n k _ => if n = 1 && k % 2 = 0 then some (Dyadic.ofIntWithPrec 1 (k / 2)) else none

/-- The square root, of numbers that are not negative. -/
def sqrt? (bits : Nat) (x : Dyadic) : Option Dyadic :=
  match exactSqrt? x, x with
  | some root, _ => some root
  | none, .zero => some .zero
  | none, .ofOdd n k _ =>
    if n < 0 || maxBits < bits then none else some (sqrtBy divNearest bits n.natAbs k)

/-- The truncated square root of a magnitude. -/
def truncatedSqrt (bits : Nat) : Dyadic → Dyadic
  | .zero => .zero
  | .ofOdd n k _ => sqrtBy (· / ·) bits n.natAbs k

/-- Whether a number is negative. -/
def isNegative : Dyadic → Bool
  | .zero => false
  | .ofOdd n _ _ => n < 0

/-- The integer that a number is, if it is one. -/
def integer? : Dyadic → Option Int
  | .zero => some 0
  | .ofOdd n k _ => if k ≤ 0 then some (n * 2 ^ (-k).toNat) else none

/-- The significand of the largest double, an integer of 53 bits. -/
def largestSignificand : Nat :=
  2 ^ (53 : Nat) - 1

/-- Whether the magnitude of a number is at most the largest double. The
    leading bits decide, unless they are the same. -/
def inRange : Dyadic → Bool
  | .zero => true
  | .ofOdd n k _ =>
    if leadingBit n k < 1023 then true
    else if 1023 < leadingBit n k then false
    else n.natAbs * 2 ^ (-(k + 971)).toNat ≤ largestSignificand * 2 ^ (k + 971).toNat

/-- The exact value of a finite double; other doubles have the value zero. -/
def ofBinary64 : Binary64 → Dyadic
  | x@(.finite _ _) => Dyadic.ofIntWithPrec x.units 1074
  | _ => .zero

/-- The double nearest to a number. Numbers whose leading bit is far outside
    the range of the doubles are decided by that bit. -/
def toNearestBinary64 : Dyadic → Binary64
  | .zero => Binary64.zero false
  | .ofOdd n k _ =>
    if 1100 < leadingBit n k then .infinite (n < 0)
    else if leadingBit n k < -1200 then Binary64.zero (n < 0)
    else Binary64.nearest (n < 0) (n.natAbs * 2 ^ (1074 - k).toNat) (2 ^ (k - 1074).toNat)

/-- The double that a number is reported as: rounded to the 53 bits of a
    double first, and to the spacing of the doubles there after that. -/
def toBinary64 (x : Dyadic) : Binary64 :=
  toNearestBinary64 (round 53 x)

end Precision

/-- How precisely to calculate. -/
structure Precision where
  /-- The decimal digits that are asked for. -/
  digits : Nat
  /-- The significant bits that are kept. -/
  bits : Nat
deriving DecidableEq, Repr

namespace Precision

/-- The fewest decimal digits that can be asked for. -/
def minDigits : Nat := 20

/-- The double nearest to the number of bits in a decimal digit. -/
def bitsPerDigit : Binary64 :=
  Binary64.ofDecimal false ⟨33219280948873626, -16⟩

/-- The number of bits for a number of digits, before rounding: as a double,
    one digit being added for good measure. -/
def bitsAsBinary64 (digits : Nat) : Binary64 :=
  Binary64.ofInt (digits + 1) * bitsPerDigit

/-- The precision of a number of digits, of which there are at least
    `minDigits`. -/
def ofDigits (digits : Int) : Precision :=
  let digits := max minDigits digits.toNat
  ⟨digits, max 1 (divNearest (bitsAsBinary64 digits).units.natAbs Binary64.unitsInOne)⟩

/-- Why a number of digits is refused. -/
inductive Refusal
  /-- It is beyond the doubles. -/
  | digitsTooLarge
  /-- The number of bits is beyond the doubles. -/
  | bitsTooLarge
deriving DecidableEq, Repr

namespace Refusal

/-- The message for a number of digits that is refused. -/
def message : Refusal → String
  | digitsTooLarge => "int too large to convert to float"
  | bitsTooLarge => "cannot convert float infinity to integer"

end Refusal

/-- Why a number of digits is refused, if it is. -/
def refusal? (digits : Int) : Option Refusal :=
  let digits := max minDigits digits.toNat
  if !(Binary64.ofInt (digits + 1)).isFinite then some .digitsTooLarge
  else if !(bitsAsBinary64 digits).isFinite then some .bitsTooLarge
  else none

end Precision

end Calculator
