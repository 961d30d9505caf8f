import Calculator.Rounding

/-!
# Decimal numbers

A decimal number is a natural coefficient with a power of ten. Signs are kept
outside: the numbers here are magnitudes. There are two ways to write one out.
The positional way has no exponent and puts as many zeros as it takes; the
scientific way puts the point after the first digit.

A quotient of two natural numbers has a decimal nearest to it at every power
of ten, and a leading power of ten. Both are exact: nothing is estimated by
logarithms.

## Main definitions

* `Decimal`: A coefficient and a power of ten.
* `Decimal.numerator`, `Decimal.denominator`: Its value as a quotient.
* `Decimal.positional`: The text without an exponent.
* `Decimal.scientific`: The text with an exponent.
* `leadingExponent`: The power of ten of the first digit of a quotient.
* `Decimal.nearest`: The decimal nearest to a quotient at a power of ten.
* `Decimal.stripZeros`: The same number without zeros at the end.
-/

namespace Calculator

-- A power is that of the core library, whatever else is imported.
attribute [local instance (high)] instPowNat

/-- The magnitude `coefficient * 10 ^ exponent`. -/
structure Decimal where
  /-- The digits, read as one natural number. -/
  coefficient : Nat
  /-- The power of ten of the last digit. -/
  exponent : Int
deriving DecidableEq, Repr

/-- The power of ten of the first digit of `n / d`, for positive `n` and `d`.
    Above one it is read off the integral part; below one, off the integral
    part of the inverse, where one less than the denominator makes an exact
    power of ten fall on the right side. -/
def leadingExponent (n d : Nat) : Int :=
  if d ≤ n then (digitCount (n / d) : Int) - 1 else -(digitCount ((d - 1) / n) : Int)

namespace Decimal

/-- The numerator of the value, over `denominator`. -/
def numerator (x : Decimal) : Nat :=
  x.coefficient * 10 ^ x.exponent.toNat

/-- The denominator of the value: a power of ten, and one for an integer. -/
def denominator (x : Decimal) : Nat :=
  10 ^ (-x.exponent).toNat

/-- The quotient `n / d` measured in units of `10 ^ exponent`, as a numerator
    and a denominator. -/
def scaled (n d : Nat) (exponent : Int) : Nat × Nat :=
  (n * 10 ^ (-exponent).toNat, d * 10 ^ exponent.toNat)

/-- The decimal nearest to `n / d` whose last digit stands at a power of ten. -/
def nearest (n d : Nat) (exponent : Int) : Decimal :=
  ⟨divNearest (scaled n d exponent).1 (scaled n d exponent).2, exponent⟩

/-- The two decimals at a power of ten between which `n / d` lies, the nearest
    one first. -/
def neighbours (n d : Nat) (exponent : Int) : List Decimal :=
  let below := (scaled n d exponent).1 / (scaled n d exponent).2
  -- If the nearest one is the lower neighbour, the other one is the upper.
  let near := (nearest n d exponent).coefficient
  [⟨near, exponent⟩, ⟨if near = below then below + 1 else below, exponent⟩]

/-- Move the zeros at the end of a coefficient into the exponent, as long as
    the fuel lasts. -/
def stripZerosFor : Nat → Nat → Int → Decimal
  | 0, coefficient, exponent => ⟨coefficient, exponent⟩
  | fuel + 1, coefficient, exponent =>
    if coefficient % 10 = 0 then stripZerosFor fuel (coefficient / 10) (exponent + 1)
    else ⟨coefficient, exponent⟩

/-- The same number without zeros at the end of its coefficient. -/
def stripZeros (x : Decimal) : Decimal :=
  if x.coefficient = 0 then ⟨0, 0⟩
  else stripZerosFor (digitCount x.coefficient) x.coefficient x.exponent

/-- The digits of the coefficient. -/
def digits (x : Decimal) : List Char :=
  Nat.toDigits 10 x.coefficient

/-- The power of ten of the first digit of the coefficient. -/
def leading (x : Decimal) : Int :=
  x.exponent + x.digits.length - 1

/-- Digits with a point before the last `places` of them, zeros being put in
    front so that at least one digit precedes the point. -/
def pointed (digits : List Char) (places : Nat) : List Char :=
  let padded := List.replicate (places + 1 - digits.length) '0' ++ digits
  padded.take (padded.length - places) ++ '.' :: padded.drop (padded.length - places)

/-- The text without an exponent. It has a point exactly if the last digit of
    the coefficient stands after one. -/
def positional (x : Decimal) : List Char :=
  if 0 ≤ x.exponent then Nat.toDigits 10 x.numerator
  else pointed x.digits (-x.exponent).toNat

/-- An exponent as it stands after its mark: with its sign and at least two
    digits. -/
def exponentText (exponent : Int) : List Char :=
  let digits := Nat.toDigits 10 exponent.natAbs
  (if exponent < 0 then '-' else '+') :: (List.replicate (2 - digits.length) '0' ++ digits)

/-- The text with an exponent: the first digit, the others after a point if
    there are any, and the power of ten of the first. -/
def scientific (x : Decimal) : List Char :=
  let mantissa := match x.digits with
    | first :: second :: rest => first :: '.' :: second :: rest
    | digits => digits
  mantissa ++ 'e' :: exponentText x.leading

end Decimal

end Calculator
