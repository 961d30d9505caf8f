import Calculator.Binary64.Text

/-!
# Results on display

A result is displayed shorter than it is known. An integer below `10 ^ 15` is
shown in full. Of other numbers, those from `10 ^ 9` on and those below
`10 ^ -6` get an exponent and five or seven digits. All between them are
rounded to ten places, and zeros at the end are dropped.

Rounding to ten places happens twice: first to the double nearest to the
rounded number, and then of that double once more to ten places.

## Main definitions

* `Binary64.display`: The text of a result on display.
* `DisplayError`: Why a double cannot be displayed.
-/

namespace Calculator

-- A power is that of the core library, whatever else is imported.
attribute [local instance (high)] instPowNat

/-- Why a double cannot be displayed. -/
inductive DisplayError
  /-- It is an infinity. -/
  | infinite
  /-- It is no number. -/
  | undefined
deriving DecidableEq, Repr

namespace DisplayError

/-- The message for a double that cannot be displayed. -/
def message : DisplayError → String
  | infinite => "cannot convert float infinity to integer"
  | undefined => "cannot convert float NaN to integer"

end DisplayError

namespace Decimal

/-- The decimal of a given number of digits nearest to `n / d`; a value that
    is rounded up to the next power of ten loses its last zero again. -/
def significant (n d digits : Nat) : Decimal :=
  let x := nearest n d (leadingExponent n d - digits + 1)
  if x.coefficient = 10 ^ digits then ⟨10 ^ (digits - 1), x.exponent + 1⟩ else x

end Decimal

namespace Binary64

/-- How many places are shown at most. -/
def shownPlaces : Nat := 10

/-- A number with a point, without the zeros at its end, and without the point
    if nothing is left behind it. -/
def dropTrailing (text : List Char) : List Char :=
  ((text.reverse.dropWhile (· = '0')).dropWhile (· = '.')).reverse

/-- The double nearest to a number rounded to the places shown. -/
def roundToShown (negative : Bool) (rank : Nat) : Binary64 :=
  ofDecimal negative (Decimal.nearest (magnitude rank) unitsInOne (-shownPlaces))

/-- The magnitude of a number with all the places shown. -/
def shownText (x : Binary64) : List Char :=
  Decimal.pointed (Decimal.nearest x.units.natAbs unitsInOne (-shownPlaces)).digits shownPlaces

/-- An integer in decimal. -/
def integerText (n : Int) : List Char :=
  withSign (n < 0) (Nat.toDigits 10 n.natAbs)

/-- A finite double that is not shown as an integer: with an exponent if it is
    large or small, and else rounded to the places shown. -/
def fractionText (negative : Bool) (rank : Nat) : List Char :=
  let units := magnitude rank
  withSign negative <|
    if 10 ^ (9 : Nat) * unitsInOne ≤ units then (Decimal.significant units unitsInOne 5).scientific
    -- The lower bound is the double nearest to a millionth, not the millionth.
    else if (units : Int) < (ofDecimal false ⟨1, -6⟩).units then
      (Decimal.significant units unitsInOne 7).scientific
    else dropTrailing (shownText (roundToShown negative rank))

/-- The text of a result on display. -/
def display : Binary64 → Except DisplayError (List Char)
  | nan => .error .undefined
  | infinite _ => .error .infinite
  | x@(finite negative rank) =>
    match x.integer? with
    | some n =>
      .ok (if n.natAbs < 10 ^ (15 : Nat) then integerText n else fractionText negative rank)
    | none => .ok (fractionText negative rank)

end Binary64

end Calculator
