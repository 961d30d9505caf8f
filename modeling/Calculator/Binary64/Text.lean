import Calculator.Binary64.Basic
import Calculator.Numeral

/-!
# Doubles as text

A double is written with the fewest decimal digits that read back as the same
double, the nearest such decimal being taken. The search asks the reader
itself: for one digit, two digits and so on up to seventeen it tries the two
decimals of that many digits between which the value lies. Seventeen digits
are always enough, and behind them stands the exact decimal expansion, which
needs no argument.

The same digits are laid out in two ways. The text of a double uses an
exponent for very large and very small numbers and otherwise always shows a
point. The literal of a double never uses an exponent, so that it can be put
back into a formula.

## Main definitions

* `Binary64.ofNumeral`: The double nearest to a numeral.
* `Binary64.shortest`: The fewest digits that read back as a magnitude.
* `Binary64.text`: The text of a double.
* `Binary64.literal?`: The text of a finite double as a signed numeral.
-/

namespace Calculator

-- A power is that of the core library, whatever else is imported.
attribute [local instance (high)] instPowNat

namespace Binary64

/-- The double nearest to the number that a numeral denotes. -/
def ofNumeral (n : Numeral) : Binary64 :=
  ofDecimal false n.decimal

/-- The largest number of digits that the search tries. -/
def maxDigits : Nat := 17

/-- The decimals that come into question for a rank, by the number of their
    digits, the nearer one first. -/
def candidates (rank : Nat) : List Decimal :=
  let units := magnitude rank
  let leading := leadingExponent units unitsInOne
  (List.range maxDigits).flatMap fun (n : Nat) =>
    Decimal.neighbours units unitsInOne (leading - (n : Int))

/-- The exact decimal expansion at a rank. -/
def expansion (rank : Nat) : Decimal :=
  ⟨magnitude rank * 5 ^ (1074 : Nat), -1074⟩

/-- The fewest digits that read back as the double of a rank. -/
def shortest (rank : Fin finiteCount) : Decimal :=
  if rank.val = 0 then ⟨0, 0⟩
  -- Fewer digits are tried first, and of two decimals the nearer one.
  else (((candidates rank).find? fun x => ofDecimal false x = finite false rank).getD
    (expansion rank)).stripZeros

/-- Whether a number is written without an exponent: from `10 ^ -4` to below
    `10 ^ 16`, and zero. -/
def isPlain (x : Decimal) : Bool :=
  -4 ≤ x.leading && x.leading < 16

/-- A decimal without an exponent and always with a point. -/
def plainText (x : Decimal) : List Char :=
  if 0 ≤ x.exponent then x.positional ++ ['.', '0'] else x.positional

/-- A text with a minus sign in front if it belongs to a negative number. -/
def withSign (negative : Bool) (text : List Char) : List Char :=
  if negative then '-' :: text else text

/-- The text of a double: the fewest digits that read back, with an exponent
    only outside the plain range. -/
def text : Binary64 → List Char
  | nan => ['n', 'a', 'n']
  | infinite negative => withSign negative ['i', 'n', 'f']
  | finite negative rank =>
    let x := shortest rank
    withSign negative (if isPlain x then plainText x else x.scientific)

/-- The literal of a finite double: the digits and the sign of its text,
    without an exponent. -/
def literal? : Binary64 → Option (List Char)
  | finite negative rank =>
    let x := shortest rank
    some (withSign negative (if isPlain x then plainText x else x.positional))
  | _ => none

end Binary64

end Calculator
