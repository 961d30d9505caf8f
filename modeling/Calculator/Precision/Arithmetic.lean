import Calculator.Binary64.Elementary
import Calculator.Precision.Power

/-!
# The arithmetic of a chosen precision

A number literal is rounded to the precision, unless it has more characters
than there are digits: then it is taken to be the decimal text of a double,
and that double is meant. What is rounded is read as an integer first, so it
is not read at all if it has too many digits for one. What is meant as a
double may have any number of them.

The range of values is that of the doubles, although the numbers themselves
have none: what is larger than the largest double is not finite. Small values
do not underflow until a result is reported.

## Main definitions

* `Precision.ofNumeral`: The value of a number literal.
* `Precision.reads`: Whether it is read.
* `Precision.arithmetic`: The arithmetic of a precision.

## Theorems

* `Precision.reads_of_length_le`: A numeral that is not too long is read.
* `Precision.number_of_reads`: What is read has a value.
-/

namespace Calculator

namespace Precision

/-- The value of a number literal. -/
def ofNumeral (p : Precision) (numeral : Numeral) : Dyadic :=
  if p.digits < numeral.text.length then ofBinary64 (Binary64.ofNumeral numeral)
  else nearest p.bits false numeral.decimal.numerator numeral.decimal.denominator 0

/-- Whether a number literal is read. -/
def reads (p : Precision) (numeral : Numeral) : Bool :=
  p.digits < numeral.text.length || numeral.digits.length ≤ Text.maxIntegerDigits

/-- The value of a constant. -/
def constant (p : Precision) : Constant → Dyadic
  | .pi => pi p.bits
  | .e => e p.bits

/-- An operation between two values. -/
def binary? (p : Precision) (op : BinaryOp) (x y : Dyadic) : Option Dyadic :=
  match op with
  | .add => some (sum p.bits x y)
  | .sub => some (sum p.bits x (-y))
  | .mul => some (product p.bits x y)
  | .div => quotient? p.bits x y
  | .pow => power? p.bits x y

/-- The values of elementary functions that are exact at any precision. -/
def exactly? (function : Elementary) (x : Dyadic) : Option Dyadic :=
  match function with
  | .sin | .tan | .asin | .atan => if x = .zero then some .zero else none
  | .cos => if x = .zero then some 1 else none
  | .acos | .ln => if x = 1 then some .zero else none
  | .sqrt => exactSqrt? x
  | .log => none

/-- An elementary function of a value, computed to the precision. -/
def computed? (p : Precision) (function : Elementary) (x : Dyadic) : Option Dyadic :=
  match function with
  | .sin => some (sin p.bits x)
  | .cos => some (cos p.bits x)
  | .tan => tan? p.bits x
  | .asin => asin? p.bits x
  | .acos => acos? p.bits x
  | .atan => some (atan p.bits x)
  | .log => log? p.bits x
  | .ln => ln? p.bits x
  | .sqrt => sqrt? p.bits x

/-- An elementary function of a value. -/
def elementary? (p : Precision) (function : Elementary) (x : Dyadic) : Option Dyadic :=
  match exactly? function x with
  | some y => some y
  | none => if p.bits ≤ maxBits then computed? p function x else none

/-- The quotient by a natural number that is not zero. -/
def divideBy (bits d : Nat) (x : Dyadic) : Dyadic :=
  match x with
  | .zero => .zero
  | .ofOdd n k _ => nearest bits (n < 0) n.natAbs d k

/-- The quotient by the size of a degree. -/
def toDegrees (bits : Nat) (x : Dyadic) : Dyadic :=
  (quotient? bits x (degree bits)).getD .zero

/-- The arithmetic of a precision. -/
def arithmetic (p : Precision) : Arithmetic Dyadic where
  number := fun numeral => if p.reads numeral then some (ofNumeral p numeral) else none
  constant := constant p
  negate := fun x => -x
  percent := divideBy p.bits 100
  binary := binary? p
  apply := elementary? p
  toRadians := fun x => product p.bits x (degree p.bits)
  toDegrees := toDegrees p.bits
  integer? := integer?
  factorial := fun n => nearest p.bits false (Binary64.factorialOf n) 1 0
  isFinite := inRange
  toBinary64 := toBinary64

section

variable {p : Precision} {numeral : Numeral}

theorem reads_of_length_le (h : numeral.digits.length ≤ Text.maxIntegerDigits) :
    p.reads numeral = true := by
  simp [reads, h]

theorem number_of_reads (h : p.reads numeral = true) :
    p.arithmetic.number numeral = some (ofNumeral p numeral) :=
  if_pos h

theorem number_of_not_reads (h : ¬p.reads numeral = true) : p.arithmetic.number numeral = none :=
  if_neg h

end

end Precision

end Calculator
