import Calculator.Binary64.Text
import Calculator.Evaluation

/-!
# The arithmetic of doubles

Sums, differences, products, quotients and square roots are exact operations
rounded once. The other elementary functions and powers come from the
mathematical library of the machine; the bits of a double are handed over and
the bits of the result are taken back.

An operation without a real result gives none: a quotient by zero, a square
root of a negative number, a logarithm of a number that is not positive.
Elsewhere the library answers with NaN or an infinity, and the check for
finite values sees it.

## Main definitions

* `Binary64.toBits`, `Binary64.ofBits`: The patterns of bits.
* `Binary64.viaFloat`: A function of the library on doubles.
* `Binary64.arithmetic`: The arithmetic of doubles.

## Theorems

* `Binary64.ofBits_toBits`: The bits of a double determine it.
-/

namespace Calculator

-- A power is that of the core library, whatever else is imported.
attribute [local instance (high)] instPowNat

namespace Binary64

/-- The weight of the sign bit. -/
def signBit : Nat :=
  2 ^ (63 : Nat)

/-- The bits of a magnitude: its rank, or what follows the last rank. -/
def magnitudeBits : Binary64 → Nat
  | finite _ rank => rank
  | infinite _ => finiteCount
  | nan => finiteCount + 2 ^ (51 : Nat)

/-- The pattern of bits of a double; NaN has the quiet pattern without a
    sign. -/
def toBits (x : Binary64) : Nat :=
  if x.isNegative then signBit + x.magnitudeBits else x.magnitudeBits

/-- The double of a sign and the bits of a magnitude. -/
def ofMagnitudeBits (negative : Bool) (bits : Nat) : Binary64 :=
  if bits ≤ finiteCount then ofRank negative bits else nan

/-- The double of a pattern of bits. -/
def ofBits (bits : Nat) : Binary64 :=
  if bits < signBit then ofMagnitudeBits false bits else ofMagnitudeBits true (bits - signBit)

theorem ofBits_toBits (x : Binary64) : ofBits x.toBits = x := by
  cases x with
  | nan => decide +kernel
  | infinite negative => cases negative <;> decide +kernel
  | finite negative rank =>
    have hr : rank.val < finiteCount := rank.isLt
    have hs : rank.val < signBit := Nat.lt_trans hr (by decide +kernel)
    cases negative
    · change (if rank.val < signBit then ofMagnitudeBits false rank.val else _) = _
      rw [if_pos hs, ofMagnitudeBits, if_pos (Nat.le_of_lt hr), ofRank, dif_pos hr]
    · change (if signBit + rank.val < signBit then _
        else ofMagnitudeBits true (signBit + rank.val - signBit)) = _
      rw [if_neg (Nat.not_lt.2 (Nat.le_add_right _ _)), Nat.add_sub_cancel_left, ofMagnitudeBits,
        if_pos (Nat.le_of_lt hr), ofRank, dif_pos hr]

/-- The double as a number of the machine. -/
def toFloat (x : Binary64) : Float :=
  Float.ofBits (UInt64.ofNat x.toBits)

/-- The double that a number of the machine is. -/
def ofFloat (x : Float) : Binary64 :=
  ofBits x.toBits.toNat

/-- A function of the library on doubles. -/
def viaFloat (f : Float → Float) (x : Binary64) : Binary64 :=
  ofFloat (f x.toFloat)

/-- The double nearest to the half circumference of the unit circle. -/
def pi : Binary64 :=
  ofDecimal false ⟨3141592653589793, -15⟩

/-- The double nearest to the base of the natural logarithm. -/
def e : Binary64 :=
  ofDecimal false ⟨2718281828459045, -15⟩

/-- A quotient, unless the divisor is zero. -/
def quotient? (x y : Binary64) : Option Binary64 :=
  if y.units = 0 then none else some (x / y)

/-- An operation between two doubles. -/
def binary? (op : BinaryOp) (x y : Binary64) : Option Binary64 :=
  match op with
  | .add => some (x + y)
  | .sub => some (x - y)
  | .mul => some (x * y)
  | .div => quotient? x y
  | .pow => some (ofFloat (x.toFloat.pow y.toFloat))

/-- A logarithm, of positive numbers only. -/
def logarithm? (f : Float → Float) (x : Binary64) : Option Binary64 :=
  if 0 < x.units then some (viaFloat f x) else none

/-- An elementary function of a double. -/
def elementary? (function : Elementary) (x : Binary64) : Option Binary64 :=
  match function with
  | .sin => some (viaFloat Float.sin x)
  | .cos => some (viaFloat Float.cos x)
  | .tan => some (viaFloat Float.tan x)
  | .asin => some (viaFloat Float.asin x)
  | .acos => some (viaFloat Float.acos x)
  | .atan => some (viaFloat Float.atan x)
  | .log => logarithm? Float.log10 x
  | .ln => logarithm? Float.log x
  | .sqrt => if x.units < 0 then none else some x.sqrt

/-- The product of the natural numbers up to `n`. -/
def factorialOf : Nat → Nat
  | 0 => 1
  | n + 1 => (n + 1) * factorialOf n

/-- A straight angle in degrees. -/
def straight : Binary64 :=
  ofInt 180

/-- The arithmetic of doubles. -/
def arithmetic : Arithmetic Binary64 where
  number := fun numeral => some (ofNumeral numeral)
  constant := fun name => match name with
    | .pi => pi
    | .e => e
  negate := fun x => -x
  percent := fun x => x / ofInt 100
  binary := binary?
  apply := elementary?
  toRadians := fun x => x * (pi / straight)
  toDegrees := fun x => x * (straight / pi)
  integer? := integer?
  factorial := fun n => ofInt (factorialOf n)
  isFinite := isFinite
  toBinary64 := id

end Binary64

end Calculator
