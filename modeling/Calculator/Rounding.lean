/-!
# Rounding to the nearest integer

Every rounding of the calculator, in binary or in decimal, for arithmetic or
for display, is one operation at bottom: divide two natural numbers and take
the integer nearest to the quotient, the even one of two that are equally
near.

## Main definitions

* `divNearest`: The natural number nearest to a quotient.
* `digitCount`: How many decimal digits a natural number has.
* `bitLength`: How many bits it has.

## Theorems

* `div_le_divNearest`, `divNearest_le_div_add_one`: The result is one of the
  two neighbours of the quotient.
* `divNearest_mul_self`: A quotient that is an integer is not changed.
-/

namespace Calculator

/-- The natural number nearest to `n / d`; of two equally near ones, the even
    one. -/
def divNearest (n d : Nat) : Nat :=
  if 2 * (n % d) < d || (2 * (n % d) = d && n / d % 2 = 0) then n / d else n / d + 1

/-- The number of decimal digits of a natural number; zero has one. -/
def digitCount (n : Nat) : Nat :=
  (Nat.toDigits 10 n).length

/-- The number of bits of a natural number; zero has none. -/
def bitLength (n : Nat) : Nat :=
  if n = 0 then 0 else Nat.log2 n + 1

theorem div_le_divNearest (n d : Nat) : n / d ≤ divNearest n d := by
  unfold divNearest
  split
  · exact Nat.le_refl _
  · exact Nat.le_succ _

theorem divNearest_le_div_add_one (n d : Nat) : divNearest n d ≤ n / d + 1 := by
  unfold divNearest
  split
  · exact Nat.le_succ _
  · exact Nat.le_refl _

theorem divNearest_mul_self (n d : Nat) (hd : 0 < d) : divNearest (n * d) d = n := by
  simp [divNearest, Nat.mul_mod_left, Nat.mul_div_cancel n hd, hd]

end Calculator
