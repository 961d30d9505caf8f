import Calculator.Precision.Elementary

/-!
# Powers of chosen precision

A power is computed in the most exact way that its exponent admits. With an
integer it is a repeated product: exact where the result is short, and else by
repeated squaring with a working width that leaves room for the truncation of
each product. With half an integer it is an integral power of a square root.
Any other power is an exponential of a logarithm, and that of a negative
number does not exist.

## Main definitions

* `Precision.naturalPower`: A power with a natural number.
* `Precision.integerPower?`: A power with an integer.
* `Precision.exp`: The exponential.
* `Precision.power?`: A power.
-/

namespace Calculator

-- A power is that of the core library, whatever else is imported.
attribute [local instance (high)] instPowNat

namespace Precision

/-- A magnitude `mantissa * 2 ^ exponent` on its way to a power. -/
structure Scaled where
  /-- The bits. -/
  mantissa : Nat
  /-- The power of two of the last bit. -/
  exponent : Int
deriving DecidableEq, Repr

/-- A product, truncated to a width. -/
def Scaled.mul (width : Nat) (x y : Scaled) : Scaled :=
  let mantissa := x.mantissa * y.mantissa
  let excess := bitLength mantissa - width
  ⟨mantissa / 2 ^ excess, x.exponent + y.exponent + excess⟩

/-- The product of `result` and the `n`-th power of `base`, for positive `n`,
    every product being truncated to a width. -/
def powerLoop (width n : Nat) (result base : Scaled) : Scaled :=
  if n ≤ 1 then result.mul width base
  else
    powerLoop width (n / 2) (if n % 2 = 1 then result.mul width base else result)
      (base.mul width base)
termination_by n

/-- A power with a natural number. It is rounded from the exact power for the
    exponents up to two and wherever that has less than a thousand bits; the
    powers of powers of two are exact however long their exponents. -/
def naturalPower (bits : Nat) (x : Dyadic) (n : Nat) : Dyadic :=
  match x with
  | .zero => if n = 0 then 1 else .zero
  | .ofOdd m k _ =>
    let negative := m < 0 && n % 2 = 1
    -- The magnitude is a power of two, and no bits are lost.
    if m.natAbs = 1 then Dyadic.ofIntWithPrec (if negative then -1 else 1) (k * n)
    else if n ≤ 2 || bitLength m.natAbs * n < 1000 then
      nearest bits negative (m.natAbs ^ n) 1 (k * n)
    else
      -- Each bit of the exponent costs at most two truncations.
      let width := bits + 4 * bitLength n + 4
      let power := powerLoop width n ⟨1, 0⟩ ⟨m.natAbs, -k⟩
      nearest bits negative power.mantissa 1 (-power.exponent)

/-- A power with an integer. A negative exponent takes the inverse of a power
    that has five bits more, and of zero there is none. -/
def integerPower? (bits : Nat) (x : Dyadic) (n : Int) : Option Dyadic :=
  match n with
  | .ofNat n => some (naturalPower bits x n)
  | .negSucc 0 => quotient? bits 1 x
  | .negSucc (n + 1) => quotient? bits 1 (naturalPower (bits + 5) x (n + 2))

/-- The exponential. At large precisions that of an integer is a power of a
    truncated base, which has some bits more for every bit of the integer. -/
def exp (bits : Nat) (x : Dyadic) : Dyadic :=
  match integer? x with
  | some 0 => 1
  | some n =>
    if 600 < bits then
      let wide := bits + 14 + 29 * (size x).toNat / 20
      (integerPower? bits (truncated wide false (Series.e (wide + constantBits)) 1
        (wide + constantBits)) n).getD 1
    else expBySeries bits x
  | none => expBySeries bits x

/-- A power with half an odd integer. -/
def halfPower? (bits : Nat) (x : Dyadic) (n : Int) : Option Dyadic :=
  if n = 1 then sqrt? bits x
  else do
    let root ← sqrt? (bits + 10) x
    integerPower? bits root n

/-- A power. -/
def power? (bits : Nat) (x y : Dyadic) : Option Dyadic :=
  match integer? y, y with
  | some n, _ => integerPower? bits x n
  | none, .zero => none
  | none, .ofOdd n k _ =>
    if isNegative x then none
    -- With one bit behind the point, the exponent is half an odd integer.
    else if k = 1 then halfPower? bits x n
    else if x = .zero then (if n < 0 then none else some .zero)
    else (ln? (bits + 10) x).map fun ln => exp bits (y * ln)

end Precision

end Calculator
