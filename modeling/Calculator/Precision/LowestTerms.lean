/-!
# Dyadic numbers in lowest terms

A dyadic number is an odd integer times a power of two. An integer with
millions of bits may end in millions of zeros, as a rounded product of a
quotient and its divisor does. To drop these zeros one by one takes a time
that grows with the square of their number, so they are counted and dropped at
once: subtracting one from a number flips its last one and the zeros behind
it, and nothing else.

## Main definitions

* `Precision.zerosBehind`: The number of zeros behind the last one.
* `Precision.inLowestTerms`: An integer times a power of two.
* `Precision.exactSum`: The sum of dyadic numbers.

## Theorems

* `Precision.two_pow_zerosBehind_dvd`: Behind the last one are only zeros.
* `Precision.inLowestTerms_eq`, `Precision.exactSum_eq`: The numbers are those
  of the usual definitions.
-/

namespace Calculator

-- A power is that of the core library, whatever else is imported.
attribute [local instance (high)] instPowNat

namespace Precision

/-- The number of zeros behind the last one of a number; zero has none. -/
def zerosBehind (n : Nat) : Nat :=
  Nat.log2 (n ^^^ (n - 1))

theorem zerosBehind_of_odd (n : Nat) (odd : n % 2 = 1) : zerosBehind n = 0 := by
  have upper : (n ^^^ (n - 1)) / 2 = 0 := by
    rw [Nat.xor_div_two, show (n - 1) / 2 = n / 2 by omega, Nat.xor_self]
  rw [zerosBehind, Nat.log2_def, if_neg (by omega)]

theorem zerosBehind_of_even (n : Nat) (pos : 0 < n) (even : n % 2 = 0) :
    zerosBehind n = zerosBehind (n / 2) + 1 := by
  have upper : (n ^^^ (n - 1)) / 2 = n / 2 ^^^ (n / 2 - 1) := by
    rw [Nat.xor_div_two, show (n - 1) / 2 = n / 2 - 1 by omega]
  have distinct : n / 2 ^^^ (n / 2 - 1) ≠ 0 := fun h => by
    have same := congrArg (· ^^^ (n / 2 - 1)) h
    simp only [Nat.xor_assoc, Nat.xor_self, Nat.xor_zero, Nat.zero_xor] at same
    omega
  rw [zerosBehind, Nat.log2_def, if_pos (by omega), upper, zerosBehind]

theorem two_pow_zerosBehind_dvd (n : Nat) : 2 ^ zerosBehind n ∣ n := by
  induction n using Nat.strongRecOn with
  | _ n ih =>
    rcases Nat.mod_two_eq_zero_or_one n with even | odd
    · rcases Nat.eq_zero_or_pos n with rfl | pos
      · exact Nat.dvd_zero _
      · have half := Nat.mul_dvd_mul_right (ih (n / 2) (by omega)) 2
        rwa [Nat.div_mul_cancel (Nat.dvd_of_mod_eq_zero even), ← Nat.pow_succ,
          Nat.succ_eq_add_one, ← zerosBehind_of_even n pos even] at half
    · simp [zerosBehind_of_odd n odd]

/-- The number `n * 2 ^ -k`. -/
def inLowestTerms (n k : Int) : Dyadic :=
  let zeros := zerosBehind n.natAbs
  Dyadic.ofIntWithPrec (n >>> zeros) (k - zeros)

theorem inLowestTerms_eq (n k : Int) : inLowestTerms n k = Dyadic.ofIntWithPrec n k := by
  have divides : (2 : Int) ^ zerosBehind n.natAbs ∣ n :=
    Int.dvd_natAbs.1 (by exact_mod_cast two_pow_zerosBehind_dvd n.natAbs)
  have shifted := @Dyadic.ofIntWithPrec_shiftLeft_add (n >>> zerosBehind n.natAbs)
    (k - zerosBehind n.natAbs) (zerosBehind n.natAbs)
  rw [Int.shiftRight_shiftLeft_cancel divides, Int.sub_add_cancel] at shifted
  exact shifted.symm

/-- The sum. Only where both numbers end at the same bit can it end in zeros. -/
def exactSum (x y : Dyadic) : Dyadic :=
  match x, y with
  | .ofOdd n k _, .ofOdd m j _ => if k = j then inLowestTerms (n + m) k else x + y
  | _, _ => x + y

theorem exactSum_eq (x y : Dyadic) : exactSum x y = x + y := by
  unfold exactSum
  split
  · split
    · subst_vars
      rw [inLowestTerms_eq]
      change _ = Dyadic.add _ _
      simp [Dyadic.add]
    · rfl
  · rfl

end Precision

end Calculator
