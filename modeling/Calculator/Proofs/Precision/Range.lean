import Calculator.Precision.Arithmetic
import Calculator.Proofs.Precision.Constants
import Calculator.Proofs.Precision.Twice

/-!
# What stays in range at a chosen precision

The operations whose results are not checked at a chosen precision do not
leave the range of the doubles. The largest double has fewer bits than the
precision, so rounding does not go beyond it, and these operations yield at
most their operand in magnitude, or a small number. The same holds of the last
rounding of all, which is to 53 bits.

## Theorems

* `Precision.abs_nearest_le`: Rounding does not go beyond a number that has the
  bits.
* `Precision.inRange_constant`, `Precision.inRange_factorial`: Small numbers.
* `Precision.inRange_divideBy`, `Precision.inRange_toRadians`: Operations that
  make a number smaller.
* `Precision.isFinite_toBinary64`: A number in range is reported as a finite
  double.
-/

namespace Calculator

theorem abs_signedValue (negative : Bool) {r : Rat} (hr : 0 ≤ r) :
    |signedValue negative r| = r := by
  cases negative <;> simp [signedValue, abs_of_nonneg hr]

/-- What is at most a finite double is rounded to a finite double. -/
theorem Binary64.isFinite_nearest {n d r : Nat} (hd : 0 < d) (hr : r < finiteCount)
    (h : (n : Rat) / d ≤ magnitude r) (negative : Bool) :
    (nearest negative n d).isFinite = true := by
  have hrank : nearestRank n d < finiteCount := (nearestRank_le hd h).trans_lt hr
  rw [nearest, ofRank, dif_pos hrank, isFinite]

namespace Precision

variable {bits : Nat}

theorem fits_largest (hbits : 53 ≤ bits) : Fits bits ((2 ^ 53 - 1 : Nat) * 2 ^ (971 : Int)) :=
  Fits.mono hbits ⟨2 ^ 53 - 1, 971, Nat.sub_lt (Nat.two_pow_pos 53) one_pos, rfl⟩

/-- Rounding a quotient does not go beyond a number that has the bits. -/
theorem abs_nearest_le (hbits : 0 < bits) {g : Rat} (hg : Fits bits g) {n d : Nat} (hd : 0 < d)
    {shift : Int} (h : (n : Rat) / d * 2 ^ (-shift) ≤ g) (negative : Bool) :
    |(nearest bits negative n d shift).toRat| ≤ g := by
  rcases rounds_nearest hbits n hd shift with ⟨y, hy, hnearest⟩
  rw [hnearest, abs_signedValue negative hy.nonneg]
  exact hy.le_of_fits hbits hg h

theorem inRange_nearest (hbits : 53 ≤ bits) {n d : Nat} (hd : 0 < d) {shift : Int}
    (h : (n : Rat) / d * 2 ^ (-shift) ≤ (2 ^ 53 - 1 : Nat) * 2 ^ (971 : Int)) (negative : Bool) :
    inRange (nearest bits negative n d shift) = true :=
  (inRange_iff _).2 (abs_nearest_le (by omega) (fits_largest hbits) hd h negative)

theorem inRange_neg {x : Dyadic} (h : inRange x = true) : inRange (-x) = true := by
  rw [inRange_iff, Dyadic.toRat_neg, abs_neg]
  exact (inRange_iff x).1 h

theorem inRange_round (hbits : 53 ≤ bits) {x : Dyadic} (h : inRange x = true) :
    inRange (round bits x) = true := by
  cases x with
  | zero => rfl
  | ofOdd n k hn =>
    rw [inRange_iff, abs_toRat_ofOdd] at h
    exact inRange_nearest hbits one_pos (by rwa [Nat.cast_one, div_one]) _

/-- A part of a number in range is in range. -/
theorem inRange_divideBy (hbits : 53 ≤ bits) {d : Nat} (hd : 0 < d) {x : Dyadic}
    (h : inRange x = true) : inRange (divideBy bits d x) = true := by
  cases x with
  | zero => rfl
  | ofOdd n k hn =>
    rw [inRange_iff, abs_toRat_ofOdd] at h
    refine inRange_nearest hbits hd (le_trans ?_ h) _
    have hd' : (1 : Rat) ≤ d := by exact_mod_cast hd
    exact mul_le_mul_of_nonneg_right (div_le_self (Nat.cast_nonneg _) hd') (two_zpow_pos _).le

/-- A number in fixed point is rounded to at most a bound that has the bits. -/
theorem abs_ofFixed_le (hbits : 0 < bits) {b : Nat} (hb : Fits bits b) {value width : Nat}
    (h : value ≤ b * 2 ^ width) : |(ofFixed bits value width).toRat| ≤ b := by
  refine abs_nearest_le hbits hb one_pos ?_ _
  rw [Int.natAbs_natCast, Nat.cast_one, div_one, zpow_neg, ← div_eq_mul_inv,
    div_le_iff₀ (two_zpow_pos _), ← cast_two_pow]
  exact_mod_cast h

theorem fits_natCast {m : Nat} (hm : m < 2 ^ bits) : Fits bits m :=
  ⟨m, 0, hm, by rw [zpow_zero, mul_one]⟩

/-- A small number is in range. -/
theorem inRange_of_le_natCast {x : Dyadic} {m : Nat} (hm : m ≤ 2 ^ 53 - 1)
    (h : |x.toRat| ≤ m) : inRange x = true := by
  have hscale : (1 : Rat) ≤ 2 ^ (971 : Int) := one_le_zpow₀ one_le_two (by decide)
  have hm' : (m : Rat) ≤ (2 ^ 53 - 1 : Nat) := by exact_mod_cast hm
  exact (inRange_iff x).2
    (h.trans (hm'.trans (le_mul_of_one_le_right (Nat.cast_nonneg _) hscale)))

theorem inRange_constant {p : Precision} (hbits : 53 ≤ p.bits) (name : Constant) :
    inRange (constant p name) = true := by
  have hsmall : 16 < 2 ^ p.bits := (by decide : 16 < 2 ^ 53).trans_le
    (Nat.pow_le_pow_right two_pos hbits)
  cases name with
  | pi =>
    exact inRange_of_le_natCast (m := 16) (by decide)
      (abs_ofFixed_le (by omega) (fits_natCast hsmall) (Series.pi_le _))
  | e =>
    exact inRange_of_le_natCast (m := 3) (by decide)
      (abs_ofFixed_le (by omega) (fits_natCast (by omega)) (Series.e_le _))

theorem factorialOf_mono {n m : Nat} (h : n ≤ m) :
    Binary64.factorialOf n ≤ Binary64.factorialOf m := by
  induction h with
  | refl => exact Nat.le_refl _
  | step _ ih => exact ih.trans (Nat.le_mul_of_pos_left _ (Nat.succ_pos _))

theorem inRange_factorial (hbits : 53 ≤ bits) {n : Nat} (hn : n ≤ factorialLimit) :
    inRange (nearest bits false (Binary64.factorialOf n) 1 0) = true := by
  have hlast : Binary64.factorialOf factorialLimit ≤ (2 ^ 53 - 1) * 2 ^ 971 := by decide +kernel
  refine inRange_nearest hbits one_pos ?_ _
  rw [show (971 : Int) = ((971 : Nat) : Int) from rfl, ← cast_two_pow, Nat.cast_one, div_one,
    neg_zero, zpow_zero, mul_one]
  exact_mod_cast (factorialOf_mono hn).trans hlast

/-- A degree is at most one radian. -/
theorem abs_degree_le (hbits : 0 < bits) : |(degree bits).toRat| ≤ 1 := by
  have hfixed : Series.pi (bits + constantBits) / 180 ≤ 1 * 2 ^ (bits + constantBits) := by
    have := Series.pi_le (bits + constantBits)
    omega
  exact_mod_cast abs_ofFixed_le hbits
    (fits_natCast (Nat.one_lt_two_pow hbits.ne')) hfixed

/-- An angle in radians is no larger than in degrees. -/
theorem inRange_toRadians (hbits : 53 ≤ bits) {x : Dyadic} (h : inRange x = true) :
    inRange (product bits x (degree bits)) = true := by
  refine inRange_round hbits ((inRange_iff _).2 ?_)
  rw [Dyadic.toRat_mul, abs_mul]
  exact (mul_le_of_le_one_right (abs_nonneg _) (abs_degree_le (by omega))).trans
    ((inRange_iff x).1 h)

/-- A positive number in range is reported as a finite double, and so is its
    opposite. -/
theorem isFinite_toBinary64_of_pos {x : Dyadic} (hpos : 0 < x.toRat) (h : inRange x = true)
    (negative : Bool) : (toBinary64 (if negative then -x else x)).isFinite = true := by
  rcases toBinary64_eq rfl hpos with ⟨z, m, c, hz, -, hc, hm, hreport⟩
  rw [inRange_iff, abs_of_pos hpos] at h
  have hle : z ≤ (2 ^ 53 - 1 : Nat) * 2 ^ (971 : Int) :=
    hz.le_of_fits (by decide) (fits_largest le_rfl) h
  rw [hreport]
  refine Binary64.isFinite_nearest hc (Nat.sub_lt (by decide) one_pos) ?_ negative
  rw [hm, magnitude_last, cast_unitsInOne, show (2045 : Int) = 971 + 1074 from rfl,
    zpow_add₀ two_ne_zero, ← mul_assoc]
  exact mul_le_mul_of_nonneg_right hle (two_zpow_pos _).le

/-- A number in range is reported as a finite double: the rounding to 53 bits
    does not go beyond the largest one. -/
theorem isFinite_toBinary64 {x : Dyadic} (h : inRange x = true) :
    (toBinary64 x).isFinite = true := by
  rcases lt_trichotomy x.toRat 0 with hneg | hzero | hpos
  · have hpos : 0 < (-x).toRat := by
      rw [Dyadic.toRat_neg]
      exact neg_pos.2 hneg
    have hback : - -x = x :=
      Dyadic.toRat_inj.1 (by rw [Dyadic.toRat_neg, Dyadic.toRat_neg, neg_neg])
    rw [← hback]
    exact isFinite_toBinary64_of_pos hpos (inRange_neg h) true
  · obtain rfl : x = 0 := Dyadic.toRat_inj.1 (hzero.trans Dyadic.toRat_zero.symm)
    rfl
  · exact isFinite_toBinary64_of_pos hpos h false

end Precision

end Calculator
