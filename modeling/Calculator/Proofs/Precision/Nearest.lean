import Calculator.Proofs.Precision.Rounding
import Mathlib.Data.Nat.Cast.Field
import Mathlib.Tactic.FieldSimp

/-!
# Dyadic numbers rounded

The roundings of dyadic numbers are roundings to significant bits. The leading
bit of a dyadic number tells its size, and the shortcuts that are taken by it,
for numbers far outside the range of the doubles, decide what the exact
computation would.

## Theorems

* `Precision.rounds_nearest`: A quotient is rounded to significant bits.
* `Precision.rounds_round`: So is a dyadic number.
* `Precision.leadingBit_bounds`: The leading bit tells the size.
* `Precision.toNearestBinary64_eq`: A dyadic number as a double.
* `Precision.inRange_iff`: The magnitudes up to the largest double are in range.
-/

namespace Calculator

namespace Precision

theorem toRat_inLowestTerms (n k : Int) : (inLowestTerms n k).toRat = n * 2 ^ (-k) := by
  rw [inLowestTerms_eq, Dyadic.toRat_ofIntWithPrec_eq_mul_two_pow]

theorem signedValue_mul (negative : Bool) (x c : Rat) :
    signedValue negative x * c = signedValue negative (x * c) := by
  cases negative with
  | false => rfl
  | true => exact neg_mul x c

/-- An integer has all its bits above the ones that are dropped. -/
theorem log2_bounds {q bits : Nat} (hbits : 0 < bits) (hq : bits ≤ Nat.log2 q) :
    2 ^ (bits - 1) ≤ q / 2 ^ (Nat.log2 q + 1 - bits) ∧
      q / 2 ^ (Nat.log2 q + 1 - bits) < 2 ^ bits := by
  have hne : q ≠ 0 := by
    rintro rfl
    rw [Nat.log2_zero] at hq
    omega
  constructor
  · rw [Nat.le_div_iff_mul_le (Nat.two_pow_pos _), ← Nat.pow_add,
      show bits - 1 + (Nat.log2 q + 1 - bits) = Nat.log2 q by omega]
    exact Nat.log2_self_le hne
  · rw [Nat.div_lt_iff_lt_mul (Nat.two_pow_pos _), ← Nat.pow_add,
      show bits + (Nat.log2 q + 1 - bits) = Nat.log2 q + 1 by omega]
    exact Nat.lt_log2_self

/-- A dyadic number is rounded by dropping the bits that it has too many. -/
theorem rounds_dyadic {bits : Nat} (hbits : 0 < bits) (n t : Nat) (shift : Int) :
    Rounds bits ((n : Rat) / (2 ^ t : Nat) * 2 ^ (-shift))
      (divNearest n (2 ^ (Nat.log2 n + 1 - bits)) *
        2 ^ (-(shift + t - (Nat.log2 n + 1 - bits : Nat)))) := by
  refine ⟨n, 2 ^ (Nat.log2 n + 1 - bits), _, Nat.two_pow_pos _, ?_, rfl, ?_⟩
  · have hexp : -(shift + t - ((Nat.log2 n + 1 - bits : Nat) : Int)) =
        ((Nat.log2 n + 1 - bits : Nat) : Int) + (-(t : Int) + -shift) := by omega
    rw [hexp, zpow_add₀ two_ne_zero, zpow_add₀ two_ne_zero, zpow_natCast,
      zpow_neg _ (t : Int), zpow_natCast]
    push_cast
    field_simp
  · rcases Nat.lt_or_ge (Nat.log2 n) bits with h | h
    · exact .inl (by rw [show Nat.log2 n + 1 - bits = 0 by omega, Nat.pow_zero])
    · exact .inr (log2_bounds hbits h)

/-- Any other quotient is widened first, until the integral part has all the
    bits. -/
theorem rounds_widened {bits : Nat} (hbits : 0 < bits) {n d : Nat} (hn : 0 < n) (hd : 0 < d)
    (shift : Int) :
    let extra := bits + Nat.log2 d + 1 - Nat.log2 n
    let drop := Nat.log2 (n * 2 ^ extra / d) + 1 - bits
    Rounds bits ((n : Rat) / d * 2 ^ (-shift))
      (divNearest (n * 2 ^ extra) (d * 2 ^ drop) * 2 ^ (-(shift + extra - drop))) := by
  intro extra drop
  -- The numerator has more bits than the denominator by at least the bits.
  have hwide : 2 ^ bits ≤ n * 2 ^ extra / d := by
    rw [Nat.le_div_iff_mul_le hd]
    have hlow := Nat.log2_self_le hn.ne'
    have hhigh := Nat.lt_log2_self (n := d)
    calc 2 ^ bits * d ≤ 2 ^ bits * 2 ^ (Nat.log2 d + 1) := Nat.mul_le_mul_left _ hhigh.le
      _ = 2 ^ (bits + Nat.log2 d + 1) := by rw [← Nat.pow_add, Nat.add_assoc]
      _ ≤ 2 ^ (Nat.log2 n + extra) := Nat.pow_le_pow_right (by decide) (by omega)
      _ ≤ n * 2 ^ extra := by
        rw [Nat.pow_add]
        exact Nat.mul_le_mul_right _ hlow
  have hlog : bits ≤ Nat.log2 (n * 2 ^ extra / d) :=
    (Nat.le_log2 (by have := Nat.two_pow_pos bits; omega)).2 hwide
  refine ⟨n * 2 ^ extra, d * 2 ^ drop, _, Nat.mul_pos hd (Nat.two_pow_pos _), ?_, rfl, .inr ?_⟩
  · have hexp : -(shift + extra - drop) = (drop : Int) + (-(extra : Int) + -shift) := by omega
    have hd' : (d : Rat) ≠ 0 := by exact_mod_cast hd.ne'
    rw [hexp, zpow_add₀ two_ne_zero, zpow_add₀ two_ne_zero, zpow_natCast,
      zpow_neg _ (extra : Int), zpow_natCast]
    push_cast
    field_simp
  · rw [← Nat.div_div_eq_div_mul]
    exact log2_bounds hbits hlog

/-- A quotient is rounded to significant bits, alike for both signs. -/
theorem rounds_nearest {bits : Nat} (hbits : 0 < bits) (n : Nat) {d : Nat} (hd : 0 < d)
    (shift : Int) :
    ∃ y, Rounds bits ((n : Rat) / d * 2 ^ (-shift)) y ∧
      ∀ negative, (nearest bits negative n d shift).toRat = signedValue negative y := by
  have hg : 0 < Nat.gcd n d := Nat.gcd_pos_of_pos_right n hd
  have hd' : 0 < d / Nat.gcd n d := Nat.div_pos (Nat.gcd_le_right n hd) hg
  have hquot : (n : Rat) / d = ((n / Nat.gcd n d : Nat) : Rat) / (d / Nat.gcd n d : Nat) := by
    rw [Nat.cast_div (Nat.gcd_dvd_left n d) (by exact_mod_cast hg.ne'),
      Nat.cast_div (Nat.gcd_dvd_right n d) (by exact_mod_cast hg.ne'),
      div_div_div_cancel_right₀ (by exact_mod_cast hg.ne')]
  rw [hquot]
  -- In lowest terms a divisor that is a power of two is told by its leading bit.
  simp only [nearest, quotientBy]
  split
  · rename_i hpow
    have hrounds := rounds_dyadic hbits (n / Nat.gcd n d) (Nat.log2 (d / Nat.gcd n d)) shift
    rw [← hpow] at hrounds
    refine ⟨_, hrounds, fun negative => ?_⟩
    rw [toRat_inLowestTerms, Binary64.cast_signed, signedValue_mul]
  · rename_i hpow
    have hn : 0 < n / Nat.gcd n d := by
      rcases Nat.eq_zero_or_pos n with rfl | hn
      · -- Zero in lowest terms has the divisor one.
        rw [Nat.gcd_zero_left, Nat.div_self hd] at hpow
        exact absurd rfl hpow
      · exact Nat.div_pos (Nat.gcd_le_left d hn) hg
    refine ⟨_, rounds_widened hbits hn hd' shift, fun negative => ?_⟩
    rw [toRat_inLowestTerms, Binary64.cast_signed, signedValue_mul]

/-- A power of two as a quotient of natural numbers. -/
theorem two_zpow_eq_div (j : Int) :
    (2 : Rat) ^ j = ((2 ^ j.toNat : Nat) : Rat) / (2 ^ (-j).toNat : Nat) := by
  have hsplit : j = (j.toNat : Int) - ((-j).toNat : Int) := by omega
  conv => lhs; rw [hsplit, zpow_sub₀ two_ne_zero, zpow_natCast, zpow_natCast]
  push_cast
  rfl

/-- A dyadic number that is not zero, by its sign and its magnitude. -/
theorem exists_ofOdd (negative : Bool) {x : Dyadic} {r : Rat}
    (hx : x.toRat = signedValue negative r) (hr : 0 < r) :
    ∃ n k hn, x = .ofOdd n k hn ∧ n ≠ 0 ∧ decide (n < 0) = negative ∧
      (n.natAbs : Rat) * 2 ^ (-k) = r := by
  cases x with
  | zero =>
      exfalso
      rw [Dyadic.zero_eq, Dyadic.toRat_zero] at hx
      cases negative with
      | false => exact hr.ne hx
      | true => exact hr.ne' (neg_eq_zero.1 hx.symm)
  | ofOdd n k hn =>
      rw [Dyadic.toRat_ofOdd_eq_mul_two_pow] at hx
      have hne : n ≠ 0 := by
        rintro rfl
        exact absurd hn (by decide)
      refine ⟨n, k, hn, rfl, hne, ?_⟩
      -- The power of two is positive, so the sign is that of the odd integer.
      have hpos := two_zpow_pos (-k)
      have habs : (n.natAbs : Rat) = |(n : Rat)| := by
        rw [← Int.cast_natCast, Int.natCast_natAbs, Int.cast_abs]
      cases negative with
      | false =>
          have hn' : (0 : Rat) < n := pos_of_mul_pos_left (hx ▸ hr) hpos.le
          have hn'' : 0 < n := by exact_mod_cast hn'
          exact ⟨by simp [hn''.le], by rw [habs, abs_of_pos hn']; exact hx⟩
      | true =>
          have hn' : (n : Rat) < 0 := by
            by_contra hge
            have := mul_nonneg (not_lt.1 hge) hpos.le
            rw [hx, signedValue, if_pos rfl] at this
            linarith
          have hn'' : n < 0 := by exact_mod_cast hn'
          refine ⟨by simp [hn''], ?_⟩
          rw [habs, abs_of_neg hn', neg_mul, hx, signedValue, if_pos rfl, neg_neg]

/-- A positive dyadic number and its opposite are rounded to significant bits. -/
theorem rounds_round {bits : Nat} (hbits : 0 < bits) {x : Dyadic} {r : Rat} (hx : x.toRat = r)
    (hr : 0 < r) :
    ∃ y, Rounds bits r y ∧
      ∀ negative, (round bits (if negative then -x else x)).toRat = signedValue negative y := by
  rcases exists_ofOdd false hx hr with ⟨n, k, hn, rfl, -, hneg, hmag⟩
  rcases rounds_nearest hbits n.natAbs one_pos k with ⟨y, hy, hround⟩
  rw [Nat.cast_one, div_one, hmag] at hy
  have hpos : 0 < n := by
    have : ¬n < 0 := of_decide_eq_false hneg
    omega
  refine ⟨y, hy, fun negative => ?_⟩
  cases negative with
  | false =>
      rw [if_neg (by simp), round, hneg, hround]
  | true =>
      have hopposite : decide (-n < 0) = true := by simpa using hpos
      rw [if_pos rfl, Dyadic.neg_ofOdd, round, hopposite, Int.natAbs_neg, hround]

/-- The leading bit tells the size. -/
theorem leadingBit_bounds {n k : Int} {r : Rat} (hn : n ≠ 0)
    (hr : (n.natAbs : Rat) * 2 ^ (-k) = r) :
    (2 : Rat) ^ leadingBit n k ≤ r ∧ r < 2 ^ (leadingBit n k + 1) := by
  have hlow : ((2 ^ Nat.log2 n.natAbs : Nat) : Rat) ≤ n.natAbs := by
    exact_mod_cast Nat.log2_self_le (Int.natAbs_ne_zero.2 hn)
  have hhigh : (n.natAbs : Rat) < (2 ^ (Nat.log2 n.natAbs + 1) : Nat) := by
    exact_mod_cast Nat.lt_log2_self
  have hpos := two_zpow_pos (-k)
  rw [leadingBit, ← hr]
  constructor
  · rw [sub_eq_add_neg, zpow_add₀ two_ne_zero, zpow_natCast]
    push_cast at hlow
    exact mul_le_mul_of_nonneg_right hlow hpos.le
  · rw [show (Nat.log2 n.natAbs : Int) - k + 1 = ((Nat.log2 n.natAbs + 1 : Nat) : Int) + -k by
      push_cast; ring, zpow_add₀ two_ne_zero, zpow_natCast]
    push_cast at hhigh
    exact mul_lt_mul_of_pos_right hhigh hpos

theorem cast_two_pow (k : Nat) : ((2 ^ k : Nat) : Rat) = 2 ^ (k : Int) := by
  rw [zpow_natCast]
  push_cast
  rfl

theorem cast_unitsInOne : ((Binary64.unitsInOne : Nat) : Rat) = 2 ^ (1074 : Int) := by
  have hone : (1074 : Int) = ((1074 : Nat) : Int) := rfl
  rw [hone]
  unfold Binary64.unitsInOne
  generalize 1074 = k
  exact cast_two_pow k

/-- The number of units in a dyadic number, as the quotient that is rounded. -/
theorem units_eq (n : Nat) (k : Int) :
    ((n * 2 ^ (1074 - k).toNat : Nat) : Rat) / (2 ^ (k - 1074).toNat : Nat) =
      n * 2 ^ (-k) * Binary64.unitsInOne := by
  have h := two_zpow_eq_div (1074 - k)
  rw [neg_sub] at h
  rw [cast_unitsInOne, mul_assoc, ← zpow_add₀ two_ne_zero, show -k + 1074 = 1074 - k by ring, h]
  push_cast
  rw [mul_div_assoc]

theorem magnitude_last :
    (Binary64.magnitude (finiteCount - 1) : Rat) = (2 ^ 53 - 1 : Nat) * 2 ^ (2045 : Int) := by
  rw [Binary64.magnitude_eq (r := finiteCount - 1) (e := 2045) (k := 2 ^ 53 - 1) (by decide)
    (by decide) (by decide), Nat.cast_mul, cast_two_pow]
  rfl

theorem cast_magnitude_finiteCount :
    (Binary64.magnitude finiteCount : Rat) = 2 ^ (2098 : Int) := by
  rw [Binary64.magnitude_eq (r := finiteCount) (e := 2046) (k := 2 ^ 52) (by decide) (by decide)
    (by decide), Nat.cast_mul, cast_two_pow, cast_two_pow, ← zpow_add₀ two_ne_zero]
  rfl

/-- A dyadic number as a double: the shortcuts decide what rounding would. -/
theorem toNearestBinary64_eq (negative : Bool) {x : Dyadic} {r : Rat}
    (hx : x.toRat = signedValue negative r) (hr : 0 < r) :
    ∃ m c : Nat, 0 < c ∧ (m : Rat) / c = r * Binary64.unitsInOne ∧
      toNearestBinary64 x = Binary64.nearest negative m c := by
  rcases exists_ofOdd negative hx hr with ⟨n, k, hn, rfl, hne, hneg, hmag⟩
  rcases leadingBit_bounds hne hmag with ⟨hlow, hhigh⟩
  have hunits := units_eq n.natAbs k
  rw [hmag] at hunits
  refine ⟨_, _, Nat.two_pow_pos _, hunits, ?_⟩
  rw [toNearestBinary64, hneg]
  split
  · -- Beyond the largest double every number is rounded to an infinity.
    rename_i hbig
    have hle : (Binary64.magnitude finiteCount : Rat) ≤ r * Binary64.unitsInOne := by
      have hpow : (2 : Rat) ^ (1024 : Int) ≤ r :=
        (zpow_le_zpow_right₀ one_le_two (by omega)).trans hlow
      rw [cast_magnitude_finiteCount, cast_unitsInOne,
        show (2098 : Int) = 1024 + 1074 from rfl, zpow_add₀ two_ne_zero]
      exact mul_le_mul_of_nonneg_right hpow (two_zpow_pos _).le
    rw [← hunits] at hle
    have hrank := Binary64.le_nearestRank (Nat.two_pow_pos _) hle
    rw [Binary64.nearest, Binary64.ofRank, dif_neg (Nat.not_lt.2 hrank)]
  · split
    · -- Below half a unit every number is rounded to zero.
      rename_i hsmall
      have hlt : r * Binary64.unitsInOne < Binary64.halfway 0 := by
        have hpow : r < (2 : Rat) ^ (-1075 : Int) :=
          hhigh.trans_le (zpow_le_zpow_right₀ one_le_two (by omega))
        have hhalf : Binary64.halfway 0 = (2 : Rat) ^ (-1075 : Int) * 2 ^ (1074 : Int) := by
          rw [← zpow_add₀ two_ne_zero, Binary64.halfway, Binary64.magnitude_succ,
            Binary64.magnitude_zero]
          norm_num [Binary64.spacing]
        rw [hhalf, cast_unitsInOne]
        exact mul_lt_mul_of_pos_right hpow (two_zpow_pos _)
      rw [← hunits] at hlt
      have hrank := (Binary64.nearestRank_le_iff (Nat.two_pow_pos _) 0).2 (.inl hlt)
      rw [Binary64.nearest, Nat.le_zero.1 hrank]
      rfl
    · rfl

theorem toRat_ofBinary64 (rank : Fin finiteCount) :
    (ofBinary64 (.finite false rank)).toRat * Binary64.unitsInOne = Binary64.magnitude rank := by
  have hunits : (Binary64.finite false rank).units = (Binary64.magnitude rank : Int) := rfl
  rw [ofBinary64, hunits, Dyadic.toRat_ofIntWithPrec_eq_mul_two_pow, cast_unitsInOne, mul_assoc,
    ← zpow_add₀ two_ne_zero, neg_add_cancel, zpow_zero, mul_one, Int.cast_natCast]

theorem toRat_largest :
    (ofBinary64 (Binary64.largest false)).toRat = (2 ^ 53 - 1 : Nat) * 2 ^ (971 : Int) := by
  have hunits := toRat_ofBinary64 ⟨finiteCount - 1, by decide⟩
  rw [magnitude_last, cast_unitsInOne, show (2045 : Int) = 971 + 1074 from rfl,
    zpow_add₀ two_ne_zero, ← mul_assoc] at hunits
  exact mul_right_cancel₀ (two_zpow_pos _).ne' hunits

theorem abs_toRat_ofOdd (n k : Int) (hn : n % 2 = 1) :
    |(Dyadic.ofOdd n k hn).toRat| = (n.natAbs : Rat) * 2 ^ (-k) := by
  rw [Dyadic.toRat_ofOdd_eq_mul_two_pow, abs_mul, abs_of_pos (two_zpow_pos _), Nat.cast_natAbs,
    Int.cast_abs]

/-- In range are the magnitudes up to the largest double. -/
theorem inRange_iff (x : Dyadic) :
    inRange x = true ↔ |x.toRat| ≤ (2 ^ 53 - 1 : Nat) * 2 ^ (971 : Int) := by
  have hlow : (2 : Rat) ^ (1023 : Int) ≤ (2 ^ 53 - 1 : Nat) * 2 ^ (971 : Int) := by
    rw [show (1023 : Int) = ((52 : Nat) : Int) + 971 from rfl, zpow_add₀ two_ne_zero,
      ← cast_two_pow]
    exact mul_two_zpow_le (by decide) 971
  have hhigh : ((2 ^ 53 - 1 : Nat) : Rat) * 2 ^ (971 : Int) < 2 ^ (1024 : Int) := by
    rw [show (1024 : Int) = ((53 : Nat) : Int) + 971 from rfl, zpow_add₀ two_ne_zero,
      ← cast_two_pow]
    exact mul_lt_mul_of_pos_right (by exact_mod_cast Nat.sub_lt (Nat.two_pow_pos 53) one_pos)
      (two_zpow_pos _)
  cases x with
  | zero =>
    rw [Dyadic.zero_eq, Dyadic.toRat_zero, abs_zero]
    exact iff_of_true rfl (mul_nonneg (Nat.cast_nonneg _) (two_zpow_pos _).le)
  | ofOdd n k hn =>
    have hne : n ≠ 0 := by
      rintro rfl
      exact absurd hn (by decide)
    rcases leadingBit_bounds (k := k) hne rfl with ⟨hbit, hbit'⟩
    rw [abs_toRat_ofOdd, inRange]
    split
    · rename_i h
      have hpow : (2 : Rat) ^ (leadingBit n k + 1) ≤ 2 ^ (1023 : Int) :=
        zpow_le_zpow_right₀ one_le_two (by omega)
      exact iff_of_true rfl (hbit'.le.trans (hpow.trans hlow))
    · split
      · rename_i h
        have hpow : (2 : Rat) ^ (1024 : Int) ≤ 2 ^ leadingBit n k :=
          zpow_le_zpow_right₀ one_le_two (by omega)
        exact iff_of_false (by simp) (hhigh.trans_le (hpow.trans hbit)).not_ge
      · -- The leading bits are the same, so both sides are compared on one grid.
        have hgrid : (n.natAbs : Rat) * 2 ^ (-k) =
            n.natAbs * 2 ^ (-(k + 971)) * 2 ^ (971 : Int) := by
          rw [mul_assoc, ← zpow_add₀ two_ne_zero]
          congr 2
          ring
        rw [decide_eq_true_eq, hgrid, mul_le_mul_iff_left₀ (two_zpow_pos _), two_zpow_eq_div,
          neg_neg, ← mul_div_assoc, div_le_iff₀ (by exact_mod_cast Nat.two_pow_pos _),
          largestSignificand]
        exact_mod_cast Iff.rfl

/-- Magnitudes up to the largest double are in range. -/
theorem inRange_of_le (negative : Bool) {x : Dyadic} {r : Rat}
    (hx : x.toRat = signedValue negative r) (hr : 0 < r)
    (hle : r * Binary64.unitsInOne ≤ Binary64.magnitude (finiteCount - 1)) : inRange x = true := by
  have habs : |x.toRat| = r := by
    cases negative <;> simp [hx, signedValue, abs_of_pos hr]
  rw [inRange_iff, habs]
  rw [magnitude_last, cast_unitsInOne, show (2045 : Int) = 971 + 1074 from rfl,
    zpow_add₀ two_ne_zero, ← mul_assoc] at hle
  exact le_of_mul_le_mul_right hle (two_zpow_pos _)

end Precision

end Calculator
