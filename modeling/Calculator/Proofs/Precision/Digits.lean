import Calculator.Proofs.Precision.Nearest

/-!
# Digits and bits

However few digits are asked for, there are more bits than a double has: enough
for a point halfway between two doubles. The number of bits is itself computed
with doubles, so this is a fact about rounding again, and it includes numbers
of digits whose number of bits is infinite.

## Theorems

* `Binary64.units_nearest`: What is rounded, counted in units.
* `Precision.lt_bits_ofDigits`: How many bits there are at least.
-/

namespace Calculator

namespace Binary64

/-- A double counted in units, the infinity being of the rank after the last. -/
theorem units_nearest (n d : Nat) :
    (nearest false n d).units = magnitude (min (nearestRank n d) finiteCount) := by
  unfold nearest ofRank
  split
  · rename_i h
    rw [min_eq_left h.le]
    rfl
  · rename_i h
    rw [min_eq_right (not_lt.1 h), units_infinite]

/-- What is at least a double is not rounded below it, not even to infinity. -/
theorem le_units_nearest {n d r : Nat} (hd : 0 < d) (hr : r ≤ finiteCount)
    (h : (magnitude r : Rat) ≤ (n : Rat) / d) :
    (magnitude r : Int) ≤ (nearest false n d).units := by
  rw [units_nearest]
  exact_mod_cast magnitude_strictMono.monotone (le_min (le_nearestRank hd h) hr)

theorem finite_mul_finite (s t : Bool) (r q : Fin finiteCount) :
    finite s r * finite t q = nearest (s != t) (magnitude r * magnitude q) unitsInOne := by
  change Binary64.mul (finite s r) (finite t q) = _
  rw [Binary64.mul]

theorem infinite_mul_finite (s t : Bool) {q : Fin finiteCount} (hq : 0 < q.val) :
    infinite s * finite t q = infinite (s != t) :=
  if_neg hq.ne'

/-- A product with a double that is not zero. -/
theorem le_units_mul {n d r s : Nat} {q : Fin finiteCount} (hd : 0 < d)
    (hs : s ≤ finiteCount) (hq : 0 < q.val)
    (h : (magnitude r : Rat) ≤ (n : Rat) / d)
    (hmul : magnitude s * unitsInOne ≤ magnitude r * magnitude q) :
    (magnitude s : Int) ≤ (nearest false n d * finite false q).units := by
  have hle := le_nearestRank hd h
  -- The factor may be infinite already.
  by_cases hfinite : nearestRank n d < finiteCount
  · have hnearest : nearest false n d = finite false ⟨nearestRank n d, hfinite⟩ := by
      rw [nearest, ofRank, dif_pos hfinite]
    rw [hnearest, finite_mul_finite]
    have hone := unitsInOne_pos
    have hproduct := hmul.trans
      (Nat.mul_le_mul_right (magnitude q) (magnitude_strictMono.monotone hle))
    generalize unitsInOne = one at *
    refine le_units_nearest hone hs ?_
    rw [le_div_iff₀ (by exact_mod_cast hone)]
    exact_mod_cast hproduct
  · have hnearest : nearest false n d = infinite false := by
      rw [nearest, ofRank, dif_neg hfinite]
    rw [hnearest, infinite_mul_finite false false hq, bne_self_eq_false, units_infinite]
    exact_mod_cast magnitude_strictMono.monotone hs

end Binary64

namespace Precision

/-- There are more than three bits in a digit. -/
theorem exists_bitsPerDigit :
    ∃ q : Fin finiteCount, bitsPerDigit = .finite false q ∧ 0 < q.val ∧
      3 * Binary64.unitsInOne ≤ Binary64.magnitude q :=
  ⟨⟨4614662735865160562, by decide⟩, by decide +kernel⟩

/-- The integers 21 and 63 are doubles. -/
theorem exists_rank_21 :
    ∃ r, Binary64.magnitude r = 21 * Binary64.unitsInOne :=
  ⟨4626604192193052672, by decide +kernel⟩

theorem exists_rank_63 :
    ∃ r ≤ finiteCount, Binary64.magnitude r = 63 * Binary64.unitsInOne :=
  ⟨4634063279075885056, by decide +kernel⟩

/-- There are enough bits for a point halfway between two doubles. -/
theorem lt_bits_ofDigits (digits : Int) : 54 ≤ (ofDigits digits).bits := by
  have hdigits : 20 ≤ max minDigits digits.toNat := Nat.le_max_left minDigits digits.toNat
  rcases exists_bitsPerDigit with ⟨q, hq, hpos, hfactor⟩
  rcases exists_rank_21 with ⟨r, hsum⟩
  rcases exists_rank_63 with ⟨s, hs, hproduct⟩
  have hone := Binary64.unitsInOne_pos
  simp only [ofDigits]
  generalize max minDigits digits.toNat = k at *
  have hsign : decide (((k : Int) + 1) < 0) = false := by
    simp
    omega
  have hbits : (Binary64.magnitude s : Int) ≤ (bitsAsBinary64 k).units := by
    rw [bitsAsBinary64, hq, Binary64.ofInt, hsign]
    refine Binary64.le_units_mul (r := r) one_pos hs hpos ?_ ?_
    · rw [hsum, show ((k : Int) + 1).natAbs = k + 1 by omega, Nat.cast_one, div_one]
      exact_mod_cast Nat.mul_le_mul_right _ (by omega)
    · rw [hproduct, hsum]
      generalize Binary64.unitsInOne = one at *
      calc 63 * one * one = 21 * one * (3 * one) := by ring
        _ ≤ 21 * one * Binary64.magnitude q := Nat.mul_le_mul_left _ hfactor
  -- Only that there are 63 units in one is left of the numbers.
  rw [hproduct] at hbits
  generalize (bitsAsBinary64 k).units = units at *
  generalize Binary64.unitsInOne = one at *
  have hround : 63 ≤ divNearest units.natAbs one := le_divNearest hone (by omega)
  exact le_max_of_le_right (by omega)

end Precision

end Calculator
