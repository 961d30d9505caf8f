import Calculator.Proofs.Binary64.Literal
import Calculator.Proofs.Decimal.Nearest

/-!
# How long literals are

A literal has all its digits written out, as many as it takes. The fewest
digits of a double do not exceed the largest double, which bounds how many
stand before the point. Behind the point there are no more than in the exact
expansion of the smallest doubles. So there are never so many digits that the
literal of a double could not be read.

## Theorems

* `Decimal.length_digits_positionalNumeral`: The digits that are written out.
* `Binary64.value_shortest_lt`, `Binary64.le_exponent_shortest`: Where the
  fewest digits of a double begin and end.
* `Binary64.length_digits_literalNumeral`: Literals are short enough to be read.
-/

namespace Calculator

namespace Numeral

/-- Leaving zeros out makes no digits. -/
theorem length_digits_le (n : Numeral) :
    n.digits.length ≤ n.whole.length + (n.fraction.getD []).length := by
  have hdrop := (List.dropWhile_sublist (· = '0') (l := (n.fraction.getD []).reverse)).length_le
  rw [List.length_reverse] at hdrop
  rw [digits, List.length_append, List.length_reverse]
  omega

end Numeral

namespace Decimal

theorem le_exponent_stripZerosFor (fuel coefficient : Nat) (exponent : Int) :
    exponent ≤ (stripZerosFor fuel coefficient exponent).exponent := by
  induction fuel generalizing coefficient exponent with
  | zero => exact le_rfl
  | succ fuel ih =>
    unfold stripZerosFor
    split
    · have := ih (coefficient / 10) (exponent + 1)
      omega
    · exact le_rfl

/-- Zeros at the end are moved to higher exponents. -/
theorem le_exponent_stripZeros {x : Decimal} {e : Int} (he : e ≤ 0) (h : e ≤ x.exponent) :
    e ≤ x.stripZeros.exponent := by
  unfold stripZeros
  split
  · exact he
  · exact h.trans (le_exponent_stripZerosFor _ _ _)

/-- The digits before the point are bounded by the value, and those behind it
    by the exponent. -/
theorem length_digits_positionalNumeral {x : Decimal} {before behind : Nat}
    (hbefore : 0 < before) (hvalue : x.value < 10 ^ before) (hbehind : -(behind : Int) ≤ x.exponent)
    (point : Bool) : (x.positionalNumeral point).digits.length ≤ before + behind + 1 := by
  have hnumerator : x.numerator < 10 ^ before * x.denominator := by
    rw [← numerator_div_denominator, div_lt_iff₀ (by exact_mod_cast x.denominator_pos)] at hvalue
    exact_mod_cast hvalue
  refine (Numeral.length_digits_le _).trans ?_
  unfold positionalNumeral
  split
  · rename_i hexponent
    have hdenominator : x.denominator = 1 := by
      rw [denominator, show (-x.exponent).toNat = 0 by omega, Nat.pow_zero]
    rw [hdenominator, Nat.mul_one] at hnumerator
    have hwhole := (Nat.length_toDigits_le_iff (by decide) hbefore).2 hnumerator
    have hfraction : ((wholeNumeral x.numerator point).fraction.getD []).length ≤ 1 := by
      cases point <;> simp [wholeNumeral]
    simp only [wholeNumeral] at hfraction ⊢
    omega
  · rename_i hexponent
    have hcoefficient : x.coefficient < 10 ^ (before + (-x.exponent).toNat) := by
      rw [numerator, show x.exponent.toNat = 0 by omega, Nat.pow_zero, Nat.mul_one] at hnumerator
      rwa [Nat.pow_add]
    have hdigits := (Nat.length_toDigits_le_iff (by decide) (by omega)).2 hcoefficient
    -- The padding leaves a single zero before the point.
    simp only [pointedNumeral, Option.getD_some, List.length_take, List.length_drop,
      List.length_append, List.length_replicate, Decimal.digits]
    omega

end Decimal

namespace Binary64

/-- The fewest digits of the largest double do not exceed it. -/
theorem value_shortest_last :
    (shortest ⟨finiteCount - 1, by decide⟩).value * unitsInOne ≤ magnitude (finiteCount - 1) := by
  have h : (shortest ⟨finiteCount - 1, by decide⟩).numerator * unitsInOne ≤
      magnitude (finiteCount - 1) * (shortest ⟨finiteCount - 1, by decide⟩).denominator := by
    decide +kernel
  have hpos := (shortest ⟨finiteCount - 1, by decide⟩).denominator_pos
  rw [← units_of_decimal, div_le_iff₀ (by exact_mod_cast hpos)]
  exact_mod_cast h

/-- Nor do those of any other double. -/
theorem value_shortest_le (rank : Fin finiteCount) :
    (shortest rank).value * unitsInOne ≤ magnitude (finiteCount - 1) := by
  rcases Nat.lt_or_ge rank (finiteCount - 1) with hlt | hge
  · -- They lie below the point halfway to the next double, which is finite.
    have hread := (ofDecimal_eq_finite_iff false _ rank).1 (ofDecimal_shortest rank)
    have hle := (around_of_nearestRank (Decimal.denominator_pos _) hread).high
    rw [units_of_decimal] at hle
    exact hle.trans ((halfway_lt_magnitude rank).le.trans (cast_magnitude_mono (by omega)))
  · have hlast : rank = ⟨finiteCount - 1, by decide⟩ := by
      have := rank.isLt
      exact Fin.ext (by simp only; omega)
    rw [hlast]
    exact value_shortest_last

/-- The largest double has 309 digits before its point. -/
theorem value_shortest_lt (rank : Fin finiteCount) : (shortest rank).value < 10 ^ 309 := by
  have hlast : magnitude (finiteCount - 1) < 10 ^ 309 * unitsInOne := by decide +kernel
  have hone : (0 : Rat) < unitsInOne := by exact_mod_cast unitsInOne_pos
  refine lt_of_mul_lt_mul_right ((value_shortest_le rank).trans_lt ?_) hone.le
  exact_mod_cast hlast

/-- A double other than zero begins at most 324 places behind the point. -/
theorem le_leadingExponent {rank : Nat} (h : rank ≠ 0) :
    -324 ≤ leadingExponent (magnitude rank) unitsInOne := by
  have hpos : 0 < magnitude rank := by
    have := magnitude_strictMono (Nat.pos_of_ne_zero h)
    omega
  have hupper := (leadingExponent_bounds hpos unitsInOne_pos).2
  have hunit : (10 : Rat) ^ (-324 : Int) < magnitude rank / unitsInOne := by
    have hsmall : unitsInOne < 10 ^ 324 := by decide +kernel
    rw [show (-324 : Int) = -((324 : Nat) : Int) from rfl, zpow_neg, zpow_natCast,
      lt_div_iff₀ (by exact_mod_cast unitsInOne_pos), inv_mul_lt_iff₀ (by positivity)]
    have hproduct : unitsInOne < 10 ^ 324 * magnitude rank :=
      hsmall.trans_le (Nat.le_mul_of_pos_right _ hpos)
    exact_mod_cast hproduct
  have hexponent := (zpow_lt_zpow_iff_right₀ (by norm_num : (1 : Rat) < 10)).1
    (hunit.trans hupper)
  omega

/-- The fewest digits end where those of the smallest doubles do, at the latest. -/
theorem le_exponent_shortest (rank : Fin finiteCount) : -1074 ≤ (shortest rank).exponent := by
  unfold shortest
  split
  · exact (by decide : (-1074 : Int) ≤ 0)
  · rename_i hrank
    refine Decimal.le_exponent_stripZeros (by decide) ?_
    cases h : (candidates rank).find? fun x => ofDecimal false x = finite false rank with
    | none => exact le_rfl
    | some x =>
      obtain ⟨n, hn, hx⟩ := List.mem_flatMap.1 (List.mem_of_find?_eq_some h)
      have hplaces : n < maxDigits := List.mem_range.1 hn
      have hexponent : x.exponent = leadingExponent (magnitude rank) unitsInOne - n := by
        simp only [Decimal.neighbours, Decimal.nearest, List.mem_cons, List.not_mem_nil,
          or_false] at hx
        rcases hx with rfl | rfl <;> rfl
      have hleading := le_leadingExponent hrank
      have hmax : maxDigits = 17 := rfl
      rw [Option.getD_some, hexponent]
      omega

/-- Literals are short enough to be read. -/
theorem length_digits_literalNumeral (rank : Fin finiteCount) :
    (literalNumeral rank).digits.length ≤ Text.maxIntegerDigits :=
  (Decimal.length_digits_positionalNumeral (by decide) (value_shortest_lt rank)
    (le_exponent_shortest rank) _).trans (by decide)

end Binary64

end Calculator
