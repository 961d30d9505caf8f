import Calculator.Precision.Basic
import Calculator.Proofs.Binary64.Rank
import Mathlib.Algebra.Order.Field.Power
import Mathlib.Data.Nat.Cast.Order.Field

/-!
# Rounding to significant bits

A number rounded to significant bits is either left as it is or divided on a
grid so wide that its quotient has exactly these bits. From the grid alone
follows what is used of such roundings: they do not cross a number that has
the bits itself, and with the bits of a double they are the rounding of the
doubles, as long as these have all their bits.

## Main definitions

* `Precision.Rounds`: A magnitude and what it is rounded to.
* `Precision.Fits`: A magnitude with few bits.

## Theorems

* `Precision.Rounds.le_of_fits`, `Precision.Rounds.ge_of_fits`: No number with
  the bits is crossed.
* `Precision.Rounds.eq_or_eq_magnitude`: Rounding to 53 bits is that of the
  doubles.
-/

namespace Calculator

theorem divNearest_mul_right (n d : Nat) {c : Nat} (hd : 0 < d) (hc : 0 < c) :
    divNearest (n * c) (d * c) = divNearest n d := by
  refine eq_of_forall_ge_iff fun k => ?_
  rw [divNearest_le_iff hd, divNearest_le_iff (Nat.mul_pos hd hc)]
  have hleft : 2 * (n * c) = 2 * n * c := (Nat.mul_assoc 2 n c).symm
  have hright : d * c * (2 * k + 1) = d * (2 * k + 1) * c := Nat.mul_right_comm d c _
  rw [hleft, hright, Nat.mul_lt_mul_right hc, Nat.mul_right_cancel_iff hc]

theorem divNearest_one (n : Nat) : divNearest n 1 = n := by
  simpa using divNearest_mul_self n 1 one_pos

namespace Precision

/-- A magnitude and what it is rounded to: it is a quotient on a grid, and the
    quotient either has no remainder to be rounded or has all the bits. -/
def Rounds (bits : Nat) (x y : Rat) : Prop :=
  ∃ (a b : Nat) (e : Int), 0 < b ∧ x = (a : Rat) / b * 2 ^ e ∧ y = (divNearest a b : Rat) * 2 ^ e ∧
    (b = 1 ∨ (2 ^ (bits - 1) ≤ a / b ∧ a / b < 2 ^ bits))

/-- A magnitude with at most so many significant bits. -/
def Fits (bits : Nat) (g : Rat) : Prop :=
  ∃ (m : Nat) (k : Int), m < 2 ^ bits ∧ g = (m : Rat) * 2 ^ k

theorem two_zpow_pos (e : Int) : (0 : Rat) < 2 ^ e :=
  zpow_pos two_pos e

/-- A number with few bits is a multiple of the grid or below all quotients
    with all bits. -/
theorem Fits.on_grid {bits : Nat} {g : Rat} (hbits : 0 < bits) (h : Fits bits g) (e : Int) :
    (∃ c : Nat, g = (c : Rat) * 2 ^ e) ∨ g < (2 ^ (bits - 1) : Nat) * 2 ^ e := by
  rcases h with ⟨m, k, hm, rfl⟩
  -- Either its own grid is as wide, or it is so narrow that the number is small.
  rcases le_or_gt e k with hk | hk
  · refine .inl ⟨m * 2 ^ (k - e).toNat, ?_⟩
    have hsplit : k = ((k - e).toNat : Int) + e := by omega
    conv => lhs; rw [hsplit, zpow_add₀ two_ne_zero, zpow_natCast]
    push_cast
    ring
  · refine .inr ?_
    have hpow : (2 : Rat) ^ k ≤ 2 ^ (e - 1) := zpow_le_zpow_right₀ one_le_two (by omega)
    have hm' : (m : Rat) < 2 ^ bits := by exact_mod_cast hm
    have hdouble : (2 : Rat) ^ bits = 2 ^ (bits - 1) * 2 := by
      rw [← pow_succ, Nat.sub_add_cancel hbits]
    calc (m : Rat) * 2 ^ k ≤ m * 2 ^ (e - 1) := mul_le_mul_of_nonneg_left hpow (Nat.cast_nonneg m)
      _ < 2 ^ bits * 2 ^ (e - 1) := mul_lt_mul_of_pos_right hm' (two_zpow_pos _)
      _ = (2 ^ (bits - 1) : Nat) * 2 ^ e := by
        rw [hdouble, zpow_sub_one₀ two_ne_zero]
        push_cast
        ring

theorem mul_two_zpow_le {m n : Nat} (h : m ≤ n) (e : Int) :
    (m : Rat) * 2 ^ e ≤ (n : Rat) * 2 ^ e :=
  mul_le_mul_of_nonneg_right (by exact_mod_cast h) (two_zpow_pos e).le

/-- The integral part of a quotient is at most the quotient. -/
theorem floor_mul_le (a b : Nat) (e : Int) :
    ((a / b : Nat) : Rat) * 2 ^ e ≤ (a : Rat) / b * 2 ^ e :=
  mul_le_mul_of_nonneg_right Nat.cast_div_le (two_zpow_pos e).le

namespace Rounds

variable {bits : Nat} {x y g : Rat}

/-- Rounding does not go beyond a number that has the bits. -/
theorem le_of_fits (h : Rounds bits x y) (hbits : 0 < bits) (hg : Fits bits g) (hx : x ≤ g) :
    y ≤ g := by
  rcases h with ⟨a, b, e, hb, rfl, rfl, rfl | ⟨hlow, -⟩⟩
  · rw [divNearest_one]
    simpa using hx
  · rcases hg.on_grid hbits e with ⟨c, rfl⟩ | hlt
    · have hb' : (0 : Rat) < b := by exact_mod_cast hb
      have hle : a ≤ c * b := by
        have h := le_of_mul_le_mul_right hx (two_zpow_pos e)
        rw [div_le_iff₀ hb'] at h
        exact_mod_cast h
      have hround : divNearest a b ≤ c := by
        rw [divNearest_le_iff hb]
        refine .inl ?_
        have : b * (2 * c + 1) = 2 * (c * b) + b := by ring
        omega
      exact mul_two_zpow_le hround e
    · -- The quotient has all its bits, so the number is below it already.
      exact absurd (hx.trans_lt hlt) ((mul_two_zpow_le hlow e).trans (floor_mul_le a b e)).not_gt

/-- Nor does it fall below one. -/
theorem ge_of_fits (h : Rounds bits x y) (hbits : 0 < bits) (hg : Fits bits g) (hx : g ≤ x) :
    g ≤ y := by
  rcases h with ⟨a, b, e, hb, rfl, rfl, rfl | ⟨hlow, -⟩⟩
  · rw [divNearest_one]
    simpa using hx
  · -- The integral part alone is no less than the number.
    refine le_trans ?_ (mul_two_zpow_le (div_le_divNearest a b) e)
    rcases hg.on_grid hbits e with ⟨c, rfl⟩ | hlt
    · have hb' : (0 : Rat) < b := by exact_mod_cast hb
      have hle : c ≤ a / b := by
        have h := le_of_mul_le_mul_right hx (two_zpow_pos e)
        rw [le_div_iff₀ hb'] at h
        exact (Nat.le_div_iff_mul_le hb).2 (by exact_mod_cast h)
      exact mul_two_zpow_le hle e
    · exact hlt.le.trans (mul_two_zpow_le hlow e)

/-- A number that has the bits is not changed. -/
theorem eq_of_fits (h : Rounds bits x y) (hbits : 0 < bits) (hx : Fits bits x) : y = x :=
  le_antisymm (h.le_of_fits hbits hx le_rfl) (h.ge_of_fits hbits hx le_rfl)

/-- A positive number stays positive. -/
theorem pos (h : Rounds bits x y) (hx : 0 < x) : 0 < y := by
  rcases h with ⟨a, b, e, hb, rfl, rfl, rfl | ⟨hlow, -⟩⟩
  · rw [divNearest_one]
    simpa using hx
  · have hpos : 0 < divNearest a b :=
      (Nat.two_pow_pos _).trans_le (hlow.trans (div_le_divNearest a b))
    exact mul_pos (by exact_mod_cast hpos) (two_zpow_pos e)

/-- What is rounded is a magnitude. -/
theorem nonneg (h : Rounds bits x y) : 0 ≤ y := by
  rcases h with ⟨a, b, e, -, -, rfl, -⟩
  exact mul_nonneg (Nat.cast_nonneg _) (two_zpow_pos e).le

/-- Rounding does not depend on the scale. -/
theorem mul_two_zpow (h : Rounds bits x y) (k : Int) : Rounds bits (x * 2 ^ k) (y * 2 ^ k) := by
  rcases h with ⟨a, b, e, hb, rfl, rfl, hab⟩
  refine ⟨a, b, e + k, hb, ?_, ?_, hab⟩
  · rw [zpow_add₀ two_ne_zero, mul_assoc]
  · rw [zpow_add₀ two_ne_zero, mul_assoc]

/-- Where doubles have all their bits, rounding to 53 bits is rounding to the
    nearest double. -/
theorem eq_or_eq_magnitude {n d : Nat} (h : Rounds 53 x y) (hd : 0 < d) (hx : (n : Rat) / d = x)
    (hnormal : 2 ^ 52 ≤ x) : y = x ∨ y = Binary64.magnitude (Binary64.nearestRank n d) := by
  rcases h with ⟨a, b, e, hb, rfl, rfl, rfl | ⟨hlow, hhigh⟩⟩
  · refine .inl ?_
    rw [divNearest_one]
    simp
  · refine .inr ?_
    have hb' : (0 : Rat) < b := by exact_mod_cast hb
    have ha : 2 ^ 52 * b ≤ a := (Nat.le_div_iff_mul_le hb).1 hlow
    have ha' : a < 2 ^ 53 * b := (Nat.div_lt_iff_lt_mul hb).1 hhigh
    -- On a grid below the units the number would be too small.
    have he : 0 ≤ e := by
      by_contra hneg
      have hpow : (2 : Rat) ^ e ≤ 2 ^ (-1 : Int) := zpow_le_zpow_right₀ one_le_two (by omega)
      have hquot : (a : Rat) / b < 2 ^ 53 := by
        rw [div_lt_iff₀ hb']
        exact_mod_cast ha'
      have hlt : (a : Rat) / b * 2 ^ e < 2 ^ 53 * 2 ^ (-1 : Int) :=
        mul_lt_mul hquot hpow (two_zpow_pos e) (by norm_num)
      norm_num at hlt hnormal
      exact absurd hnormal hlt.not_ge
    rcases Int.eq_ofNat_of_zero_le he with ⟨k, rfl⟩
    have hsame : (n : Rat) / d = ((a * 2 ^ k : Nat) : Rat) / b := by
      rw [hx, zpow_natCast]
      push_cast
      ring
    have hrank : Binary64.nearestRank n d = k * 2 ^ 52 + divNearest a b := by
      rw [Binary64.nearestRank_congr hd hb hsame, Binary64.nearestRank_of_spacing,
        divNearest_mul_right a b hb (Nat.two_pow_pos k)]
      · rw [Nat.le_div_iff_mul_le hb, Nat.pow_add, Nat.mul_right_comm]
        exact Nat.mul_le_mul_right _ ha
      · rw [Nat.div_lt_iff_lt_mul hb, Nat.pow_add, Nat.mul_right_comm]
        exact Nat.mul_lt_mul_of_pos_right ha' (Nat.two_pow_pos k)
    -- Rounding may yield one bit more, which the ranks take in their stride.
    have hround := div_le_divNearest a b
    have hround' := divNearest_le_div_add_one a b
    rw [Binary64.magnitude_eq hrank (by omega) fun _ => by omega, zpow_natCast]
    push_cast
    rfl

end Rounds

end Precision

end Calculator
