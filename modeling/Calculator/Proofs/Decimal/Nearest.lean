import Calculator.Binary64.Display
import Calculator.Proofs.Binary64.Rank
import Calculator.Proofs.Decimal
import Mathlib.Algebra.Order.Field.Power
import Mathlib.Data.Nat.Cast.Order.Field
import Mathlib.Tactic.Linarith
import Mathlib.Tactic.Positivity

/-!
# The nearest decimals

Rounding to decimals, by what it achieves: of some decimals the one is taken
that is nearest to a number, and if two are, the one with an even coefficient.
The decimals in question are those with a given number of places, or those
with a given number of digits, whatever their exponent.

Among decimals of one exponent this is rounding to an integer. Decimals of so
many digits have all exponents, but only one exponent matters: those with a
larger one are met on the same grid, and those with a smaller one are too small
to be nearer than the least number on the grid that has all the digits.

## Main definitions

* `RoundsTo`: The integer that a number is rounded to.
* `Decimal.IsNearest`: The nearest of some decimals.
* `Decimal.HasDigits`: The decimals of so many digits.

## Theorems

* `roundsTo_divNearest`: A quotient is rounded to an integer.
* `RoundsTo.unique`: There is only one such integer.
* `leadingExponent_bounds`: The power of ten of the first digit.
* `Decimal.isNearest_nearest`: The nearest decimal of an exponent.
* `Decimal.isNearest_significant`: The nearest decimal of so many digits.
* `Decimal.IsNearest.unique_exponent`, `Decimal.IsNearest.unique_digits`: There
  is only one.
-/

namespace Calculator

/-! ### Integers -/

/-- A number is rounded to an integer: it is at most a half away, and if it is
    exactly a half away, the integer is even. -/
structure RoundsTo (r : Rat) (k : Nat) : Prop where
  /-- The number is at most a half away. -/
  half : |r - k| ≤ 1 / 2
  /-- Of two integers equally near the even one is meant. -/
  even : |r - k| = 1 / 2 → k % 2 = 0

namespace RoundsTo

variable {r : Rat} {k : Nat}

/-- Every other integer is at least a half away. -/
theorem half_le (h : RoundsTo r k) {j : Nat} (hne : j ≠ k) : 1 / 2 ≤ |r - j| := by
  have hone : (1 : Rat) ≤ |(j : Rat) - k| := by
    rcases Nat.lt_or_gt_of_ne hne with hlt | hlt
    · have : (j : Rat) + 1 ≤ k := by exact_mod_cast hlt
      rw [abs_of_neg (by linarith)]
      linarith
    · have : (k : Rat) + 1 ≤ j := by exact_mod_cast hlt
      rw [abs_of_pos (by linarith)]
      linarith
  have htriangle : |(j : Rat) - k| ≤ |r - j| + |r - k| := by
    rw [abs_sub_comm r j]
    exact abs_sub_le _ _ _
  have := h.half
  linarith

/-- No integer is nearer. -/
theorem le (h : RoundsTo r k) (j : Nat) : |r - k| ≤ |r - j| := by
  by_cases hj : j = k
  · rw [hj]
  · exact h.half.trans (h.half_le hj)

/-- If another integer is equally near, this one is even. -/
theorem even_of_eq (h : RoundsTo r k) {j : Nat} (hne : j ≠ k) (heq : |r - j| = |r - k|) :
    k % 2 = 0 :=
  h.even (h.half.antisymm (heq ▸ h.half_le hne))

/-- No integer is crossed. -/
theorem le_of_le (h : RoundsTo r k) {m : Nat} (hm : r ≤ m) : k ≤ m := by
  have hlow := (abs_le.1 h.half).1
  have : (k : Rat) < m + 1 := by linarith
  exact Nat.lt_succ_iff.1 (by exact_mod_cast this)

theorem ge_of_ge (h : RoundsTo r k) {m : Nat} (hm : (m : Rat) ≤ r) : m ≤ k := by
  have hhigh := (abs_le.1 h.half).2
  have : (m : Rat) < k + 1 := by linarith
  exact Nat.lt_succ_iff.1 (by exact_mod_cast this)

theorem unique (h : RoundsTo r k) {j : Nat} (hj : RoundsTo r j) : k = j := by
  by_contra hne
  -- Two of them would be next to each other, and both even.
  have hk := h.even_of_eq (Ne.symm hne) ((hj.le k).antisymm (h.le j))
  have hj' := hj.even_of_eq hne ((h.le j).antisymm (hj.le k))
  rcases abs_le.1 h.half with ⟨hlow, hhigh⟩
  rcases abs_le.1 hj.half with ⟨hlow', hhigh'⟩
  have hkj : k ≤ j + 1 := by
    have : (k : Rat) ≤ j + 1 := by linarith
    exact_mod_cast this
  have hjk : j ≤ k + 1 := by
    have : (j : Rat) ≤ k + 1 := by linarith
    exact_mod_cast this
  omega

end RoundsTo

/-- A quotient is rounded to an integer. -/
theorem roundsTo_divNearest (n : Nat) {d : Nat} (hd : 0 < d) :
    RoundsTo ((n : Rat) / d) (divNearest n d) := by
  generalize hk : divNearest n d = k
  have hd' : (0 : Rat) < d := by exact_mod_cast hd
  -- A cut of rounding as a comparison of the quotient.
  have hcut : ∀ m : Nat, (2 * n < d * (2 * m + 1) ↔ (n : Rat) / d < m + 1 / 2) ∧
      (2 * n = d * (2 * m + 1) ↔ (n : Rat) / d = m + 1 / 2) := by
    intro m
    rw [div_lt_iff₀ hd', div_eq_iff hd'.ne']
    constructor
    · rw [← @Nat.cast_lt Rat]
      push_cast
      constructor <;> intro h <;> linarith
    · rw [← @Nat.cast_inj Rat]
      push_cast
      constructor <;> intro h <;> linarith
  have habove := (divNearest_le_iff (n := n) hd k).1 hk.le
  rw [(hcut k).1, (hcut k).2] at habove
  have hbelow : (k : Rat) - 1 / 2 ≤ n / d ∧ ((n : Rat) / d = k - 1 / 2 → k % 2 = 0) := by
    cases k with
    | zero =>
      have : (0 : Rat) ≤ n / d := by positivity
      exact ⟨by push_cast; linarith, fun _ => rfl⟩
    | succ m =>
      have hnot : ¬divNearest n d ≤ m := by omega
      rw [divNearest_le_iff hd, (hcut m).1, (hcut m).2, not_or, not_lt, not_and] at hnot
      push_cast
      refine ⟨by linarith [hnot.1], fun h => ?_⟩
      have := hnot.2 (by linarith)
      omega
  constructor
  · rw [abs_le]
    rcases habove with h | ⟨h, -⟩ <;> constructor <;> linarith [hbelow.1]
  · intro h
    rcases eq_or_eq_neg_of_abs_eq h with h | h
    · rcases habove with hlt | ⟨-, heven⟩
      · linarith
      · exact heven
    · exact hbelow.2 (by linarith)

/-! ### The first digit -/

theorem ten_zpow_pos (e : Int) : (0 : Rat) < 10 ^ e :=
  zpow_pos (by norm_num) e

/-- The number of digits tells the size. -/
theorem digitCount_eq_iff {n k : Nat} (hn : 0 < n) :
    digitCount n = k + 1 ↔ 10 ^ k ≤ n ∧ n < 10 ^ (k + 1) := by
  have hupper := Nat.length_toDigits_le_iff (n := n) (b := 10) (by decide) (Nat.succ_pos k)
  change digitCount n ≤ k + 1 ↔ _ at hupper
  have hlower : digitCount n ≤ k ↔ n < 10 ^ k := by
    cases k with
    | zero =>
      have hpos : 0 < digitCount n := Nat.length_toDigits_pos
      simp only [Nat.pow_zero]
      omega
    | succ j => exact Nat.length_toDigits_le_iff (by decide) (Nat.succ_pos j)
  rw [← hupper, ← not_lt, ← hlower]
  omega

theorem digitCount_bounds {n : Nat} (hn : 0 < n) :
    10 ^ (digitCount n - 1) ≤ n ∧ n < 10 ^ digitCount n := by
  have hpos : 0 < digitCount n := Nat.length_toDigits_pos
  have h := (digitCount_eq_iff (k := digitCount n - 1) hn).1 (Nat.sub_add_cancel hpos).symm
  rwa [Nat.sub_add_cancel hpos] at h

/-- The power of ten of the first digit is the largest one that is not above
    the number. -/
theorem leadingExponent_bounds {n d : Nat} (hn : 0 < n) (hd : 0 < d) :
    (10 : Rat) ^ leadingExponent n d ≤ n / d ∧ (n : Rat) / d < 10 ^ (leadingExponent n d + 1) := by
  have hn' : (0 : Rat) < n := by exact_mod_cast hn
  have hd' : (0 : Rat) < d := by exact_mod_cast hd
  unfold leadingExponent
  split
  · rename_i hle
    have hpos : 0 < digitCount (n / d) := Nat.length_toDigits_pos
    rcases digitCount_bounds (Nat.div_pos hle hd) with ⟨hlow, hhigh⟩
    rw [Nat.le_div_iff_mul_le hd] at hlow
    rw [Nat.div_lt_iff_lt_mul hd] at hhigh
    rw [show (digitCount (n / d) : Int) - 1 = (digitCount (n / d) - 1 : Nat) by omega,
      show ((digitCount (n / d) - 1 : Nat) : Int) + 1 = (digitCount (n / d) : Nat) by omega,
      zpow_natCast, zpow_natCast, le_div_iff₀ hd', div_lt_iff₀ hd']
    exact ⟨by exact_mod_cast hlow, by exact_mod_cast hhigh⟩
  · -- Below one, the integral part of the inverse has one digit less than zeros are needed.
    rename_i hlt
    have hquot : 0 < (d - 1) / n := Nat.div_pos (by omega) hn
    have hpos : 0 < digitCount ((d - 1) / n) := Nat.length_toDigits_pos
    rcases digitCount_bounds hquot with ⟨hlow, hhigh⟩
    rw [Nat.le_div_iff_mul_le hn] at hlow
    rw [Nat.div_lt_iff_lt_mul hn] at hhigh
    have hlow' : 10 ^ (digitCount ((d - 1) / n) - 1) * n < d := by omega
    have hhigh' : d ≤ 10 ^ digitCount ((d - 1) / n) * n := by omega
    rw [show -(digitCount ((d - 1) / n) : Int) + 1 = -(digitCount ((d - 1) / n) - 1 : Nat) by omega,
      zpow_neg, zpow_neg, zpow_natCast, zpow_natCast, le_div_iff₀ hd', div_lt_iff₀ hd',
      inv_mul_le_iff₀ (by positivity), ← div_eq_inv_mul, lt_div_iff₀ (by positivity),
      mul_comm (n : Rat)]
    exact ⟨by exact_mod_cast hhigh', by exact_mod_cast hlow'⟩

namespace Decimal

/-! ### Decimals of one exponent -/

/-- The nearest of some decimals, and the one with an even coefficient if
    another value is equally near. -/
structure IsNearest (among : Decimal → Prop) (r : Rat) (x : Decimal) : Prop where
  /-- It is one of the decimals. -/
  mem : among x
  /-- None of them is nearer. -/
  le : ∀ y, among y → |r - x.value| ≤ |r - y.value|
  /-- Only an even coefficient is taken where there was a choice. -/
  even : ∀ y, among y → y.value ≠ x.value → |r - y.value| = |r - x.value| → x.coefficient % 2 = 0

/-- Distances are measured on the grid of an exponent. -/
theorem abs_sub_mul_zpow (r : Rat) (k : Nat) (e : Int) :
    |r - k * 10 ^ e| = |r / 10 ^ e - k| * 10 ^ e := by
  have hpos := ten_zpow_pos e
  rw [← abs_of_pos hpos, ← abs_mul, abs_of_pos hpos, sub_mul, div_mul_cancel₀ _ hpos.ne']

theorem roundsTo_nearest (n : Nat) {d : Nat} (hd : 0 < d) (e : Int) :
    RoundsTo ((n : Rat) / d / 10 ^ e) (nearest n d e).coefficient := by
  have hsplit : e = (e.toNat : Int) - ((-e).toNat : Int) := by omega
  have hscaled : (n : Rat) / d / 10 ^ e =
      ((n * 10 ^ (-e).toNat : Nat) : Rat) / (d * 10 ^ e.toNat : Nat) := by
    conv => lhs; rw [hsplit, zpow_sub₀ (by norm_num), zpow_natCast, zpow_natCast]
    push_cast
    rw [div_div_div_eq]
  rw [hscaled]
  exact roundsTo_divNearest _ (Nat.mul_pos hd (Nat.pow_pos (by decide)))

/-- Rounding to an exponent takes the nearest decimal that has it. -/
theorem isNearest_nearest (n : Nat) {d : Nat} (hd : 0 < d) (e : Int) :
    IsNearest (fun y => y.exponent = e) ((n : Rat) / d) (nearest n d e) := by
  have hround := roundsTo_nearest n hd e
  have hexp : (nearest n d e).exponent = e := rfl
  refine ⟨hexp, fun y hy => ?_, fun y hy hne heq => ?_⟩
  · rw [value, value, hy, hexp, abs_sub_mul_zpow, abs_sub_mul_zpow]
    exact mul_le_mul_of_nonneg_right (hround.le _) (ten_zpow_pos e).le
  · rw [value, value, hy, hexp, abs_sub_mul_zpow, abs_sub_mul_zpow] at heq
    refine hround.even_of_eq (fun h => hne ?_) (mul_right_cancel₀ (ten_zpow_pos e).ne' heq)
    rw [value, value, hy, hexp, h]

/-! ### Decimals of so many digits -/

/-- A decimal of so many digits, the first of which is not zero. -/
structure HasDigits (digits : Nat) (x : Decimal) : Prop where
  /-- There are no fewer. -/
  low : 10 ^ (digits - 1) ≤ x.coefficient
  /-- There are no more. -/
  high : x.coefficient < 10 ^ digits

/-- With a smaller exponent, a decimal of so many digits has fewer digits on a
    grid. -/
theorem HasDigits.value_lt_of_exponent_lt {digits : Nat} {y : Decimal} (h : y.HasDigits digits)
    (hdigits : 0 < digits) {e : Int} (he : y.exponent < e) :
    y.value < (10 ^ (digits - 1) : Nat) * 10 ^ e := by
  have hten : (10 : Rat) ≠ 0 := by norm_num
  have hpow : (10 : Rat) ^ y.exponent ≤ 10 ^ (e - 1) :=
    zpow_le_zpow_right₀ (by norm_num) (by omega)
  have hcoefficient : (y.coefficient : Rat) < (10 ^ (digits - 1) : Nat) * 10 := by
    have := h.high
    rw [show digits = digits - 1 + 1 by omega, Nat.pow_succ] at this
    exact_mod_cast this
  calc y.value ≤ y.coefficient * 10 ^ (e - 1) :=
        mul_le_mul_of_nonneg_left hpow (Nat.cast_nonneg _)
    _ < (10 ^ (digits - 1) : Nat) * 10 * 10 ^ (e - 1) :=
        mul_lt_mul_of_pos_right hcoefficient (ten_zpow_pos _)
    _ = (10 ^ (digits - 1) : Nat) * 10 ^ e := by
      rw [zpow_sub_one₀ hten]
      ring

/-- A decimal of so many digits is on the grid of an exponent, or so small that
    it has fewer digits there. -/
theorem HasDigits.on_grid {digits : Nat} {y : Decimal} (h : y.HasDigits digits)
    (hdigits : 0 < digits) (e : Int) :
    (∃ j : Nat, y.value = j * 10 ^ e) ∨ y.value < (10 ^ (digits - 1) : Nat) * 10 ^ e := by
  rcases le_or_gt e y.exponent with he | he
  · refine .inl ⟨y.coefficient * 10 ^ (y.exponent - e).toNat, ?_⟩
    have hsplit : y.exponent = ((y.exponent - e).toNat : Int) + e := by omega
    conv => lhs; rw [value, hsplit, zpow_add₀ (by norm_num), zpow_natCast]
    push_cast
    ring
  · exact .inr (h.value_lt_of_exponent_lt hdigits he)

/-- What is nearest on a grid where a number has all its digits is nearest
    among all decimals of so many digits. -/
theorem isNearest_of_roundsTo {digits k : Nat} {r : Rat} {e : Int} {x : Decimal}
    (hdigits : 0 < digits) (hround : RoundsTo (r / 10 ^ e) k)
    (hlow : (10 ^ (digits - 1) : Nat) * 10 ^ e ≤ r) (hx : x.HasDigits digits)
    (hvalue : x.value = k * 10 ^ e) (heven : k % 2 = 0 → x.coefficient % 2 = 0) :
    IsNearest (HasDigits digits) r x := by
  have hpos := ten_zpow_pos e
  have hgrid : ∀ j : Nat, |r - x.value| ≤ |r - j * 10 ^ e| := by
    intro j
    rw [hvalue, abs_sub_mul_zpow, abs_sub_mul_zpow]
    exact mul_le_mul_of_nonneg_right (hround.le j) hpos.le
  -- The least number on the grid with all the digits is nearer than any smaller one.
  have hsmall : ∀ s : Rat, s < (10 ^ (digits - 1) : Nat) * 10 ^ e → |r - x.value| < |r - s| := by
    intro s hs
    refine (hgrid (10 ^ (digits - 1))).trans_lt ?_
    rw [abs_of_nonneg (sub_nonneg.2 hlow), abs_of_pos (by linarith)]
    linarith
  refine ⟨hx, fun y hy => ?_, fun y hy hne heq => ?_⟩
  · rcases hy.on_grid hdigits e with ⟨j, hj⟩ | hlt
    · rw [hj]
      exact hgrid j
    · exact (hsmall _ hlt).le
  · rcases hy.on_grid hdigits e with ⟨j, hj⟩ | hlt
    · rw [hj, hvalue, abs_sub_mul_zpow, abs_sub_mul_zpow] at heq
      refine heven (hround.even_of_eq (fun h => hne ?_) (mul_right_cancel₀ hpos.ne' heq))
      rw [hj, hvalue, h]
    · exact absurd heq (hsmall _ hlt).ne'

/-- Rounding to a number of digits takes the nearest decimal that has them. -/
theorem isNearest_significant {n d digits : Nat} (hn : 0 < n) (hd : 0 < d) (hdigits : 2 ≤ digits) :
    IsNearest (HasDigits digits) ((n : Rat) / d) (significant n d digits) := by
  have hten : (10 : Rat) ≠ 0 := by norm_num
  rcases leadingExponent_bounds hn hd with ⟨hlow, hhigh⟩
  generalize he : leadingExponent n d - digits + 1 = e
  have hround := roundsTo_nearest n hd e
  have hpos := ten_zpow_pos e
  -- On the grid of the last digit the number lies between two powers of ten.
  have hfirst : (10 : Rat) ^ leadingExponent n d = (10 ^ (digits - 1) : Nat) * 10 ^ e := by
    rw [Nat.cast_pow, Nat.cast_ofNat, ← zpow_natCast, ← zpow_add₀ hten]
    congr 1
    omega
  have hnext : (10 : Rat) ^ (leadingExponent n d + 1) = (10 ^ digits : Nat) * 10 ^ e := by
    rw [Nat.cast_pow, Nat.cast_ofNat, ← zpow_natCast, ← zpow_add₀ hten]
    congr 1
    omega
  rw [hfirst] at hlow
  rw [hnext] at hhigh
  have hge := hround.ge_of_ge ((le_div_iff₀ hpos).2 hlow)
  have hle := hround.le_of_le ((div_le_iff₀ hpos).2 hhigh.le)
  unfold significant
  simp only [he]
  split
  · -- Rounded up to the next power of ten, the number has one digit on the next grid.
    rename_i hcarry
    have hpow : 10 ^ digits = 10 ^ (digits - 1) * 10 := by
      rw [← Nat.pow_succ, Nat.succ_eq_add_one, Nat.sub_add_cancel (by omega)]
    have heven : 10 ^ (digits - 1) % 2 = 0 := by
      rw [show digits - 1 = digits - 2 + 1 by omega, Nat.pow_succ]
      omega
    refine isNearest_of_roundsTo (by omega) hround hlow ⟨le_refl _, ?_⟩ ?_ fun _ => heven
    · exact Nat.pow_lt_pow_right (by decide) (by omega)
    · rw [hcarry, hpow, value, show (nearest n d e).exponent = e from rfl, zpow_add_one₀ hten]
      push_cast
      ring
  · rename_i hcarry
    exact isNearest_of_roundsTo (by omega) hround hlow ⟨hge, lt_of_le_of_ne hle hcarry⟩ rfl id

/-! ### There is only one nearest decimal -/

/-- What lies between two numbers is nearer to their middle. -/
theorem abs_sub_lt_of_between {r a b c : Rat} (h : |r - a| = |r - b|) (hac : a < c) (hcb : c < b) :
    |r - c| < |r - a| := by
  rcases abs_eq_abs.1 h with heq | heq
  · linarith
  · rw [abs_lt, abs_of_pos (by linarith)]
    constructor <;> linarith

/-- If between any two of some decimals with even coefficients there is another
    one, two that are nearest have the same value. -/
theorem IsNearest.value_eq {among : Decimal → Prop} {r : Rat} {x y : Decimal}
    (hbetween : ∀ a b : Decimal, among a → among b → a.value < b.value → a.coefficient % 2 = 0 →
      b.coefficient % 2 = 0 → ∃ c, among c ∧ a.value < c.value ∧ c.value < b.value)
    (hx : x.IsNearest among r) (hy : y.IsNearest among r) : x.value = y.value := by
  have hsame : |r - x.value| = |r - y.value| := (hx.le y hy.mem).antisymm (hy.le x hx.mem)
  by_contra hne
  have hxe := hx.even y hy.mem (Ne.symm hne) hsame.symm
  have hye := hy.even x hx.mem hne hsame
  rcases lt_or_gt_of_ne hne with hlt | hlt
  · rcases hbetween x y hx.mem hy.mem hlt hxe hye with ⟨c, hc, hxc, hcy⟩
    exact absurd (hx.le c hc) (abs_sub_lt_of_between hsame hxc hcy).not_ge
  · rcases hbetween y x hy.mem hx.mem hlt hye hxe with ⟨c, hc, hyc, hcx⟩
    exact absurd (hy.le c hc) (abs_sub_lt_of_between hsame.symm hyc hcx).not_ge

/-- Decimals of one exponent are in the order of their coefficients. -/
theorem value_lt_iff {x y : Decimal} (h : x.exponent = y.exponent) :
    x.value < y.value ↔ x.coefficient < y.coefficient := by
  rw [value, value, h, mul_lt_mul_iff_left₀ (ten_zpow_pos _), Nat.cast_lt]

theorem eq_of_value_eq {x y : Decimal} (hexp : x.exponent = y.exponent)
    (h : x.value = y.value) : x = y := by
  rw [value, value, hexp] at h
  have hcoefficient := Nat.cast_injective (mul_right_cancel₀ (ten_zpow_pos _).ne' h)
  cases x
  cases y
  simp_all

/-- There is only one nearest decimal of an exponent. -/
theorem IsNearest.unique_exponent {r : Rat} {e : Int} {x y : Decimal}
    (hx : x.IsNearest (fun d => d.exponent = e) r) (hy : y.IsNearest (fun d => d.exponent = e) r) :
    x = y := by
  have hexp : x.exponent = y.exponent := hx.mem.trans hy.mem.symm
  refine eq_of_value_eq hexp (IsNearest.value_eq (fun a b ha hb hlt hae hbe => ?_) hx hy)
  -- The successor of an even coefficient is not even.
  rw [value_lt_iff (ha.trans hb.symm)] at hlt
  refine ⟨⟨a.coefficient + 1, e⟩, rfl, ?_, ?_⟩
  · rw [value_lt_iff ha]
    exact Nat.lt_succ_self _
  · rw [value_lt_iff hb.symm]
    change a.coefficient + 1 < b.coefficient
    omega

namespace HasDigits

variable {digits : Nat} {x y : Decimal}

/-- Decimals of so many digits are in the order of their exponents. -/
theorem value_lt (hx : x.HasDigits digits) (hy : y.HasDigits digits) (hdigits : 0 < digits)
    (h : x.exponent < y.exponent) : x.value < y.value := by
  have hlow : ((10 ^ (digits - 1) : Nat) : Rat) ≤ y.coefficient := by exact_mod_cast hy.low
  exact (hx.value_lt_of_exponent_lt hdigits h).trans_le
    (mul_le_mul_of_nonneg_right hlow (ten_zpow_pos _).le)

theorem exponent_le (hx : x.HasDigits digits) (hy : y.HasDigits digits) (hdigits : 0 < digits)
    (h : x.value ≤ y.value) : x.exponent ≤ y.exponent :=
  not_lt.1 fun hlt => (hy.value_lt hx hdigits hlt).not_ge h

/-- Between two decimals with even coefficients there is the successor of the
    smaller one. -/
theorem exists_between (hx : x.HasDigits digits) (hy : y.HasDigits digits) (hdigits : 0 < digits)
    (hlt : x.value < y.value) (hxe : x.coefficient % 2 = 0) (hye : y.coefficient % 2 = 0) :
    ∃ z : Decimal, z.HasDigits digits ∧ x.value < z.value ∧ z.value < y.value := by
  have heven : 10 ^ digits % 2 = 0 := by
    rw [show digits = digits - 1 + 1 by omega, Nat.pow_succ]
    omega
  obtain ⟨z, hsucc, hsame⟩ : ∃ z : Decimal,
      z.coefficient = x.coefficient + 1 ∧ z.exponent = x.exponent := ⟨⟨_, _⟩, rfl, rfl⟩
  have hz : z.HasDigits digits := by
    have hlow := hx.low
    have hhigh := hx.high
    constructor <;> omega
  refine ⟨z, hz, by rw [value_lt_iff hsame.symm]; omega, ?_⟩
  rcases (hx.exponent_le hy hdigits hlt.le).lt_or_eq with hexp | hexp
  · exact hz.value_lt hy hdigits (hsame.trans_lt hexp)
  · rw [value_lt_iff hexp] at hlt
    rw [value_lt_iff (hsame.trans hexp)]
    omega

end HasDigits

/-- There is only one nearest decimal of so many digits. -/
theorem IsNearest.unique_digits {digits : Nat} {r : Rat} {x y : Decimal} (hdigits : 0 < digits)
    (hx : x.IsNearest (HasDigits digits) r) (hy : y.IsNearest (HasDigits digits) r) : x = y := by
  have hvalue : x.value = y.value :=
    IsNearest.value_eq (fun a b ha hb hlt => ha.exists_between hb hdigits hlt) hx hy
  refine eq_of_value_eq (le_antisymm ?_ ?_) hvalue
  · exact hx.mem.exponent_le hy.mem hdigits hvalue.le
  · exact hy.mem.exponent_le hx.mem hdigits hvalue.ge

end Decimal

end Calculator
