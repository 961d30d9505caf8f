import Calculator.Precision.Constants
import Mathlib.Tactic.Linarith
import Mathlib.Tactic.Ring

/-!
# Bounds of the constants

How large the sums behind the constants can get, whatever the width. Nothing
is said here of the constants themselves, only that the fixed point numbers
that are computed for them do not grow with the number of terms.

A bound of a sum telescopes. To every index belongs a bound of the sum from
that index on, and a term together with the bound behind it stays below the
bound before it. Parts of a sum are put together like these bounds, so it does
not matter where a sum is split.

## Main definitions

* `Series.Part.Below`: A part that leads from one bound to another.

## Theorems

* `Series.part_induction`: What holds of terms and is kept holds of parts.
* `Series.part_below`: The parts of a sum lead from bound to bound.
* `Series.pi_le`, `Series.e_le`: Bounds of the constants.
-/

namespace Calculator

namespace Series

/-- A part of a sum that leads from a bound of the sum to a bound of what
    follows the part: its total, and the bound behind it over the product of
    its denominators, are at most the bound before it. -/
structure Part.Below (a : Part) (before after : Nat) : Prop where
  /-- The ratios are inverses of integers, or their opposites. -/
  numerator : a.numerator.natAbs ≤ 1
  /-- The total leaves room for what follows. -/
  total : a.total.natAbs + after * a.weight ≤ before * (a.weight * a.denominator)

variable {a b : Part} {u v w : Nat}

theorem Part.Below.append (ha : a.Below u v) (hb : b.Below v w) : (a.append b).Below u w := by
  constructor
  · change (a.numerator * b.numerator).natAbs ≤ 1
    rw [Int.natAbs_mul]
    exact Nat.mul_le_mul ha.numerator hb.numerator
  · change (b.weight * b.denominator * a.total + a.weight * a.numerator * b.total).natAbs +
      w * (a.weight * b.weight) ≤ u * (a.weight * b.weight * (a.denominator * b.denominator))
    have hsum : (b.weight * b.denominator * a.total + a.weight * a.numerator * b.total).natAbs ≤
        b.weight * b.denominator * a.total.natAbs + a.weight * b.total.natAbs := by
      refine (Int.natAbs_add_le _ _).trans (Nat.add_le_add ?_ ?_)
      · simp [Int.natAbs_mul]
      · rw [Int.natAbs_mul, Int.natAbs_mul, Int.natAbs_natCast]
        exact Nat.mul_le_mul_right _ (mul_le_of_le_one_right (Nat.zero_le _) ha.numerator)
    -- The bound between the two parts is what the second one starts from.
    calc (b.weight * b.denominator * a.total + a.weight * a.numerator * b.total).natAbs +
          w * (a.weight * b.weight)
        ≤ b.weight * b.denominator * a.total.natAbs +
            a.weight * (b.total.natAbs + w * b.weight) := by linarith
      _ ≤ b.weight * b.denominator * a.total.natAbs +
            a.weight * (v * (b.weight * b.denominator)) :=
          Nat.add_le_add_left (Nat.mul_le_mul_left _ hb.total) _
      _ = b.weight * b.denominator * (a.total.natAbs + v * a.weight) := by ring
      _ ≤ b.weight * b.denominator * (u * (a.weight * a.denominator)) :=
          Nat.mul_le_mul_left _ ha.total
      _ = u * (a.weight * b.weight * (a.denominator * b.denominator)) := by ring

/-- What holds of the terms, from one index to the next, and is kept by putting
    parts together holds of every part of a sum. -/
theorem part_induction {term : Nat → Part} {P : Part → Nat → Nat → Prop}
    (hterm : ∀ i, P (term i) i (i + 1))
    (happend : ∀ {a b : Part} {i j k : Nat}, P a i j → P b j k → P (a.append b) i k)
    (first count : Nat) : P (part term first count) first (first + max 1 count) := by
  induction count using Nat.strongRecOn generalizing first with
  | _ count ih =>
    rw [part]
    split
    · rename_i h
      rw [Nat.max_eq_left h]
      exact hterm first
    · rename_i h
      have hleft := ih (count / 2) (by omega) first
      have hright := ih (count - count / 2) (by omega) (first + count / 2)
      rw [Nat.max_eq_right (by omega)] at hleft hright
      rw [show first + count / 2 + (count - count / 2) = first + count by omega] at hright
      rw [Nat.max_eq_right (by omega)]
      exact happend hleft hright

/-- The parts of a sum lead from bound to bound, as its terms do. -/
theorem part_below {term : Nat → Part} (bound : Nat → Nat)
    (hterm : ∀ i, (term i).Below (bound i) (bound (i + 1))) (first count : Nat) :
    (part term first count).Below (bound first) (bound (first + max 1 count)) :=
  part_induction (P := fun a i j => a.Below (bound i) (bound j)) hterm
    (fun ha hb => ha.append hb) first count

/-- In fixed point a part is at most the bound before it. -/
theorem Part.Below.fixed_le (h : a.Below u v) (width : Nat) : a.fixed width ≤ u * 2 ^ width := by
  rw [Part.fixed, Nat.shiftLeft_eq]
  refine Nat.div_le_of_le_mul ?_
  have htotal : a.total.toNat ≤ u * (a.weight * a.denominator) := by
    have := h.total
    omega
  calc a.total.toNat * 2 ^ width ≤ u * (a.weight * a.denominator) * 2 ^ width :=
        Nat.mul_le_mul_right _ htotal
    _ = a.weight * a.denominator * (u * 2 ^ width) := by ring

theorem arcInverse_le (alternating : Bool) {q : Nat} (hq : 2 ≤ q) (width : Nat) :
    arcInverse alternating q width ≤ 2 ^ width := by
  have hsquare : 2 ≤ q * q := hq.trans (Nat.le_mul_self q)
  rw [arcInverse]
  refine ((part_below (fun _ => 1) (fun i => ?_) 0 _).fixed_le width).trans_eq (Nat.one_mul _)
  split
  · exact ⟨Nat.le_refl 1, by simpa [Part.single] using hq⟩
  · constructor
    · cases alternating <;> exact Nat.le_refl 1
    · have hweight : (2 * i + 1) * 2 ≤ (2 * i + 1) * (q * q) := Nat.mul_le_mul_left _ hsquare
      cases alternating <;> simp only [Part.single] <;> omega

theorem shiftRight_le {n b width : Nat} (h : n ≤ b * 2 ^ (width + spare)) :
    n >>> spare ≤ b * 2 ^ width := by
  rw [Nat.shiftRight_eq_div_pow]
  refine Nat.div_le_of_le_mul (h.trans_eq ?_)
  rw [Nat.pow_add]
  ring

theorem pi_le (width : Nat) : pi width ≤ 16 * 2 ^ width := by
  refine shiftRight_le ((Nat.sub_le _ _).trans ?_)
  exact Nat.mul_le_mul_left 16 (arcInverse_le true (by decide) _)

/-- Bounds of the sum of the inverse factorials, over the factorial before the
    index. -/
def inverseFactorialBound : Nat → Nat
  | 0 => 3
  | 1 => 2
  | _ => 1

theorem e_le (width : Nat) : e width ≤ 3 * 2 ^ width := by
  refine shiftRight_le ((part_below inverseFactorialBound (fun i => ?_) 0 _).fixed_le _)
  refine ⟨Nat.le_refl 1, ?_⟩
  match i with
  | 0 => decide
  | 1 => decide
  | i + 2 =>
    simp only [Part.single, inverseFactorialBound]
    omega

end Series

end Calculator
