import Calculator.Binary64.Elementary
import Calculator.Proofs.Binary64.Rank
import Calculator.Proofs.Decimal

/-!
# Integers as doubles

All integers up to two to the 53 in magnitude are doubles. A sum, a product or
a quotient of such doubles that is such an integer again is therefore not
changed by rounding.

## Main definitions

* `exactBound`: The magnitude up to which all integers are doubles.
* `Binary64.IsInteger`: A double with an integer as its value.

## Theorems

* `Binary64.exists_rank`: The integers up to the bound are doubles.
* `Binary64.isInteger_add`, `isInteger_mul`, `isInteger_div` and so on: Exact
  operations.
-/

namespace Calculator

/-- The magnitude up to which all integers are doubles. -/
def exactBound : Nat := 2 ^ 53

namespace Binary64

/-- A finite double with an integer as its value. For zero the sign may be any. -/
def IsInteger (x : Binary64) (z : Int) : Prop :=
  ∃ (negative : Bool) (rank : Fin finiteCount), x = finite negative rank ∧
    magnitude rank = z.natAbs * unitsInOne ∧ signed negative z.natAbs = z

/-- An integer, given how many of them make a double with all its bits. -/
theorem magnitude_of_shift {m t : Nat} (ht : t ≤ 52) (hlow : 2 ^ 52 ≤ m * 2 ^ t)
    (hhigh : m * 2 ^ t ≤ 2 ^ 53) :
    (1074 - t) * 2 ^ 52 + m * 2 ^ t < finiteCount ∧
      magnitude ((1074 - t) * 2 ^ 52 + m * 2 ^ t) = m * unitsInOne := by
  constructor
  · have hcount : finiteCount = 2047 * 2 ^ 52 := rfl
    have hspacing : (1074 - t) * 2 ^ 52 ≤ 1074 * 2 ^ 52 := Nat.mul_le_mul_right _ (Nat.sub_le _ _)
    omega
  · rw [magnitude_eq rfl hhigh fun _ => hlow, Nat.mul_assoc, ← Nat.pow_add,
      Nat.add_sub_cancel' (by omega), unitsInOne]

/-- The integers up to the bound are doubles. -/
theorem exists_rank {m : Nat} (hm : m ≤ exactBound) :
    ∃ rank : Fin finiteCount, magnitude rank = m * unitsInOne := by
  rcases Nat.eq_zero_or_pos m with rfl | hpos
  · exact ⟨⟨0, by decide⟩, by rw [magnitude_zero, Nat.zero_mul]⟩
  · have hlow := Nat.log2_self_le hpos.ne'
    have hhigh : m < 2 ^ (Nat.log2 m + 1) := Nat.lt_log2_self
    -- Widening to 53 bits; the bound itself has one more and needs none.
    have hwide : 2 ^ 52 ≤ m * 2 ^ (52 - Nat.log2 m) := by
      calc 2 ^ 52 ≤ 2 ^ (Nat.log2 m + (52 - Nat.log2 m)) :=
            Nat.pow_le_pow_right two_pos (by omega)
        _ = 2 ^ Nat.log2 m * 2 ^ (52 - Nat.log2 m) := Nat.pow_add _ _ _
        _ ≤ m * 2 ^ (52 - Nat.log2 m) := Nat.mul_le_mul_right _ hlow
    have hfits : m * 2 ^ (52 - Nat.log2 m) ≤ 2 ^ 53 := by
      rcases Nat.lt_or_ge 52 (Nat.log2 m) with hlog | hlog
      · rw [Nat.sub_eq_zero_of_le hlog.le, Nat.pow_zero, Nat.mul_one]
        exact hm
      · calc m * 2 ^ (52 - Nat.log2 m)
            ≤ 2 ^ (Nat.log2 m + 1) * 2 ^ (52 - Nat.log2 m) := Nat.mul_le_mul_right _ hhigh.le
          _ = 2 ^ (Nat.log2 m + 1 + (52 - Nat.log2 m)) := (Nat.pow_add _ _ _).symm
          _ = 2 ^ 53 := by rw [show Nat.log2 m + 1 + (52 - Nat.log2 m) = 53 by omega]
    obtain ⟨hlt, hmagnitude⟩ := magnitude_of_shift (Nat.sub_le _ _) hwide hfits
    exact ⟨⟨_, hlt⟩, hmagnitude⟩

/-- A quotient of units that is an integer up to the bound is met. -/
theorem isInteger_nearest {n d : Nat} (hd : 0 < d) {z : Int} (hz : z.natAbs ≤ exactBound)
    (h : n = z.natAbs * unitsInOne * d) {negative : Bool}
    (hsign : signed negative z.natAbs = z) : IsInteger (nearest negative n d) z := by
  obtain ⟨rank, hrank⟩ := exists_rank hz
  have hvalue : (n : Rat) / d = magnitude rank := by
    rw [hrank, h, Nat.cast_mul, mul_div_cancel_right₀ _ (by exact_mod_cast hd.ne')]
  refine ⟨negative, rank, ?_, hrank, hsign⟩
  rw [nearest, nearestRank_of_magnitude hd hvalue, ofRank, dif_pos rank.isLt]

section

variable {x y : Binary64} {a b : Int}

theorem signed_natAbs (z : Int) : signed (z < 0) z.natAbs = z := by
  by_cases h : z < 0
  · rw [signed, if_pos (decide_eq_true h)]
    omega
  · rw [signed, if_neg (by simpa using h)]
    omega

theorem natAbs_signed (negative : Bool) (n : Nat) : (signed negative n).natAbs = n := by
  cases negative <;> simp [signed]

theorem signed_not (negative : Bool) (m : Nat) :
    signed (!negative) m = -signed negative m := by
  cases negative <;> simp [signed]

theorem signed_mul (s t : Bool) (m n : Nat) :
    signed (s != t) (m * n) = signed s m * signed t n := by
  cases s <;> cases t <;> simp [signed]

/-- The sign of a quotient: multiplying by the divisor gives that of the
    dividend back. -/
theorem signed_quotient {s t : Bool} (hs : signed s (a * b).natAbs = a * b)
    (ht : signed t b.natAbs = b) (hb : b ≠ 0) : signed (s != t) a.natAbs = a := by
  have hsigns : ((s != t) != t) = s := by cases s <;> cases t <;> rfl
  refine Int.eq_of_mul_eq_mul_right hb ?_
  calc signed (s != t) a.natAbs * b
      = signed (s != t) a.natAbs * signed t b.natAbs := by rw [ht]
    _ = signed s (a * b).natAbs := by rw [← signed_mul, hsigns, Int.natAbs_mul]
    _ = a * b := hs

theorem signed_mul_natCast (negative : Bool) (m k : Nat) :
    signed negative (m * k) = signed negative m * k := by
  cases negative <;> simp [signed]

/-- The value, counted in units. -/
theorem IsInteger.units (h : IsInteger x a) : x.units = a * unitsInOne := by
  obtain ⟨negative, rank, rfl, hmagnitude, hsign⟩ := h
  rw [Binary64.units, hmagnitude, signed_mul_natCast, hsign]

theorem IsInteger.isFinite (h : IsInteger x a) : x.isFinite = true := by
  obtain ⟨negative, rank, rfl, -, -⟩ := h
  rfl

theorem IsInteger.integer? (h : IsInteger x a) : x.integer? = some a := by
  have hunits := h.units
  obtain ⟨negative, rank, rfl, -, -⟩ := h
  have hone : (unitsInOne : Int) ≠ 0 := by exact_mod_cast unitsInOne_pos.ne'
  rw [Binary64.integer?, hunits, if_pos (Int.mul_emod_left _ _), Int.mul_ediv_cancel _ hone]

theorem isInteger_zero (negative : Bool) : IsInteger (zero negative) 0 :=
  ⟨negative, _, rfl, by rw [magnitude_zero]; simp, by cases negative <;> rfl⟩

theorem isInteger_neg (h : IsInteger x a) : IsInteger (-x) (-a) := by
  obtain ⟨negative, rank, rfl, hmagnitude, hsign⟩ := h
  refine ⟨!negative, rank, rfl, by rwa [Int.natAbs_neg], ?_⟩
  rw [Int.natAbs_neg, signed_not, hsign]

/-- A sum up to the bound is exact. -/
theorem isInteger_add (hx : IsInteger x a) (hy : IsInteger y b)
    (hsum : (a + b).natAbs ≤ exactBound) : IsInteger (x + y) (a + b) := by
  have hunits : x.units + y.units = (a + b) * unitsInOne := by
    rw [hx.units, hy.units, Int.add_mul]
  have hone : (0 : Int) < unitsInOne := by exact_mod_cast unitsInOne_pos
  obtain ⟨s, r, rfl, -, -⟩ := hx
  obtain ⟨t, q, rfl, -, -⟩ := hy
  change IsInteger (Binary64.add _ _) _
  rw [Binary64.add]
  simp only [hunits]
  split
  · rename_i hzero
    obtain hzero : a + b = 0 := (Int.mul_eq_zero.1 hzero).resolve_right hone.ne'
    rw [hzero]
    exact isInteger_zero _
  · -- Counting in units does not change the sign.
    have hnegative : ((a + b) * unitsInOne < 0) ↔ a + b < 0 :=
      ⟨fun h => neg_of_mul_neg_left h hone.le, fun h => mul_neg_of_neg_of_pos h hone⟩
    refine isInteger_nearest one_pos hsum ?_ ?_
    · rw [Int.natAbs_mul, Int.natAbs_natCast, Nat.mul_one]
    · rw [decide_eq_decide.2 hnegative, signed_natAbs]

theorem isInteger_sub (hx : IsInteger x a) (hy : IsInteger y b)
    (hdifference : (a - b).natAbs ≤ exactBound) : IsInteger (x - y) (a - b) :=
  isInteger_add hx (isInteger_neg hy) hdifference

/-- A product up to the bound is exact. -/
theorem isInteger_mul (hx : IsInteger x a) (hy : IsInteger y b)
    (hproduct : (a * b).natAbs ≤ exactBound) : IsInteger (x * y) (a * b) := by
  obtain ⟨s, r, rfl, hr, hs⟩ := hx
  obtain ⟨t, q, rfl, hq, ht⟩ := hy
  change IsInteger (Binary64.mul _ _) _
  rw [Binary64.mul]
  refine isInteger_nearest unitsInOne_pos hproduct ?_ ?_
  · rw [hr, hq, Int.natAbs_mul]
    ring
  · rw [Int.natAbs_mul, signed_mul, hs, ht]

/-- A quotient without a remainder is exact. -/
theorem isInteger_div (hx : IsInteger x (a * b)) (hy : IsInteger y b) (hb : b ≠ 0)
    (hquotient : a.natAbs ≤ exactBound) : IsInteger (x / y) a := by
  obtain ⟨s, r, rfl, hr, hs⟩ := hx
  obtain ⟨t, q, rfl, hq, ht⟩ := hy
  have hpos : 0 < b.natAbs * unitsInOne := Nat.mul_pos (Int.natAbs_pos.2 hb) unitsInOne_pos
  have hrank : q.val ≠ 0 := by
    intro hzero
    rw [hzero, magnitude_zero] at hq
    omega
  change IsInteger (Binary64.div _ _) _
  rw [Binary64.div, if_neg hrank, hr, hq]
  refine isInteger_nearest hpos hquotient ?_ ?_
  · rw [Int.natAbs_mul]
    ring
  · exact signed_quotient hs ht hb

end

/-- A numeral of digits up to the bound is read exactly, however many zeros it
    starts with. -/
theorem isInteger_ofNumeral {digits : List Char} (h : Text.naturalValue digits ≤ exactBound) :
    IsInteger (ofNumeral ⟨digits, none⟩) (Text.naturalValue digits) := by
  rw [ofNumeral, ofDecimal]
  refine isInteger_nearest (Decimal.denominator_pos _) (by simpa using h) ?_ rfl
  simp [Numeral.decimal, Decimal.numerator, Decimal.denominator]

end Binary64

end Calculator
