import Calculator.Proofs.Binary64.Integer
import Calculator.Proofs.Precision.Digits
import Calculator.Proofs.Precision.Range

/-!
# Integers at a chosen precision

A number of at most 53 bits is not changed by rounding to a higher precision,
nor by the rounding to a double at the end. A sum of integers is computed as
such: a nonzero integer is never so small, next to another one up to two to
the 53, that something else may be added instead.

A quotient that is an integer leaves no remainder, so it is computed at every
precision, however many digits there are.

## Theorems

* `Precision.toRat_round_of_fits`: A number with few bits is not changed.
* `Precision.toRat_sum`, `toRat_product`, `toRat_quotient` and so on: Exact
  operations.
* `Precision.toRat_ofNumeral`: Numerals are read exactly.
* `Precision.isInteger_toBinary64`: So are results.
-/

namespace Calculator

namespace Precision

/-- The integers up to the bound have 54 bits. -/
theorem fits_integer {bits : Nat} (hbits : 54 ≤ bits) {m : Nat} (hm : m ≤ exactBound) :
    Fits bits m := by
  refine fits_natCast (hm.trans_lt ?_)
  exact Nat.pow_lt_pow_right Nat.one_lt_two (by omega)

section

variable {bits : Nat} {x y : Dyadic} {a b : Int}

theorem natAbs_cast (z : Int) : ((z.natAbs : Nat) : Rat) = |(z : Rat)| := by
  rw [Nat.cast_natAbs, Int.cast_abs]

/-- A dyadic number that is not zero, by its sign and its magnitude. -/
theorem toRat_ofOdd_signed {n : Int} (k : Int) (hn : n % 2 = 1) :
    (Dyadic.ofOdd n k hn).toRat = signedValue (n < 0) ((n.natAbs : Rat) * 2 ^ (-k)) := by
  rw [Dyadic.toRat_ofOdd_eq_mul_two_pow, ← signedValue_mul, ← Binary64.cast_signed,
    Binary64.signed_natAbs]

/-- A quotient with few bits is not changed by rounding. -/
theorem toRat_nearest (hbits : 0 < bits) {n d : Nat} (hd : 0 < d) {shift : Int}
    (h : Fits bits ((n : Rat) / d * 2 ^ (-shift))) (negative : Bool) :
    (nearest bits negative n d shift).toRat =
      signedValue negative ((n : Rat) / d * 2 ^ (-shift)) := by
  obtain ⟨y, hy, hnearest⟩ := rounds_nearest hbits n hd shift
  rw [hnearest, hy.eq_of_fits hbits h]

/-- A number whose magnitude has few bits is not changed by rounding. -/
theorem toRat_round_of_fits (hbits : 0 < bits) (h : Fits bits |x.toRat|) :
    (round bits x).toRat = x.toRat := by
  cases x with
  | zero => rfl
  | ofOdd n k hn =>
    have hvalue : (n.natAbs : Rat) / (1 : Nat) * 2 ^ (-k) = n.natAbs * 2 ^ (-k) := by
      rw [Nat.cast_one, div_one]
    rw [abs_toRat_ofOdd, ← hvalue] at h
    rw [round, toRat_nearest hbits one_pos h, hvalue, toRat_ofOdd_signed]

theorem toRat_round (hbits : 54 ≤ bits) (hx : x.toRat = a) (ha : a.natAbs ≤ exactBound) :
    (round bits x).toRat = a := by
  rw [toRat_round_of_fits (by omega) ?_, hx]
  rw [hx, ← natAbs_cast]
  exact fits_integer hbits ha

/-- A number with an integer as its value, by its sign and its magnitude. -/
theorem ofOdd_of_integer {n k : Int} {hn : n % 2 = 1} (hx : (Dyadic.ofOdd n k hn).toRat = a) :
    (n.natAbs : Rat) * 2 ^ (-k) = a.natAbs ∧ Binary64.signed (n < 0) a.natAbs = a := by
  have hmagnitude : (n.natAbs : Rat) * 2 ^ (-k) = a.natAbs := by
    rw [← abs_toRat_ofOdd n k hn, hx, natAbs_cast]
  refine ⟨hmagnitude, ?_⟩
  have hsigned : ((Binary64.signed (n < 0) a.natAbs : Int) : Rat) = a := by
    rw [Binary64.cast_signed, ← hmagnitude, ← toRat_ofOdd_signed k hn, hx]
  exact_mod_cast hsigned

/-- An integer up to the bound that is not zero, by its leading bit. -/
theorem leadingBit_of_integer {n k : Int} {hn : n % 2 = 1}
    (hx : (Dyadic.ofOdd n k hn).toRat = a) (ha : a.natAbs ≤ exactBound) :
    0 ≤ leadingBit n k ∧ leadingBit n k ≤ 53 := by
  have hne : n ≠ 0 := by
    rintro rfl
    exact absurd hn (by decide)
  obtain ⟨hmagnitude, -⟩ := ofOdd_of_integer hx
  obtain ⟨hlow, hhigh⟩ := leadingBit_bounds hne hmagnitude
  have hpos : (0 : Rat) < a.natAbs := by
    rw [← hmagnitude]
    exact mul_pos (by exact_mod_cast Int.natAbs_pos.2 hne) (two_zpow_pos _)
  have hone : (2 : Rat) ^ (0 : Int) ≤ a.natAbs := by
    rw [zpow_zero]
    exact_mod_cast hpos
  have hbound : (a.natAbs : Rat) ≤ 2 ^ (53 : Int) := by
    have : ((2 ^ 53 : Nat) : Rat) = 2 ^ (53 : Int) := cast_two_pow 53
    rw [← this]
    exact_mod_cast ha
  have hzero := (zpow_lt_zpow_iff_right₀ one_lt_two).1 (hone.trans_lt hhigh)
  have hlast := (zpow_le_zpow_iff_right₀ one_lt_two).1 (hlow.trans hbound)
  omega

/-- Next to an integer up to the bound no other one is too small to matter. -/
theorem standIn_of_integer (hbits : 54 ≤ bits) (hx : x.toRat = a) (ha : a.natAbs ≤ exactBound)
    (hy : y.toRat = b) (hb : b.natAbs ≤ exactBound) : standIn bits x y = y := by
  cases x with
  | zero => rfl
  | ofOdd n k hn =>
    cases y with
    | zero => rfl
    | ofOdd m j hm =>
      have htop := leadingBit_of_integer hx ha
      have hleading := leadingBit_of_integer hy hb
      rw [standIn, if_neg (by omega)]

/-- A sum up to the bound is exact. -/
theorem toRat_sum (hbits : 54 ≤ bits) (hx : x.toRat = a) (ha : a.natAbs ≤ exactBound)
    (hy : y.toRat = b) (hb : b.natAbs ≤ exactBound) (hsum : (a + b).natAbs ≤ exactBound) :
    (sum bits x y).toRat = (a + b : Int) := by
  have hround : ∀ {z : Dyadic}, z.toRat = x.toRat + y.toRat →
      (round bits z).toRat = (a + b : Int) :=
    fun hz => toRat_round hbits (by rw [hz, hx, hy, Int.cast_add]) hsum
  rw [sum]
  split
  · rename_i hzero
    exact hround (by rw [hzero]; exact (zero_add _).symm)
  · split
    · rename_i hzero
      exact hround (by rw [hzero]; exact (add_zero _).symm)
    · split
      · rw [standIn_of_integer hbits hx ha hy hb, exactSum_eq]
        exact hround (Dyadic.toRat_add x y)
      · rw [standIn_of_integer hbits hy hb hx ha, exactSum_eq]
        exact hround (by rw [Dyadic.toRat_add, add_comm])

theorem toRat_neg (hx : x.toRat = a) : (-x).toRat = (-a : Int) := by
  rw [Dyadic.toRat_neg, hx, Int.cast_neg]

/-- A product up to the bound is exact. -/
theorem toRat_product (hbits : 54 ≤ bits) (hx : x.toRat = a) (hy : y.toRat = b)
    (hproduct : (a * b).natAbs ≤ exactBound) : (product bits x y).toRat = (a * b : Int) :=
  toRat_round hbits (by rw [Dyadic.toRat_mul, hx, hy, Int.cast_mul]) hproduct

/-- Where a quotient is an integer, the odd parts leave no remainder. -/
theorem natAbs_mod_of_integer {n k m j : Int} {hn : n % 2 = 1} {hm : m % 2 = 1}
    (hx : (Dyadic.ofOdd n k hn).toRat = (a * b : Int)) (hy : (Dyadic.ofOdd m j hm).toRat = b) :
    n.natAbs % m.natAbs = 0 := by
  -- Powers of two bring both sides to one exponent.
  obtain ⟨s, t, hst⟩ : ∃ s t : Nat, k + s = j + t :=
    ⟨(j - k).toNat, (k - j).toNat, by omega⟩
  have hrat : (n : Rat) * 2 ^ s = a * m * 2 ^ t := by
    rw [Dyadic.toRat_ofOdd_eq_mul_two_pow] at hx hy
    have hs : (2 : Rat) ^ (-k) * 2 ^ (k + s) = 2 ^ s := by
      rw [← zpow_add₀ two_ne_zero, neg_add_cancel_left, zpow_natCast]
    have ht : (2 : Rat) ^ (-j) * 2 ^ (k + s) = 2 ^ t := by
      rw [hst, ← zpow_add₀ two_ne_zero, neg_add_cancel_left, zpow_natCast]
    calc (n : Rat) * 2 ^ s = n * 2 ^ (-k) * 2 ^ (k + s) := by rw [mul_assoc, hs]
      _ = a * (m * 2 ^ (-j)) * 2 ^ (k + s) := by rw [hx, hy, Int.cast_mul]
      _ = a * m * 2 ^ t := by rw [← mul_assoc, mul_assoc, ht]
  have hint : n * 2 ^ s = a * m * 2 ^ t := by exact_mod_cast hrat
  have hdvd : m.natAbs ∣ n.natAbs * 2 ^ s := by
    have hmul : n.natAbs * 2 ^ s = a.natAbs * m.natAbs * 2 ^ t := by
      simpa [Int.natAbs_mul, Int.natAbs_pow] using congrArg Int.natAbs hint
    exact ⟨a.natAbs * 2 ^ t, by rw [hmul]; ring⟩
  have hodd : m.natAbs.Coprime 2 := by
    have hmod : m.natAbs % 2 = 1 := by omega
    rw [Nat.Coprime, Nat.gcd_comm, Nat.gcd_rec, hmod, Nat.gcd_one_left]
  exact Nat.mod_eq_zero_of_dvd ((hodd.pow_right s).dvd_of_dvd_mul_right hdvd)

/-- A quotient without a remainder is computed at every precision, exactly. -/
theorem toRat_quotient (hbits : 54 ≤ bits) (hx : x.toRat = (a * b : Int)) (hy : y.toRat = b)
    (hb : b ≠ 0) (hquotient : a.natAbs ≤ exactBound) :
    ∃ q, quotient? bits x y = some q ∧ q.toRat = a := by
  cases y with
  | zero =>
    rw [Dyadic.zero_eq, Dyadic.toRat_zero] at hy
    exact absurd (by exact_mod_cast hy.symm) hb
  | ofOdd m j hm =>
    cases x with
    | zero =>
      have hproduct : a * b = 0 := by
        rw [Dyadic.zero_eq, Dyadic.toRat_zero] at hx
        exact_mod_cast hx.symm
      refine ⟨.zero, rfl, ?_⟩
      rw [(Int.mul_eq_zero.1 hproduct).resolve_right hb]
      rfl
    | ofOdd n k hn =>
      obtain ⟨hnumerator, hs⟩ := ofOdd_of_integer hx
      obtain ⟨hdenominator, ht⟩ := ofOdd_of_integer hy
      refine ⟨_, by rw [quotient?, natAbs_mod_of_integer hx hy]; rfl, ?_⟩
      have hb' : (b.natAbs : Rat) ≠ 0 := by exact_mod_cast Int.natAbs_ne_zero.2 hb
      have hvalue : (n.natAbs : Rat) / m.natAbs * 2 ^ (-(k - j)) = a.natAbs := by
        rw [show -(k - j) = -k - -j by ring, zpow_sub₀ two_ne_zero, div_mul_div_comm, hnumerator,
          hdenominator, Int.natAbs_mul, Nat.cast_mul, mul_div_cancel_right₀ _ hb']
      have hm' : 0 < m.natAbs := Int.natAbs_pos.2 (by omega)
      have hfits : Fits bits ((n.natAbs : Rat) / m.natAbs * 2 ^ (-(k - j))) := by
        rw [hvalue]
        exact fits_integer hbits hquotient
      rw [toRat_nearest (by omega) hm' hfits, hvalue, ← Binary64.cast_signed,
        Binary64.signed_quotient hs ht hb]

/-- A double with an integer as its value has it at every precision. -/
theorem toRat_ofBinary64_of_isInteger {z : Binary64} (h : z.IsInteger a) :
    (ofBinary64 z).toRat = a := by
  have hunits := h.units
  obtain ⟨negative, rank, rfl, -, -⟩ := h
  rw [ofBinary64, hunits, Dyadic.toRat_ofIntWithPrec_eq_mul_two_pow, Int.cast_mul, Int.cast_natCast,
    cast_unitsInOne, mul_assoc, ← zpow_add₀ two_ne_zero, add_neg_cancel, zpow_zero, mul_one]

/-- A numeral of digits up to the bound is read exactly, as a double or not. -/
theorem toRat_ofNumeral {p : Precision} (hbits : 54 ≤ p.bits) {digits : List Char}
    (h : Text.naturalValue digits ≤ exactBound) :
    (ofNumeral p ⟨digits, none⟩).toRat = ((Text.naturalValue digits : Nat) : Int) := by
  rw [ofNumeral]
  split
  · exact toRat_ofBinary64_of_isInteger (Binary64.isInteger_ofNumeral h)
  · have hvalue : ((Numeral.decimal ⟨digits, none⟩).numerator : Rat) /
        (Numeral.decimal ⟨digits, none⟩).denominator * 2 ^ (-(0 : Int)) =
          (Text.naturalValue digits : Nat) := by
      simp [Numeral.decimal, Decimal.numerator, Decimal.denominator]
    have hfits : Fits p.bits (((Numeral.decimal ⟨digits, none⟩).numerator : Rat) /
        (Numeral.decimal ⟨digits, none⟩).denominator * 2 ^ (-(0 : Int))) := by
      rw [hvalue]
      exact fits_integer hbits h
    rw [toRat_nearest (by omega) (Decimal.denominator_pos _) hfits, hvalue, Int.cast_natCast]
    rfl

theorem abs_integer_le (ha : a.natAbs ≤ exactBound) :
    |(a : Rat)| ≤ (2 ^ 53 - 1 : Nat) * 2 ^ (971 : Int) := by
  have hscale : (2 : Rat) ≤ 2 ^ (971 : Int) := by
    calc (2 : Rat) = 2 ^ (1 : Int) := (zpow_one 2).symm
      _ ≤ 2 ^ (971 : Int) := zpow_le_zpow_right₀ one_le_two (by decide)
  have hbound : a.natAbs ≤ (2 ^ 53 - 1) * 2 := ha.trans (by decide)
  rw [← natAbs_cast]
  calc (a.natAbs : Rat) ≤ ((2 ^ 53 - 1 : Nat) : Rat) * 2 := by exact_mod_cast hbound
    _ ≤ (2 ^ 53 - 1 : Nat) * 2 ^ (971 : Int) := mul_le_mul_of_nonneg_left hscale (Nat.cast_nonneg _)

/-- A number with an integer up to the bound as its value is in range. -/
theorem inRange_of_integer (hx : x.toRat = a) (ha : a.natAbs ≤ exactBound) :
    inRange x = true := by
  rw [inRange_iff, hx]
  exact abs_integer_le ha

/-- The bound itself has more than 53 bits, but only one that counts. -/
theorem fits_of_le_exactBound {m : Nat} (hm : m ≤ exactBound) : Fits 53 m := by
  rcases Nat.lt_or_eq_of_le hm with hlt | rfl
  · exact fits_natCast hlt
  · exact ⟨1, 53, by decide, by rw [Nat.cast_one, one_mul, exactBound, cast_two_pow]; rfl⟩

theorem isInteger_toBinary64_of_pos (hx : x.toRat = a) (ha : a.natAbs ≤ exactBound) (hpos : 0 < a)
    (negative : Bool) :
    (toBinary64 (if negative then -x else x)).IsInteger (Binary64.signed negative a.natAbs) := by
  have hvalue : x.toRat = (a.natAbs : Rat) := by
    rw [hx, natAbs_cast, abs_of_pos (by exact_mod_cast hpos)]
  have hmagnitude : (0 : Rat) < a.natAbs := by exact_mod_cast Int.natAbs_pos.2 hpos.ne'
  obtain ⟨z, m, c, hz, -, hc, hm, hreport⟩ := toBinary64_eq hvalue hmagnitude
  rw [hz.eq_of_fits (by decide) (fits_of_le_exactBound ha)] at hm
  have hsame := Binary64.natAbs_signed negative a.natAbs
  rw [hreport]
  refine Binary64.isInteger_nearest hc (by rwa [hsame]) ?_ (by rw [hsame])
  rw [hsame]
  rw [div_eq_iff (by exact_mod_cast hc.ne')] at hm
  exact_mod_cast hm

/-- An integer up to the bound is reported as the double that it is. -/
theorem isInteger_toBinary64 (hx : x.toRat = a) (ha : a.natAbs ≤ exactBound) :
    (toBinary64 x).IsInteger a := by
  rcases lt_trichotomy a 0 with hneg | rfl | hpos
  · have hback : - -x = x :=
      Dyadic.toRat_inj.1 (by rw [Dyadic.toRat_neg, Dyadic.toRat_neg, neg_neg])
    have h := isInteger_toBinary64_of_pos (toRat_neg hx) (by rwa [Int.natAbs_neg]) (by omega) true
    rw [if_pos rfl, hback, Int.natAbs_neg] at h
    have hsigned := Binary64.signed_natAbs a
    rw [decide_eq_true hneg] at hsigned
    rwa [hsigned] at h
  · obtain rfl : x = .zero := Dyadic.toRat_inj.1 hx
    exact Binary64.isInteger_zero false
  · have h := isInteger_toBinary64_of_pos hx ha hpos false
    have hsigned := Binary64.signed_natAbs a
    rw [decide_eq_false (by omega)] at hsigned
    rwa [hsigned] at h

end

end Precision

end Calculator
