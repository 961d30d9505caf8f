import Calculator.Proofs.Precision.Literal
import Calculator.Proofs.Precision.Numeral
import Calculator.Proofs.Range
import Calculator.Proofs.Writing

/-!
# The edge of the range

Whether a numeral is too large is decided twice. A reader asks for the nearest
double, which is finite up to half a spacing beyond the largest one. The value
at a chosen precision is compared with the largest double itself, and it is
rounded on a finer grid: it is in range up to half a spacing of that grid
beyond the largest double. Between the two points lie numerals that are read
but have no value.

They have to be as long as the largest double is, with 309 digits, and no
longer than there are digits, since longer ones are taken for the double
nearest to them. So there are none at fewer than 309 digits, and some at every
precision with as many. With more digits still, a numeral may also be too long
to be read when its value is asked for, however small it is.

## Main definitions

* `Precision.edge`: The last point that is rounded into the range.
* `Precision.Exceeds`: The numerals that are rounded beyond it.

## Theorems

* `Precision.fits_nearest`: What has been rounded has the bits.
* `Precision.Rounds.le_iff_of_even`: What is rounded to at most an even number
  of spacings.
* `Precision.inRange_nearest_iff`: What is rounded into the range.
* `Precision.inRange_ofNumeral_iff`: The numerals whose value is in range.
* `Precision.exists_exceeds_iff`: At how many digits there are others.
* `Backend.evaluate_numeral`: What a numeral alone is evaluated to.
-/

namespace Calculator

/-! ### Rounding near a number of the grid -/

namespace Precision

variable {bits : Nat}

/-- The bits above the ones that are dropped. -/
theorem div_two_pow_log2_lt (q bits : Nat) : q / 2 ^ (Nat.log2 q + 1 - bits) < 2 ^ bits := by
  rw [Nat.div_lt_iff_lt_mul (Nat.two_pow_pos _), ← Nat.pow_add]
  exact Nat.lt_log2_self.trans_le (Nat.pow_le_pow_right two_pos (by omega))

/-- Rounding up may yield one bit more, with only zeros behind it. -/
theorem fits_divNearest (hbits : 0 < bits) {a b : Nat} (h : a / b < 2 ^ bits) (e : Int) :
    Fits bits ((divNearest a b : Rat) * 2 ^ e) := by
  have hle : divNearest a b ≤ 2 ^ bits := (divNearest_le_div_add_one a b).trans h
  rcases Nat.lt_or_eq_of_le hle with hlt | heq
  · exact ⟨divNearest a b, e, hlt, rfl⟩
  · refine ⟨1, bits + e, Nat.one_lt_two_pow hbits.ne', ?_⟩
    rw [heq, zpow_add₀ two_ne_zero, ← cast_two_pow, Nat.cast_one, one_mul]

/-- What has been rounded has the bits. -/
theorem fits_nearest (hbits : 0 < bits) (negative : Bool) (n d : Nat) (shift : Int) :
    Fits bits |(nearest bits negative n d shift).toRat| := by
  have hsigned : ∀ (m : Nat) (k : Int), |(inLowestTerms (Binary64.signed negative m) k).toRat| =
      m * 2 ^ (-k) := fun m k => by
    rw [toRat_inLowestTerms, Binary64.cast_signed, signedValue_mul,
      abs_signedValue negative (mul_nonneg (Nat.cast_nonneg m) (two_zpow_pos _).le)]
  simp only [nearest, quotientBy]
  split
  · rw [hsigned]
    exact fits_divNearest hbits (div_two_pow_log2_lt _ bits) _
  · rw [hsigned]
    refine fits_divNearest hbits ?_ _
    rw [← Nat.div_div_eq_div_mul]
    exact div_two_pow_log2_lt _ bits

/-- Between two neighbours with all the bits there is no number with the bits. -/
theorem Fits.not_between (hbits : 0 < bits) {g : Rat} (h : Fits bits g) {m : Nat} {e : Int}
    (hm : 2 ^ (bits - 1) ≤ m) : ¬((m : Rat) * 2 ^ e < g ∧ g < (m + 1 : Nat) * 2 ^ e) := by
  rintro ⟨hlow, hhigh⟩
  rcases h.on_grid hbits e with ⟨c, rfl⟩ | hlt
  · rw [mul_lt_mul_iff_left₀ (two_zpow_pos e), Nat.cast_lt] at hlow hhigh
    omega
  · exact absurd (hlt.trans_le (mul_two_zpow_le hm e)) hlow.not_gt

/-- The number of bits of the integral part tells the grid. -/
theorem exponent_le {m a b : Nat} (hb : 0 < b) {e e' : Int} (hlow : 2 ^ (bits - 1) ≤ m)
    (hhigh : a / b < 2 ^ bits) (h : (m : Rat) * 2 ^ e < (a : Rat) / b * 2 ^ e') : e ≤ e' := by
  by_contra hlt
  have hb' : (0 : Rat) < b := by exact_mod_cast hb
  have hquot : (a : Rat) / b < 2 ^ bits := by
    rw [div_lt_iff₀ hb']
    exact_mod_cast (Nat.div_lt_iff_lt_mul hb).1 hhigh
  have hm : (2 : Rat) ^ bits ≤ m * 2 := by
    have hpow : 2 ^ bits ≤ 2 ^ (bits - 1) * 2 := by
      rw [← Nat.pow_succ]
      exact Nat.pow_le_pow_right two_pos (by omega)
    exact_mod_cast hpow.trans (Nat.mul_le_mul_right 2 hlow)
  have hgrid : (2 : Rat) * 2 ^ e' ≤ 2 ^ e := by
    rw [← zpow_one_add₀ two_ne_zero]
    exact zpow_le_zpow_right₀ one_le_two (by omega)
  refine absurd h (not_lt.2 ?_)
  calc (a : Rat) / b * 2 ^ e' ≤ m * 2 * 2 ^ e' :=
        mul_le_mul_of_nonneg_right (hquot.le.trans hm) (two_zpow_pos e').le
    _ = m * (2 * 2 ^ e') := mul_assoc _ _ _
    _ ≤ m * 2 ^ e := mul_le_mul_of_nonneg_left hgrid (Nat.cast_nonneg m)

/-- What is rounded to at most an even number of spacings is at most half a
    spacing more, and the point halfway is included. -/
theorem Rounds.le_iff_of_even {x y : Rat} (h : Rounds bits x y) (hbits : 0 < bits)
    (hy : Fits bits y) {m : Nat} (hm : 2 ^ (bits - 1) ≤ m) (hm' : m + 1 < 2 ^ bits)
    (heven : m % 2 = 0) (e : Int) :
    y ≤ m * 2 ^ e ↔ x ≤ m * 2 ^ e + 2 ^ (e - 1) := by
  have hhalf : (0 : Rat) < 2 ^ (e - 1) := two_zpow_pos _
  have hdouble : (2 : Rat) ^ e = 2 * 2 ^ (e - 1) := by
    rw [← zpow_one_add₀ two_ne_zero, add_sub_cancel]
  have hnext : ((m + 1 : Nat) : Rat) * 2 ^ e = m * 2 ^ e + 2 ^ e := by
    push_cast
    ring
  rcases le_or_gt x (m * 2 ^ e) with hle | hgt
  · -- Neither the number nor the one above it is crossed.
    exact iff_of_true (h.le_of_fits hbits ⟨m, e, by omega, rfl⟩ hle) (by linarith)
  rcases le_or_gt (((m + 1 : Nat) : Rat) * 2 ^ e) x with hge | hlt
  · have hup := h.ge_of_fits hbits ⟨m + 1, e, hm', rfl⟩ hge
    exact iff_of_false (by linarith) (by linarith)
  rcases h with ⟨a, b, e', hb, rfl, rfl, rfl | ⟨hlow, hhigh⟩⟩
  · -- A number with the bits is not strictly between two neighbours.
    have hsame : (a : Rat) / (1 : Nat) * 2 ^ e' = divNearest a 1 * 2 ^ e' := by
      rw [divNearest_one, Nat.cast_one, div_one]
    rw [hsame] at hgt hlt
    exact absurd ⟨hgt, hlt⟩ (hy.not_between hbits hm)
  · -- A quotient with all its bits there is one on the same grid.
    have hb' : (0 : Rat) < b := by exact_mod_cast hb
    have hfloor : ((a / b : Nat) : Rat) * 2 ^ e' < (((m + 1 : Nat) : Rat) / (1 : Nat)) * 2 ^ e := by
      rw [Nat.cast_one, div_one]
      exact (floor_mul_le a b e').trans_lt hlt
    obtain rfl : e = e' := le_antisymm (exponent_le hb hm hhigh hgt)
      (exponent_le one_pos hlow (by rwa [Nat.div_one]) hfloor)
    -- An even number takes the point halfway as well.
    have hround : divNearest a b ≤ m ↔ a * 2 ≤ (m * 2 + 1) * b := by
      rw [divNearest_le_iff hb, Nat.mul_comm a 2, Nat.mul_comm m 2, Nat.mul_comm _ b]
      omega
    rw [mul_le_mul_iff_left₀ (two_zpow_pos e), Nat.cast_le, hround, hdouble, ← mul_assoc,
      ← mul_assoc, ← add_one_mul, mul_le_mul_iff_left₀ hhalf, div_mul_eq_mul_div, div_le_iff₀ hb']
    exact_mod_cast Iff.rfl

/-! ### The largest double -/

/-- The last point that is rounded into the range: half a spacing of the grid
    of the precision beyond the largest double. -/
def edge (bits : Nat) : Rat :=
  (2 ^ 53 - 1 : Nat) * 2 ^ (971 : Int) + 2 ^ (1023 - bits : Int)

/-- The largest double is an integer. -/
theorem largest_eq :
    (2 ^ 53 - 1 : Nat) * 2 ^ (971 : Int) = (((2 ^ 53 - 1) * 2 ^ 971 : Nat) : Rat) := by
  rw [Nat.cast_mul, cast_two_pow]
  rfl

/-- On the grid of a precision the largest double has an even significand. -/
theorem exists_largest (hbits : 54 ≤ bits) :
    ∃ m : Nat, 2 ^ (bits - 1) ≤ m ∧ m + 1 < 2 ^ bits ∧ m % 2 = 0 ∧
      (m : Rat) * 2 ^ (1024 - bits : Int) = (2 ^ 53 - 1 : Nat) * 2 ^ (971 : Int) := by
  obtain ⟨k, rfl⟩ := Nat.exists_eq_add_of_le hbits
  have hpow : 0 < 2 ^ k := Nat.two_pow_pos k
  refine ⟨(2 ^ 53 - 1) * 2 ^ (k + 1), ?_, ?_, ?_, ?_⟩
  · rw [show 54 + k - 1 = 53 + k by omega, Nat.pow_add, Nat.pow_succ]
    omega
  · rw [Nat.pow_add 2 54 k, Nat.pow_succ]
    omega
  · rw [Nat.pow_succ]
    omega
  · rw [Nat.cast_mul, cast_two_pow, mul_assoc, ← zpow_add₀ two_ne_zero]
    congr 2
    push_cast
    ring

/-- What is rounded into the range is at most the edge. -/
theorem inRange_nearest_iff (hbits : 54 ≤ bits) {n d : Nat} (hd : 0 < d) (shift : Int)
    (negative : Bool) :
    inRange (nearest bits negative n d shift) = true ↔
      (n : Rat) / d * 2 ^ (-shift) ≤ edge bits := by
  have hpos : 0 < bits := by omega
  have hfits := fits_nearest hpos negative n d shift
  rcases rounds_nearest hpos n hd shift with ⟨y, hy, hnearest⟩
  rw [hnearest, abs_signedValue negative hy.nonneg] at hfits
  rcases exists_largest hbits with ⟨m, hlow, hhigh, heven, hm⟩
  have hround := hy.le_iff_of_even hpos hfits hlow hhigh heven (1024 - bits)
  rw [hm, show (1024 - bits - 1 : Int) = 1023 - bits by ring] at hround
  rw [inRange_iff, hnearest, abs_signedValue negative hy.nonneg]
  exact hround

/-- The literal of a double has a value in range. -/
theorem Meant.inRange {p : Precision} {rank : Fin finiteCount} {x : Dyadic}
    (h : Meant p rank x.toRat) : inRange x = true := by
  have hrange := h.range
  rw [magnitude_last, cast_unitsInOne, show (2045 : Int) = 971 + 1074 from rfl,
    zpow_add₀ two_ne_zero, ← mul_assoc] at hrange
  rw [inRange_iff, abs_of_nonneg h.nonneg]
  exact le_of_mul_le_mul_right hrange (two_zpow_pos _)

/-- A numeral of no more characters than there are digits that is rounded
    beyond the range. -/
def Exceeds (p : Precision) (n : Numeral) : Prop :=
  n.text.length ≤ p.digits ∧ edge p.bits < n.decimal.value

/-- The numerals that are read and whose value is in range. -/
theorem inRange_ofNumeral_iff {p : Precision} (hbits : 54 ≤ p.bits) {n : Numeral}
    (hfinite : (Binary64.ofNumeral n).isFinite = true) :
    inRange (ofNumeral p n) = true ↔ ¬p.Exceeds n := by
  unfold ofNumeral Exceeds
  split
  · -- A long numeral is taken for a double.
    rename_i hlong
    refine iff_of_true ?_ fun h => absurd h.1 (not_le.2 hlong)
    revert hfinite
    unfold Binary64.ofNumeral Binary64.ofDecimal Binary64.nearest Binary64.ofRank
    split
    · exact fun _ => (meant_of_double p _).inRange
    · exact fun h => absurd h (by simp [Binary64.isFinite])
  · rename_i hshort
    rw [inRange_nearest_iff hbits (Decimal.denominator_pos _), neg_zero, zpow_zero, mul_one,
      Decimal.numerator_div_denominator, not_and, not_lt]
    exact ⟨fun h _ => h, fun h => h (not_lt.1 hshort)⟩

/-! ### How long such numerals are -/

/-- Shorter numerals than the largest double are in range. -/
theorem Exceeds.le_length {p : Precision} {n : Numeral} (h : p.Exceeds n) :
    309 ≤ n.text.length := by
  by_contra hshort
  have hbound : 10 ^ 308 ≤ (2 ^ 53 - 1) * 2 ^ 971 := by decide +kernel
  have hpower : 10 ^ n.text.length ≤ (2 ^ 53 - 1) * 2 ^ 971 :=
    (Nat.pow_le_pow_right (by decide) (by omega)).trans hbound
  have hvalue : n.decimal.value < (10 ^ n.text.length : Nat) := by exact_mod_cast n.value_lt
  have hover := h.2
  rw [edge, largest_eq] at hover
  have hhalf := two_zpow_pos (1023 - p.bits : Int)
  exact absurd (hvalue.trans_le (Nat.cast_le.2 hpower)) (by linarith)

theorem Exceeds.le_digits {digits : Int} {n : Numeral} (h : (ofDigits digits).Exceeds n) :
    309 ≤ digits := by
  have hlength := h.le_length.trans h.1
  have hmin : minDigits = 20 := rfl
  simp only [ofDigits] at hlength
  omega

/-- A numeral a little larger than the largest double, which is the double
    nearest to it: the 17 digits that the double is written with, the last one
    increased by one, and the zeros behind them. -/
def pastLargest : Numeral :=
  ⟨"17976931348623158".toList ++ List.replicate 292 '0', none⟩

theorem isTypable_pastLargest : pastLargest.IsTypable :=
  ⟨forall_mem_of_all (by decide +kernel), by decide +kernel, by decide +kernel⟩

theorem length_pastLargest : pastLargest.text.length = 309 := by decide +kernel

theorem value_pastLargest :
    pastLargest.decimal.value = (17976931348623158 * 10 ^ 292 : Nat) := by
  have hdecimal : pastLargest.decimal = ⟨17976931348623158 * 10 ^ 292, 0⟩ := by decide +kernel
  rw [hdecimal, Decimal.value, zpow_zero, mul_one]

/-- It is beyond the edge of every precision there is. -/
theorem edge_lt_pastLargest (hbits : 54 ≤ bits) : edge bits < pastLargest.decimal.value := by
  have hhalf : (2 : Rat) ^ (1023 - bits : Int) ≤ (2 ^ 969 : Nat) := by
    rw [cast_two_pow]
    exact zpow_le_zpow_right₀ one_le_two (by omega)
  have hlt : (2 ^ 53 - 1) * 2 ^ 971 + 2 ^ 969 < 17976931348623158 * 10 ^ 292 := by decide +kernel
  calc edge bits ≤ ((2 ^ 53 - 1) * 2 ^ 971 : Nat) + (2 ^ 969 : Nat) := by
        rw [edge, largest_eq]
        exact add_le_add_right hhalf _
    _ = ((2 ^ 53 - 1) * 2 ^ 971 + 2 ^ 969 : Nat) := (Nat.cast_add _ _).symm
    _ < pastLargest.decimal.value := by
        rw [value_pastLargest]
        exact Nat.cast_lt.2 hlt

theorem exceeds_pastLargest {digits : Int} (h : 309 ≤ digits) :
    (ofDigits digits).Exceeds pastLargest := by
  refine ⟨?_, edge_lt_pastLargest (lt_bits_ofDigits digits)⟩
  rw [length_pastLargest]
  simp only [ofDigits]
  omega

/-- There are numerals that are read and have no value exactly if there are as
    many digits as the largest double has. -/
theorem exists_exceeds_iff (digits : Int) :
    (∃ n : Numeral, n.IsTypable ∧ (ofDigits digits).Exceeds n) ↔ 309 ≤ digits :=
  ⟨fun ⟨_, _, h⟩ => h.le_digits, fun h => ⟨_, isTypable_pastLargest, exceeds_pastLargest h⟩⟩

end Precision

/-! ### Numerals alone -/

/-- A numeral alone is scanned and read as a number, whatever its digits. -/
theorem Formula.parse_text {n : Numeral} (hn : n.WellFormed)
    (hfinite : (Binary64.ofNumeral n).isFinite = true) :
    parse NestingLimit.standard n.text = .ok (.number n) := by
  have hwellFormed : ∀ t ∈ [Lexeme.number n], t.WellFormed := by
    simpa [Lexeme.WellFormed] using hn
  rcases Token.scan_flatMap_text hwellFormed (by simp) with ⟨tokens, hscan, htokens⟩
  have htext : [Lexeme.number n].flatMap Lexeme.text = n.text := by simp [Lexeme.text]
  have hlexemes : tokens.map Token.lexeme = signedLexemes false n := htokens
  rw [htext] at hscan
  rw [parse, hscan]
  exact ofTokens_withSign hfinite hlexemes

/-- So is what is typed. -/
theorem Formula.read_text {n : Numeral} (hn : n.IsTypable) :
    read NestingLimit.standard n.text = .ok (.number n) := by
  have htypable : ∀ m ∈ (Expr.number n).numerals, m.IsTypable := List.forall_mem_singleton.2 hn
  have hclean : Keypad.clean n.text = n.text := Expr.clean_written htypable
  have hexpand : expandWithin NestingLimit.standard n.text = .ok n.text :=
    Expr.expandWithin_written htypable NestingLimit.standard
  rw [read, hclean, hexpand]
  exact parse_text hn.wellFormed hn.isFinite

/-- A numeral typed alone is reported as the double of its value. -/
theorem Formula.evaluateOver_text {α : Type} {a : Arithmetic α} (closed : a.Closed) {n : Numeral}
    (hn : n.IsTypable) (mode : AngleMode) :
    evaluateOver a NestingLimit.standard mode n.text =
      ((Expr.number n).eval a mode NestingLimit.standard).map a.toBinary64 :=
  evaluateOver_eq_map closed (read_text hn)

/-- What comes of a numeral that is evaluated at a number of digits. -/
inductive Precision.NumeralOutcome {α : Type} (digits : Int) (n : Numeral) (value : α) :
    Except Failure α → Prop
  /-- It is too long to be read. -/
  | tooLong (h : n.TooLong digits) : NumeralOutcome digits n value (.error (.tooManyDigits n))
  /-- Its value is out of range. -/
  | exceeds (h : ¬n.TooLong digits) (hover : (ofDigits digits).Exceeds n) :
    NumeralOutcome digits n value (.error .notFinite)
  /-- It has its value. -/
  | value (h : ¬n.TooLong digits) (hrange : ¬(ofDigits digits).Exceeds n) :
    NumeralOutcome digits n value (.ok value)

namespace Precision.NumeralOutcome

variable {α β : Type} {digits : Int} {n : Numeral} {value : α} {result : Except Failure α}

theorem map (h : NumeralOutcome digits n value result) (f : α → β) :
    NumeralOutcome digits n (f value) (result.map f) := by
  cases h with
  | tooLong h => exact .tooLong h
  | exceeds h hover => exact .exceeds h hover
  | value h hrange => exact .value h hrange

theorem eq_ok_iff (h : NumeralOutcome digits n value result) :
    result = .ok value ↔ ¬n.TooLong digits ∧ ¬(ofDigits digits).Exceeds n := by
  cases h <;> simp [*]

theorem eq_notFinite_iff (h : NumeralOutcome digits n value result) :
    result = .error .notFinite ↔ ¬n.TooLong digits ∧ (ofDigits digits).Exceeds n := by
  cases h <;> simp [*]

theorem eq_tooManyDigits_iff (h : NumeralOutcome digits n value result) :
    result = .error (.tooManyDigits n) ↔ n.TooLong digits := by
  cases h <;> simp [*]

end Precision.NumeralOutcome

section

variable {n : Numeral} (hfinite : (Binary64.ofNumeral n).isFinite = true) (mode : AngleMode)

include hfinite

/-- As a double a numeral that is read has a value. -/
theorem Binary64.eval_number :
    (Expr.number n).eval arithmetic mode NestingLimit.standard = .ok (ofNumeral n) := by
  rw [Expr.eval_number rfl, Arithmetic.literal_of_some (Formula.arithmetic_number n)]
  exact (arithmetic.checked_eq_ok_iff _).2 hfinite

/-- At a chosen precision it may be too long or too large. -/
theorem Precision.eval_number (digits : Int) :
    NumeralOutcome digits n (ofNumeral (ofDigits digits) n)
      ((Expr.number n).eval (ofDigits digits).arithmetic mode NestingLimit.standard) := by
  rw [Expr.eval_number rfl]
  by_cases hlong : n.TooLong digits
  · rw [Arithmetic.literal_of_none (number_of_tooLong hlong)]
    exact .tooLong hlong
  · have hrange := inRange_ofNumeral_iff (lt_bits_ofDigits digits) hfinite
    rw [Arithmetic.literal_of_some (number_of_not_tooLong hlong)]
    by_cases hexceeds : (ofDigits digits).Exceeds n
    · rw [(Arithmetic.checked_eq_error_iff _ _).2 fun h => hrange.1 h hexceeds]
      exact .exceeds hlong hexceeds
    · rw [(Arithmetic.checked_eq_ok_iff _ _).2 (hrange.2 hexceeds)]
      exact .value hlong hexceeds

end

namespace Backend

variable {n : Numeral}

/-- Typed alone, a numeral has its double as its result. -/
theorem double_evaluate_text (hn : n.IsTypable) (mode : AngleMode) :
    Backend.double.evaluate mode n.text = .ok (Binary64.ofNumeral n) := by
  have hreport : Binary64.arithmetic.toBinary64 = id := by simp only [Binary64.arithmetic]
  rw [evaluate, evaluateWithin, Formula.evaluateOver_text Binary64.closed_arithmetic hn,
    Binary64.eval_number hn.isFinite, hreport, Except.map, id]

/-- At a chosen precision its value is reported. -/
theorem extended_evaluate_text (hn : n.IsTypable) (mode : AngleMode) (digits : Int) :
    Precision.NumeralOutcome digits n
      (Precision.toBinary64 (Precision.ofNumeral (Precision.ofDigits digits) n))
      ((Backend.extended digits).evaluate mode n.text) := by
  have hclosed : (Precision.ofDigits digits).arithmetic.Closed :=
    Precision.closed_arithmetic ((by decide : 53 ≤ 54).trans (Precision.lt_bits_ofDigits digits))
  rw [evaluate, evaluateWithin, Formula.evaluateOver_text hclosed hn]
  exact (Precision.eval_number hn.isFinite mode digits).map _

/-- Behind enough zeros no integer is read. -/
theorem evaluate_padded {zeros value : Nat} {digits : Int} (h : value ≤ exactBound)
    (hzeros : 4300 ≤ zeros) (hdigits : zeros + (Nat.toDigits 10 value).length ≤ digits)
    (mode : AngleMode) :
    (Backend.extended digits).evaluate mode (Numeral.padded zeros value).text =
      .error (.tooManyDigits (.padded zeros value)) :=
  (extended_evaluate_text (Numeral.isTypable_padded h zeros) mode digits).eq_tooManyDigits_iff.2
    (Numeral.tooLong_padded hzeros hdigits)

/-- A numeral in the range of the doubles is read as a number, and as a double
    it has a value in either mode. At a chosen precision it has one too, unless
    it is too long to be read, or exceeds the range there, for which there have
    to be 309 digits. The same holds of the numeral typed alone. -/
theorem evaluate_numeral (hn : n.WellFormed) (hfinite : (Binary64.ofNumeral n).isFinite = true)
    (mode : AngleMode) :
    Formula.parse NestingLimit.standard n.text = .ok (.number n) ∧
      (Expr.number n).eval Binary64.arithmetic mode NestingLimit.standard =
        .ok (Binary64.ofNumeral n) ∧
      (∀ digits,
        ((Expr.number n).eval (Precision.ofDigits digits).arithmetic mode NestingLimit.standard =
            .ok (Precision.ofNumeral (Precision.ofDigits digits) n) ↔
          ¬n.TooLong digits ∧ ¬(Precision.ofDigits digits).Exceeds n) ∧
        ((Expr.number n).eval (Precision.ofDigits digits).arithmetic mode NestingLimit.standard =
            .error .notFinite ↔ ¬n.TooLong digits ∧ (Precision.ofDigits digits).Exceeds n) ∧
        ((Expr.number n).eval (Precision.ofDigits digits).arithmetic mode NestingLimit.standard =
            .error (.tooManyDigits n) ↔ n.TooLong digits) ∧
        ((Precision.ofDigits digits).Exceeds n → 309 ≤ n.text.length ∧ 309 ≤ digits) ∧
        (n.TooLong digits → 4300 < digits)) ∧
      (n.IsTypable →
        Backend.double.evaluate mode n.text = .ok (Binary64.ofNumeral n) ∧
        ∀ digits,
          ((∃ x, (Backend.extended digits).evaluate mode n.text = .ok x ∧ x.isFinite = true) ↔
            ¬n.TooLong digits ∧ ¬(Precision.ofDigits digits).Exceeds n) ∧
          ((Backend.extended digits).evaluate mode n.text = .error .notFinite ↔
            ¬n.TooLong digits ∧ (Precision.ofDigits digits).Exceeds n) ∧
          ((Backend.extended digits).evaluate mode n.text = .error (.tooManyDigits n) ↔
            n.TooLong digits)) := by
  refine ⟨Formula.parse_text hn hfinite, Binary64.eval_number hfinite mode, fun digits => ?_,
    fun htypable => ⟨double_evaluate_text htypable mode, fun digits => ?_⟩⟩
  · have houtcome := Precision.eval_number hfinite mode digits
    exact ⟨houtcome.eq_ok_iff, houtcome.eq_notFinite_iff, houtcome.eq_tooManyDigits_iff,
      fun h => ⟨h.le_length, h.le_digits⟩, Numeral.TooLong.lt_digits⟩
  · have houtcome := extended_evaluate_text htypable mode digits
    refine ⟨?_, houtcome.eq_notFinite_iff, houtcome.eq_tooManyDigits_iff⟩
    rw [← houtcome.eq_ok_iff]
    constructor
    · rintro ⟨x, hx, -⟩
      -- There is only one value that a numeral can have.
      rw [hx] at houtcome ⊢
      cases houtcome
      rfl
    · intro h
      exact ⟨_, h, Backend.isFinite_of_evaluate h⟩

/-- A numeral past the largest double, at one digit too few and at as many digits
    as it has. -/
theorem evaluate_numeral_pastLargest :
    Precision.pastLargest.WellFormed ∧
      (Binary64.ofNumeral Precision.pastLargest).isFinite = true ∧
      (∃ x, (Backend.extended 308).evaluate .degrees Precision.pastLargest.text = .ok x ∧
        x.isFinite = true) ∧
      (Backend.extended 309).evaluate .degrees Precision.pastLargest.text = .error .notFinite := by
  have htypable := Precision.isTypable_pastLargest
  have hall := evaluate_numeral htypable.wellFormed htypable.isFinite .degrees
  refine ⟨htypable.wellFormed, htypable.isFinite, ?_, ?_⟩
  · refine ((hall.2.2.2 htypable).2 308).1.2 ⟨fun h => ?_, fun h => ?_⟩
    · exact absurd h.lt_digits (by decide)
    · exact absurd h.le_digits (by decide)
  · refine ((hall.2.2.2 htypable).2 309).2.1.2
      ⟨fun h => ?_, Precision.exceeds_pastLargest (by decide)⟩
    exact absurd h.lt_digits (by decide)

/-- A numeral in the range of the doubles that is refused at 309 digits. -/
theorem refuses_pastLargest :
    (Binary64.ofNumeral Precision.pastLargest).isFinite = true ∧
      Formula.read NestingLimit.standard Precision.pastLargest.text =
        .ok (.number Precision.pastLargest) ∧
      Precision.pastLargest.text = "17976931348623158".toList ++ List.replicate 292 '0' ∧
      Backend.double.evaluate .radians Precision.pastLargest.text = .ok (Binary64.largest false) ∧
      (Backend.extended 309).evaluate .radians Precision.pastLargest.text = .error .notFinite := by
  have htypable := Precision.isTypable_pastLargest
  have hlargest : Binary64.ofNumeral Precision.pastLargest = Binary64.largest false := by
    decide +kernel
  refine ⟨htypable.isFinite, Formula.read_text htypable, by decide +kernel, ?_, ?_⟩
  · rw [double_evaluate_text htypable, hlargest]
  · refine (extended_evaluate_text htypable .radians 309).eq_notFinite_iff.2
      ⟨fun h => ?_, Precision.exceeds_pastLargest (by decide)⟩
    exact absurd h.lt_digits (by decide)

end Backend

end Calculator
