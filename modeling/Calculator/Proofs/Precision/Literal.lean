import Calculator.Proofs.Binary64.Length
import Calculator.Proofs.Literal
import Calculator.Proofs.Precision.Digits
import Calculator.Proofs.Precision.Twice

/-!
# Literals of doubles at a chosen precision

The literal of a double is meant to give the double back at every precision. A
literal with more characters than there are digits does: it is taken for the
double itself. A shorter one is rounded from its decimal digits, first to the
precision and then to a double, and this meets the double exactly if it does
not come to lie halfway between the double, of an odd rank, and a neighbour.
That happens, although rarely.

## Main definitions

* `Precision.IsTie`: A literal that comes to lie halfway.

## Theorems

* `Precision.ofNumeral_meant`: Where the value of a literal lies.
* `Precision.literal_roundTrip_iff`: When a literal gives the double back.
* `Precision.literal_roundTrip_fails`: A literal that does not.
-/

namespace Calculator

namespace Precision

/-- A literal of no more characters than there are digits that comes to lie
    halfway between the double, of an odd rank, and a neighbour: when it is
    rounded to the precision, or when that is rounded to 53 bits. -/
def IsTie (p : Precision) (rank : Nat) (n : Numeral) : Prop :=
  n.text.length ≤ p.digits ∧ rank % 2 = 1 ∧
    (Binary64.IsHalfway rank ((ofNumeral p n).toRat * Binary64.unitsInOne) ∨
      Binary64.IsHalfway rank ((round 53 (ofNumeral p n)).toRat * Binary64.unitsInOne))

/-- Where the value of the literal of a double lies: around the double, in the
    range of the doubles, and on the double itself if the literal is long. -/
structure Meant (p : Precision) (rank : Fin finiteCount) (v : Rat) : Prop where
  /-- It is not negative. -/
  nonneg : 0 ≤ v
  /-- It lies around the double. -/
  around : Binary64.Around rank (v * Binary64.unitsInOne)
  /-- It is no more than the largest double. -/
  range : v * Binary64.unitsInOne ≤ Binary64.magnitude (finiteCount - 1)
  /-- A long literal is taken for the double. -/
  long : p.digits < (Binary64.literalNumeral rank).text.length →
    v * Binary64.unitsInOne = Binary64.magnitude rank

/-- A literal that is taken for the double. -/
theorem meant_of_double (p : Precision) (rank : Fin finiteCount) :
    Meant p rank (ofBinary64 (.finite false rank)).toRat := by
  have hvalue := toRat_ofBinary64 rank
  refine ⟨?_, ?_, ?_, fun _ => hvalue⟩
  · have hone : (0 : Rat) < Binary64.unitsInOne := by exact_mod_cast Binary64.unitsInOne_pos
    refine nonneg_of_mul_nonneg_left ?_ hone
    rw [hvalue]
    exact Nat.cast_nonneg _
  · rw [hvalue]
    exact Binary64.around_magnitude rank
  · rw [hvalue]
    exact Binary64.cast_magnitude_mono (by have := rank.isLt; omega)

/-- A literal that is rounded from its decimal digits. -/
theorem meant_of_decimal {p : Precision} (hbits : 54 ≤ p.bits) (rank : Fin finiteCount)
    (hshort : ¬p.digits < (Binary64.literalNumeral rank).text.length) :
    Meant p rank (nearest p.bits false (Binary64.literalNumeral rank).decimal.numerator
      (Binary64.literalNumeral rank).decimal.denominator 0).toRat := by
  have hpos : 0 < p.bits := by omega
  have hden := (Binary64.literalNumeral rank).decimal.denominator_pos
  rcases rounds_nearest hpos (Binary64.literalNumeral rank).decimal.numerator hden 0 with
    ⟨y, hy, hround⟩
  rw [hround false, signedValue, if_neg (by simp)]
  rw [neg_zero, zpow_zero, mul_one, Decimal.numerator_div_denominator] at hy
  have hunits : Rounds p.bits
      ((Binary64.literalNumeral rank).decimal.value * Binary64.unitsInOne)
      (y * Binary64.unitsInOne) := by
    rw [cast_unitsInOne]
    exact hy.mul_two_zpow 1074
  have hread := (Binary64.ofDecimal_eq_finite_iff false _ rank).1
    (Binary64.ofNumeral_literalNumeral rank)
  have haround := Binary64.around_of_nearestRank hden hread
  rw [Binary64.units_of_decimal] at haround
  -- The digits lie around the double, and the bits suffice not to leave it.
  refine ⟨hy.nonneg, ⟨fun q hq => ?_, ?_⟩, ?_, fun hlong => absurd hlong hshort⟩
  · exact hunits.ge_of_fits hpos ((fits_halfway q).mono hbits) (haround.low q hq)
  · exact hunits.le_of_fits hpos ((fits_halfway rank).mono hbits) haround.high
  · refine hunits.le_of_fits hpos ((fits_magnitude _).mono (by omega)) ?_
    rw [Binary64.value_literalNumeral]
    exact Binary64.value_shortest_le rank

/-- The value of the literal of a double. -/
theorem ofNumeral_meant {p : Precision} (hbits : 54 ≤ p.bits) (rank : Fin finiteCount) :
    Meant p rank (ofNumeral p (Binary64.literalNumeral rank)).toRat := by
  unfold ofNumeral
  split
  · rw [Binary64.ofNumeral_literalNumeral]
    exact meant_of_double p rank
  · exact meant_of_decimal hbits rank ‹_›

/-- What is reported for a literal is a double of its sign that is the double
    meant or next to it, and is that double unless the literal is a tie. -/
theorem toBinary64_literal {p : Precision} (hbits : 54 ≤ p.bits) (rank : Fin finiteCount)
    (negative : Bool) (hpos : 0 < (ofNumeral p (Binary64.literalNumeral rank)).toRat) :
    ∃ w : Fin finiteCount, toBinary64 (if negative then -ofNumeral p (Binary64.literalNumeral rank)
        else ofNumeral p (Binary64.literalNumeral rank)) = .finite negative w ∧
      w.val ≤ rank + 1 ∧ rank.val ≤ w + 1 ∧
      (w = rank ↔ ¬IsTie p rank (Binary64.literalNumeral rank)) := by
  have hmeant := ofNumeral_meant hbits rank
  rcases toBinary64_eq rfl hpos with ⟨z, m, c, hz, hround, hc, hm, hreport⟩
  unfold IsTie
  rw [hround]
  generalize (ofNumeral p (Binary64.literalNumeral rank)).toRat = v at *
  have hunits : Rounds 53 (v * Binary64.unitsInOne) (z * Binary64.unitsInOne) := by
    rw [cast_unitsInOne]
    exact hz.mul_two_zpow 1074
  have hone : (0 : Rat) < Binary64.unitsInOne := by exact_mod_cast Binary64.unitsInOne_pos
  have htwice := nearestRank_twice_iff (mul_pos hpos hone).le hc hm hunits hmeant.around
  -- Doubles have 53 bits, so neither rounding crosses one.
  have hle : ∀ r, v * Binary64.unitsInOne ≤ Binary64.magnitude r → Binary64.nearestRank m c ≤ r :=
    fun r h => Binary64.nearestRank_le hc (hm ▸ hunits.le_of_fits (by decide) (fits_magnitude r) h)
  have hge : ∀ r, (Binary64.magnitude r : Rat) ≤ v * Binary64.unitsInOne →
      r ≤ Binary64.nearestRank m c :=
    fun r h => Binary64.le_nearestRank hc (hm ▸ hunits.ge_of_fits (by decide) (fits_magnitude r) h)
  have hrange : Binary64.nearestRank m c < finiteCount := by
    have := hle _ hmeant.range
    have : 0 < finiteCount := by decide
    omega
  refine ⟨⟨Binary64.nearestRank m c, hrange⟩, ?_, ?_, ?_, ?_⟩
  · rw [hreport, Binary64.nearest, Binary64.ofRank, dif_pos hrange]
  · exact hle _ (hmeant.around.high.trans (Binary64.halfway_lt_magnitude rank).le)
  · rcases hr : rank.val with _ | q
    · exact Nat.zero_le _
    · have := hge q ((Binary64.magnitude_lt_halfway q).le.trans (hmeant.around.low q hr.symm))
      exact Nat.succ_le_succ this
  · rw [Fin.ext_iff]
    rcases Nat.lt_or_ge p.digits (Binary64.literalNumeral rank).text.length with hlong | hshort
    · have hvalue := hmeant.long hlong
      refine ⟨fun _ htie => absurd htie.1 (not_le.2 hlong), fun _ => ?_⟩
      exact le_antisymm (hle rank hvalue.le) (hge rank hvalue.ge)
    · rw [htwice]
      exact not_congr ⟨fun h => ⟨hshort, h⟩, fun h => h.2⟩

theorem sameNumber_finite_iff (negative : Bool) (w rank : Fin finiteCount) :
    Binary64.sameNumber (.finite negative w) (.finite negative rank) = true ↔ w = rank := by
  have hmag : (Binary64.magnitude w : Int) = Binary64.magnitude rank ↔ w = rank := by
    rw [Nat.cast_inj, Binary64.magnitude_strictMono.injective.eq_iff, Fin.ext_iff]
  cases negative with
  | false => simpa [Binary64.sameNumber, Binary64.units, Binary64.signed] using hmag
  | true => simpa [Binary64.sameNumber, Binary64.units, Binary64.signed] using hmag

/-- What the literal of a double is evaluated to, if its value is in range and
    reported as a finite double. -/
theorem evaluate_literal {rank : Fin finiteCount} (negative : Bool) (digits : Int)
    (mode : AngleMode)
    (hrange : inRange (ofNumeral (ofDigits digits) (Binary64.literalNumeral rank)) = true)
    {s : Bool} {w : Fin finiteCount}
    (hreport : toBinary64
      (if negative then -ofNumeral (ofDigits digits) (Binary64.literalNumeral rank)
        else ofNumeral (ofDigits digits) (Binary64.literalNumeral rank)) = .finite s w) :
    (Backend.extended digits).evaluate mode
      (Binary64.withSign negative (Binary64.literalNumeral rank).text) = .ok (.finite s w) := by
  have hfinite : (Binary64.ofNumeral (Binary64.literalNumeral rank)).isFinite = true := by
    rw [Binary64.ofNumeral_literalNumeral]
    rfl
  have hread := number_of_reads (p := ofDigits digits)
    (reads_of_length_le (Binary64.length_digits_literalNumeral rank))
  have hevaluate := Formula.evaluateOver_withSign (ofDigits digits).arithmetic mode
    negative (Binary64.isPositional_literalNumeral rank) hfinite hread hrange
  have hreport' : (ofDigits digits).arithmetic.toBinary64
      (if negative then (ofDigits digits).arithmetic.negate
          (ofNumeral (ofDigits digits) (Binary64.literalNumeral rank))
        else ofNumeral (ofDigits digits) (Binary64.literalNumeral rank)) = .finite s w :=
    hreport
  rw [Backend.evaluate, Backend.evaluateWithin, hevaluate, Arithmetic.result, hreport']
  rfl

/-- The literal of a double, evaluated at any number of digits, gives a double
    that is the one meant or next to it, and it gives the double meant, but for
    the sign of a zero, exactly if the literal is not a tie. -/
theorem literal_roundTrip_iff (negative : Bool) (rank : Fin finiteCount) (digits : Int)
    (mode : AngleMode) :
    ∃ (n : Numeral) (text : List Char) (s : Bool) (w : Fin finiteCount),
      Formula.literal (.finite negative rank) = .ok text ∧ n.IsPositional ∧
      text = Binary64.withSign negative n.text ∧
      (Backend.extended digits).evaluate mode text = .ok (.finite s w) ∧
      w.val ≤ rank + 1 ∧ rank.val ≤ w + 1 ∧
      (Binary64.sameNumber (.finite s w) (.finite negative rank) = true ↔
        ¬IsTie (ofDigits digits) rank n) := by
  have hn := Binary64.isPositional_literalNumeral rank
  have hbits := lt_bits_ofDigits digits
  have hmeant := ofNumeral_meant hbits rank
  have hliteral := Formula.literal_finite negative rank
  rcases hmeant.nonneg.lt_or_eq with hpos | hzero
  · have hrange := inRange_of_le false rfl hpos hmeant.range
    rcases toBinary64_literal hbits rank negative hpos with ⟨w, hreport, hle, hge, hsame⟩
    refine ⟨Binary64.literalNumeral rank, _, negative, w, hliteral, hn, rfl,
      evaluate_literal negative digits mode hrange hreport, hle, hge, ?_⟩
    rw [sameNumber_finite_iff, hsame]
  · -- Only the literals of the zeros are zero, and there is one zero at this precision.
    have hrank : rank.val = 0 := by
      rcases hr : rank.val with _ | q
      · rfl
      · have hlow := hmeant.around.low q hr.symm
        rw [← hzero, zero_mul] at hlow
        have hpos := (Nat.cast_nonneg (Binary64.magnitude q)).trans_lt
          (Binary64.magnitude_lt_halfway q)
        exact absurd hlow hpos.not_ge
    have hvalue := Dyadic.toRat_eq_zero_iff.1 hzero.symm
    have hreport : toBinary64
        (if negative then -ofNumeral (ofDigits digits) (Binary64.literalNumeral rank)
          else ofNumeral (ofDigits digits) (Binary64.literalNumeral rank)) =
        .finite false ⟨0, by decide⟩ := by
      rw [hvalue, Dyadic.neg_zero, ite_self]
      rfl
    refine ⟨Binary64.literalNumeral rank, _, false, ⟨0, by decide⟩, hliteral, hn, rfl,
      evaluate_literal negative digits mode (by rw [hvalue]; rfl) hreport, Nat.zero_le _,
      by omega, ?_⟩
    have hodd : ¬IsTie (ofDigits digits) rank (Binary64.literalNumeral rank) := fun htie => by
      have := htie.2.1
      omega
    have hsame :
        Binary64.sameNumber (.finite false ⟨0, by decide⟩) (.finite negative rank) = true := by
      cases negative with
      | false => simp [Binary64.sameNumber, Binary64.units, Binary64.signed, hrank]
      | true => simp [Binary64.sameNumber, Binary64.units, Binary64.signed, hrank]
    exact iff_of_true hsame hodd

/-- A double of an odd rank whose literal is a tie at the fewest digits, and the
    double below it. -/
def tied : Fin finiteCount × Fin finiteCount :=
  (⟨4605149786195086873, by decide⟩, ⟨4605149786195086872, by decide⟩)

theorem text_tied :
    (Binary64.literalNumeral tied.1).text =
      ['0', '.', '7', '7', '4', '3', '3', '2', '4', '4', '8', '1', '4', '0', '2', '3', '1'] := by
  decide +kernel

theorem report_tied :
    inRange (ofNumeral (ofDigits 20) (Binary64.literalNumeral tied.1)) = true ∧
      toBinary64 (ofNumeral (ofDigits 20) (Binary64.literalNumeral tied.1)) =
        .finite false tied.2 := by
  decide +kernel

/-- Not every literal gives the double back: at the fewest digits the number
    0.774332448140231 becomes the double below it. -/
theorem literal_roundTrip_fails :
    ∃ (text : List Char) (x : Binary64),
      text = ['0', '.', '7', '7', '4', '3', '3', '2', '4', '4', '8', '1', '4', '0', '2', '3', '1'] ∧
      Formula.literal (.finite false tied.1) = .ok text ∧
      (Backend.extended 20).evaluate .radians text = .ok x ∧
      Binary64.sameNumber x (.finite false tied.1) = false := by
  have hliteral := Formula.literal_finite false tied.1
  have hvalue := evaluate_literal (s := false) (w := tied.2) false 20 .radians report_tied.1
    (by rw [if_neg (by simp), report_tied.2])
  refine ⟨_, _, text_tied, hliteral, hvalue, ?_⟩
  rw [Bool.eq_false_iff, ne_eq, sameNumber_finite_iff]
  decide

end Precision

end Calculator
