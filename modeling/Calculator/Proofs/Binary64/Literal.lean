import Calculator.Binary64.Reading
import Calculator.Proofs.Binary64.Rank
import Calculator.Proofs.Decimal
import Calculator.Proofs.Numeral

/-!
# The digits of a double

The fewest digits that read back are found by asking the reader, so they do
read back; the exact expansion behind the search does as well. The text of a
double and its literal are two layouts of these digits and denote the same
decimal number. Since rounding depends on that number only, the numeral of a
literal is read as the magnitude of the double.

## Main definitions

* `Binary64.literalNumeral`: The literal of a rank, as a numeral.
* `Text.number?`: The rational number that a text denotes.

## Theorems

* `Binary64.ofDecimal_congr`: Reading depends on the value of a decimal only.
* `Binary64.ofDecimal_shortest`: The fewest digits read back.
* `Binary64.ofNumeral_literalNumeral`: So does the literal.
* `Binary64.number?_text`, `Binary64.number?_literal`: Text and literal denote
  the same number.
-/

namespace Calculator

namespace Binary64

theorem ofRank_eq_finite_iff (negative : Bool) (n : Nat) (rank : Fin finiteCount) :
    ofRank negative n = finite negative rank ↔ n = rank := by
  unfold ofRank
  split
  · simp [Fin.ext_iff]
  · rename_i h
    exact ⟨fun hinf => absurd hinf (by simp), fun heq => absurd (heq ▸ rank.isLt) h⟩

/-- The number of units in a decimal, as the quotient that is rounded. -/
theorem units_of_decimal (x : Decimal) :
    ((x.numerator * unitsInOne : Nat) : Rat) / x.denominator = x.value * unitsInOne := by
  push_cast
  rw [mul_div_right_comm, x.numerator_div_denominator]

/-- Which rank a decimal is read as. -/
theorem ofDecimal_eq_finite_iff (negative : Bool) (x : Decimal) (rank : Fin finiteCount) :
    ofDecimal negative x = finite negative rank ↔
      nearestRank (x.numerator * unitsInOne) x.denominator = rank :=
  ofRank_eq_finite_iff negative _ rank

/-- Reading depends on the value of a decimal only. -/
theorem ofDecimal_congr {x y : Decimal} (h : x.value = y.value) (negative : Bool) :
    ofDecimal negative x = ofDecimal negative y := by
  unfold ofDecimal nearest
  rw [nearestRank_congr x.denominator_pos y.denominator_pos]
  rw [units_of_decimal, units_of_decimal, h]

/-- Five to a power makes a power of two one of ten. -/
theorem cast_mul_five_pow (n k : Nat) :
    ((n * 5 ^ k : Nat) : Rat) * 10 ^ (-(k : Int)) * (2 ^ k : Nat) = n := by
  have hpow : (5 : Rat) ^ k * 2 ^ k = 10 ^ k := by
    rw [← mul_pow]
    norm_num
  have hne : (10 : Rat) ^ k ≠ 0 := pow_ne_zero k (by norm_num)
  push_cast
  rw [zpow_neg, zpow_natCast, mul_right_comm, mul_assoc (n : Rat), hpow, mul_inv_cancel_right₀ hne]

/-- The exact expansion is the value. -/
theorem value_expansion (rank : Nat) :
    (expansion rank).value * unitsInOne = magnitude rank := by
  -- The powers are not to be computed.
  have hneg : (-1074 : Int) = -((1074 : Nat) : Int) := rfl
  unfold expansion unitsInOne Decimal.value
  simp only [hneg]
  generalize 1074 = k
  exact cast_mul_five_pow (magnitude rank) k

theorem ofDecimal_expansion (rank : Fin finiteCount) :
    ofDecimal false (expansion rank) = finite false rank := by
  rw [ofDecimal_eq_finite_iff]
  exact nearestRank_of_magnitude (Decimal.denominator_pos _)
    (by rw [units_of_decimal, value_expansion])

/-- The fewest digits read back. -/
theorem ofDecimal_shortest (rank : Fin finiteCount) :
    ofDecimal false (shortest rank) = finite false rank := by
  unfold shortest
  split
  · -- The digits of zero are not searched for.
    rename_i hzero
    rw [ofDecimal_eq_finite_iff, hzero]
    exact nearestRank_of_magnitude (Decimal.denominator_pos _)
      (by rw [units_of_decimal, Decimal.value, Nat.cast_zero, zero_mul, zero_mul, magnitude_zero,
        Nat.cast_zero])
  · rw [ofDecimal_congr (Decimal.value_stripZeros _)]
    -- What the search finds reads back, since that is what it asks for.
    cases h : (candidates rank).find? fun x => ofDecimal false x = finite false rank with
    | none => exact ofDecimal_expansion rank
    | some x => simpa using List.find?_some h

/-- The literal of a rank, as a numeral. -/
def literalNumeral (rank : Fin finiteCount) : Numeral :=
  (shortest rank).positionalNumeral (isPlain (shortest rank))

theorem isPositional_literalNumeral (rank : Fin finiteCount) :
    (literalNumeral rank).IsPositional :=
  Decimal.isPositional_positionalNumeral _ _

theorem value_literalNumeral (rank : Fin finiteCount) :
    (literalNumeral rank).decimal.value = (shortest rank).value :=
  Decimal.value_positionalNumeral _ _

/-- The literal reads back. -/
theorem ofNumeral_literalNumeral (rank : Fin finiteCount) :
    ofNumeral (literalNumeral rank) = finite false rank := by
  rw [ofNumeral, ofDecimal_congr (value_literalNumeral rank), ofDecimal_shortest]

theorem text_positionalNumeral_false (x : Decimal) :
    (x.positionalNumeral false).text = x.positional := by
  unfold Decimal.positionalNumeral Decimal.positional
  split
  · simp [Decimal.wholeNumeral, Numeral.text]
  · rfl

theorem text_positionalNumeral_true (x : Decimal) :
    (x.positionalNumeral true).text = plainText x := by
  unfold Decimal.positionalNumeral plainText Decimal.positional
  split
  · simp [Decimal.wholeNumeral, Numeral.text]
  · rfl

theorem literal?_finite (negative : Bool) (rank : Fin finiteCount) :
    literal? (finite negative rank) = some (withSign negative (literalNumeral rank).text) := by
  simp only [literal?, literalNumeral]
  cases isPlain (shortest rank) with
  | false =>
      rw [text_positionalNumeral_false]
      rfl
  | true =>
      rw [text_positionalNumeral_true]
      rfl

end Binary64

namespace Decimal

/-- The digits of a text with an exponent, as a numeral. -/
def scientificNumeral (x : Decimal) : Numeral :=
  match x.digits with
  | first :: second :: rest => ⟨[first], some (second :: rest)⟩
  | digits => ⟨digits, none⟩

theorem text_scientificNumeral (x : Decimal) :
    x.scientificNumeral.text ++ 'e' :: exponentText x.leading = x.scientific := by
  unfold scientificNumeral scientific
  rcases x.digits with _ | ⟨first, _ | ⟨second, rest⟩⟩
  · simp [Numeral.text]
  · simp [Numeral.text]
  · simp [Numeral.text]

theorem isPositional_scientificNumeral (x : Decimal) : x.scientificNumeral.IsPositional := by
  have hdigits : ∀ c ∈ x.digits, c.isDigit = true := fun c hc => Text.isDigit_of_mem_toDigits hc
  unfold scientificNumeral
  split
  · rename_i first second rest heq
    rw [heq] at hdigits
    exact ⟨by simp, by simp, by simpa using hdigits⟩
  · exact ⟨Nat.toDigits_ne_nil, by simp, by simpa using hdigits⟩

/-- The digits are counted from the first one in a text with an exponent. -/
theorem value_scientificNumeral (x : Decimal) :
    x.scientificNumeral.decimal.value * 10 ^ x.leading = x.value := by
  have hten : (10 : Rat) ≠ 0 := by norm_num
  have hvalue : Text.naturalValue x.digits = x.coefficient := Text.naturalValue_toDigits _
  have hpos : 0 < x.digits.length := Nat.length_toDigits_pos
  have hnumeral :
      x.scientificNumeral.decimal = ⟨x.coefficient, -((x.digits.length - 1 : Nat) : Int)⟩ := by
    unfold scientificNumeral
    split
    · rename_i first second rest heq
      simp only [Numeral.decimal, Option.getD_some, List.singleton_append, heq] at hvalue ⊢
      rw [hvalue]
      rfl
    · -- There is at least one digit, and here there are not two.
      rename_i hnot
      have hone : x.digits.length = 1 := by
        rcases hd : x.digits with _ | ⟨first, _ | ⟨second, rest⟩⟩
        · rw [hd] at hpos
          exact absurd hpos (by simp)
        · rfl
        · exact absurd hd (hnot first second rest)
      simp [Numeral.decimal, hvalue, hone]
  rw [hnumeral, value, value, mul_assoc, ← zpow_add₀ hten, leading,
    show -((x.digits.length - 1 : Nat) : Int) + (x.exponent + x.digits.length - 1) = x.exponent by
      omega]

end Decimal

namespace Binary64

/-- An exponent written out is read back. -/
theorem exponent?_exponentText (exponent : Int) :
    exponent? ('e' :: Decimal.exponentText exponent) = some exponent := by
  have hmem : ∀ c ∈ List.replicate (2 - (Nat.toDigits 10 exponent.natAbs).length) '0' ++
      Nat.toDigits 10 exponent.natAbs, Text.isDecimalDigit c = true := by
    intro c hc
    rcases List.mem_append.1 hc with hc | hc
    · rw [List.eq_of_mem_replicate hc]
      decide
    · exact Text.isDecimalDigit_of_isDigit c (Text.isDigit_of_mem_toDigits hc)
  have hvalue := Text.naturalValue_replicate_toDigits
    (2 - (Nat.toDigits 10 exponent.natAbs).length) exponent.natAbs
  have hmark : 'e'.toLower = 'e' := by decide
  unfold exponent? Decimal.exponentText
  by_cases hneg : exponent < 0
  · simp [hneg, Text.splitSign, hmark, List.all_eq_true.2 hmem, hvalue, abs_of_neg hneg]
  · simp [hneg, Text.splitSign, hmark, List.all_eq_true.2 hmem, hvalue,
      abs_of_nonneg (not_lt.1 hneg)]

end Binary64

namespace Text

/-- The rational number that a text denotes: a sign, a numeral and an
    exponent. -/
def number? (text : List Char) : Option Rat := do
  let (negative, rest) := splitSign text
  let (numeral, rest) ← Numeral.scan? rest
  let exponent ← Binary64.exponent? rest
  some (signedValue negative (numeral.decimal.value * 10 ^ exponent))

/-- A minus sign is split off, and nothing else is taken for a sign. -/
theorem splitSign_withSign (negative : Bool) {n : Numeral} (hn : n.IsPositional)
    (rest : List Char) :
    splitSign (Binary64.withSign negative (n.text ++ rest)) = (negative, n.text ++ rest) := by
  cases negative with
  | true => rfl
  | false =>
      rcases hw : n.whole with _ | ⟨c, whole⟩
      · exact absurd hw hn.whole_ne_nil
      · -- The text starts with a digit, which is neither sign.
        have hc : c.isDigit = true := hn.isDigit c (by simp [hw])
        have hminus : c ≠ '-' := by
          rintro rfl
          exact absurd hc (by decide)
        have hplus : c ≠ '+' := by
          rintro rfl
          exact absurd hc (by decide)
        simp only [Binary64.withSign, Numeral.text, hw, List.cons_append]
        unfold splitSign
        split
        · rename_i heq
          exact absurd (List.cons.inj heq).1 hminus
        · rename_i heq
          exact absurd (List.cons.inj heq).1 hplus
        · rfl

/-- What a numeral with a sign and an exponent denotes. -/
theorem number?_withSign (negative : Bool) {n : Numeral} (hn : n.IsPositional)
    (rest : List Char) {exponent : Int} (hexp : Binary64.exponent? rest = some exponent)
    (hd : ∀ c ∈ rest.head?, isDecimalDigit c = false) (hp : rest.head? ≠ some '.') :
    number? (Binary64.withSign negative (n.text ++ rest)) =
      some (signedValue negative (n.decimal.value * 10 ^ exponent)) := by
  simp [number?, splitSign_withSign negative hn, Numeral.scan?_text_append hn.wellFormed hd
    (fun _ => hp), hexp]

end Text

namespace Binary64

/-- A text with an exponent denotes its decimal. -/
theorem number?_scientific (negative : Bool) (x : Decimal) :
    Text.number? (withSign negative x.scientific) = some (signedValue negative x.value) := by
  rw [← Decimal.text_scientificNumeral, Text.number?_withSign negative
    (Decimal.isPositional_scientificNumeral _) _ (exponent?_exponentText _) (by simp; decide)
    (by simp), Decimal.value_scientificNumeral]

/-- The literal denotes the digits of the double. -/
theorem number?_literal (negative : Bool) (rank : Fin finiteCount) :
    Text.number? (withSign negative (literalNumeral rank).text) =
      some (signedValue negative (shortest rank).value) := by
  have h := Text.number?_withSign negative (isPositional_literalNumeral rank) []
    rfl (by simp) (by simp)
  rwa [List.append_nil, zpow_zero, mul_one, value_literalNumeral] at h

/-- So does the text. -/
theorem number?_text (negative : Bool) (rank : Fin finiteCount) :
    Text.number? (text (finite negative rank)) =
      some (signedValue negative (shortest rank).value) := by
  simp only [text]
  split
  · -- In the plain range the text is a numeral with a point.
    have h := Text.number?_withSign negative
      (Decimal.isPositional_positionalNumeral (shortest rank) true) [] rfl (by simp) (by simp)
    rwa [List.append_nil, zpow_zero, mul_one, Decimal.value_positionalNumeral,
      text_positionalNumeral_true] at h
  · exact number?_scientific negative (shortest rank)

end Binary64

end Calculator
