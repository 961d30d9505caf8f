import Calculator.Decimal
import Calculator.Numeral
import Mathlib.Algebra.Order.Field.Basic
import Mathlib.Algebra.Order.Field.Power
import Mathlib.Data.List.Basic
import Mathlib.Data.List.Induction
import Mathlib.Data.Rat.Cast.Order
import Mathlib.Tactic.Ring

/-!
# The values of decimals

A decimal and a numeral denote rational numbers. The numerators, denominators
and zeros at the end that the texts are made of do not matter for the value,
and digits written out are read back as the number they came from.

## Main definitions

* `Decimal.value`: The rational number that a decimal is.
* `Decimal.positionalNumeral`: The text without an exponent, as a numeral.

## Theorems

* `Decimal.numerator_div_denominator`: The quotient is the value.
* `Decimal.value_stripZeros`: Zeros at the end may be dropped.
* `Text.naturalValue_toDigits`: Digits written out are read back.
* `Numeral.value_lt`: The length of a numeral bounds its value.
* `Decimal.value_positionalNumeral`: So is the text without an exponent.
-/

namespace Calculator

namespace Text

theorem isDigit_of_mem_toDigits {n : Nat} {c : Char} (h : c ∈ Nat.toDigits 10 n) :
    c.isDigit = true :=
  Nat.isDigit_of_mem_toDigits (by decide) (by decide) h

/-- The value of an ASCII digit. -/
theorem digitValue?_of_isDigit {c : Char} (h : c.isDigit = true) :
    digitValue? c = some (c.toNat - 48) := by
  have hc : 0x30 ≤ c.toNat ∧ c.toNat ≤ 0x39 := by
    simp only [Char.isDigit, Bool.and_eq_true, decide_eq_true_eq] at h
    exact ⟨h.1, h.2⟩
  simp [digitValue?, scriptZeros, hc.1, hc.2]

/-- A run of ASCII digits is read as the core library reads it. -/
theorem naturalValue_of_isDigit {digits : List Char} (h : ∀ c ∈ digits, c.isDigit = true) :
    naturalValue digits = Nat.ofDigitChars 10 digits 0 := by
  rw [naturalValue, Nat.ofDigitChars_eq_foldl]
  refine List.foldl_ext _ _ 0 fun n c hc => ?_
  rw [digitValue?_of_isDigit (h c hc)]
  rfl

/-- Digits written out, with any number of zeros before them, are read back. -/
theorem naturalValue_replicate_toDigits (zeros n : Nat) :
    naturalValue (List.replicate zeros '0' ++ Nat.toDigits 10 n) = n := by
  rw [naturalValue_of_isDigit, Nat.ofDigitChars_append, Nat.ofDigitChars_replicate_zero,
    Nat.mul_zero, Nat.ofDigitChars_ten_toDigits]
  intro c hc
  rcases List.mem_append.1 hc with hc | hc
  · rw [List.eq_of_mem_replicate hc]
    decide
  · exact isDigit_of_mem_toDigits hc

theorem naturalValue_toDigits (n : Nat) : naturalValue (Nat.toDigits 10 n) = n :=
  naturalValue_replicate_toDigits 0 n

/-- A digit behind others counts ten times less than they do. -/
theorem naturalValue_append_zero (digits : List Char) :
    naturalValue (digits ++ ['0']) = naturalValue digits * 10 := by
  have h : digitValue? '0' = some 0 := by decide
  rw [naturalValue, naturalValue, List.foldl_append, List.foldl_cons, List.foldl_nil, h]
  simp [Nat.mul_comm]

theorem getD_digitValue?_le (c : Char) : (digitValue? c).getD 0 ≤ 9 := by
  rw [digitValue?]
  cases hbase : scriptZeros.find? fun base => base ≤ c.toNat && c.toNat ≤ base + 9 with
  | none => simp
  | some base =>
      have hrange := List.find?_some hbase
      simp only [Bool.and_eq_true, decide_eq_true_eq] at hrange
      simp only [Option.map_some, Option.getD_some]
      omega

/-- So many digits, of whatever script, have less than the power of ten. -/
theorem naturalValue_lt (digits : List Char) : naturalValue digits < 10 ^ digits.length := by
  induction digits using List.reverseRecOn with
  | nil => simp [naturalValue]
  | append_singleton digits c ih =>
      have hc := getD_digitValue?_le c
      rw [naturalValue] at ih ⊢
      rw [List.foldl_append, List.foldl_cons, List.foldl_nil, List.length_append,
        List.length_singleton, Nat.pow_succ]
      omega

end Text

namespace Decimal

/-- The rational number that a decimal is. -/
def value (x : Decimal) : Rat :=
  x.coefficient * 10 ^ x.exponent

theorem denominator_pos (x : Decimal) : 0 < x.denominator :=
  Nat.pow_pos (by decide)

theorem numerator_div_denominator (x : Decimal) :
    (x.numerator : Rat) / x.denominator = x.value := by
  have hsplit : x.exponent = (x.exponent.toNat : Int) - ((-x.exponent).toNat : Int) := by omega
  have hten : (10 : Rat) ≠ 0 := by norm_num
  rw [value, numerator, denominator]
  conv => rhs; rw [hsplit, zpow_sub₀ hten, zpow_natCast, zpow_natCast]
  push_cast
  rw [mul_div_assoc]

theorem value_stripZerosFor (fuel coefficient : Nat) (exponent : Int) :
    (stripZerosFor fuel coefficient exponent).value =
      (⟨coefficient, exponent⟩ : Decimal).value := by
  induction fuel generalizing coefficient exponent with
  | zero => rfl
  | succ fuel ih =>
      unfold stripZerosFor
      split
      · -- A zero at the end is a factor of ten, which the exponent takes over.
        rename_i hzero
        rw [ih]
        have hten : (10 : Rat) ≠ 0 := by norm_num
        have hc : (coefficient : Rat) = (coefficient / 10 : Nat) * 10 := by
          exact_mod_cast (Nat.div_mul_cancel (Nat.dvd_of_mod_eq_zero hzero)).symm
        simp only [value]
        rw [zpow_add₀ hten, zpow_one, hc]
        ring
      · rfl

/-- Zeros at the end may be dropped. -/
theorem value_stripZeros (x : Decimal) : x.stripZeros.value = x.value := by
  unfold stripZeros
  split
  · rename_i hzero
    simp [value, hzero]
  · exact value_stripZerosFor _ _ _

end Decimal

namespace Numeral

/-- A numeral of ASCII digits that has some before its point and, if there is a
    point, behind it. -/
structure IsPositional (n : Numeral) : Prop where
  /-- There are digits before the point. -/
  whole_ne_nil : n.whole ≠ []
  /-- There are digits behind a point. -/
  fraction_ne_nil : n.fraction ≠ some []
  /-- All of them are ASCII digits. -/
  isDigit : ∀ c ∈ n.whole ++ n.fraction.getD [], c.isDigit = true

theorem IsPositional.wellFormed {n : Numeral} (h : n.IsPositional) : n.WellFormed :=
  ⟨fun c hc => Text.isDecimalDigit_of_isDigit c (h.isDigit c hc),
    fun hnil => h.whole_ne_nil (List.append_eq_nil_iff.1 hnil).1⟩

/-- A numeral is less than the power of ten of its length. -/
theorem value_lt (n : Numeral) : n.decimal.value < 10 ^ n.text.length := by
  have hlength : (n.whole ++ n.fraction.getD []).length ≤ n.text.length := by
    cases h : n.fraction <;> simp [text, h]
  have hvalue : Text.naturalValue (n.whole ++ n.fraction.getD []) < 10 ^ n.text.length :=
    (Text.naturalValue_lt _).trans_le (Nat.pow_le_pow_right (by decide) hlength)
  have hscale : (10 : Rat) ^ (-((n.fraction.getD []).length : Int)) ≤ 1 :=
    zpow_le_one_of_nonpos₀ (by norm_num) (by omega)
  calc n.decimal.value
      ≤ Text.naturalValue (n.whole ++ n.fraction.getD []) :=
        mul_le_of_le_one_right (Nat.cast_nonneg _) hscale
    _ < 10 ^ n.text.length := by exact_mod_cast hvalue

end Numeral

namespace Decimal

/-- The numeral that a natural number is written as, with a zero behind a point
    if one is asked for. -/
def wholeNumeral (n : Nat) (point : Bool) : Numeral :=
  ⟨Nat.toDigits 10 n, if point then some ['0'] else none⟩

theorem isPositional_wholeNumeral (n : Nat) (point : Bool) :
    (wholeNumeral n point).IsPositional := by
  refine ⟨Nat.toDigits_ne_nil, ?_, fun c hc => ?_⟩
  · cases point with
    | false => simp [wholeNumeral]
    | true => simp [wholeNumeral]
  · rcases List.mem_append.1 hc with hc | hc
    · exact Text.isDigit_of_mem_toDigits hc
    · cases point with
      | false => simp [wholeNumeral] at hc
      | true =>
          have h : c = '0' := by simpa [wholeNumeral] using hc
          rw [h]
          decide

theorem value_wholeNumeral (n : Nat) (point : Bool) :
    (wholeNumeral n point).decimal.value = n := by
  cases point with
  | false => simp [wholeNumeral, Numeral.decimal, value, Text.naturalValue_toDigits]
  | true =>
      simp [wholeNumeral, Numeral.decimal, value, Text.naturalValue_append_zero,
        Text.naturalValue_toDigits]

/-- The numeral of digits with a point before the last `places` of them. -/
def pointedNumeral (digits : List Char) (places : Nat) : Numeral :=
  let padded := List.replicate (places + 1 - digits.length) '0' ++ digits
  ⟨padded.take (padded.length - places), some (padded.drop (padded.length - places))⟩

theorem isPositional_pointedNumeral {digits : List Char} {places : Nat} (hp : 0 < places)
    (hd : ∀ c ∈ digits, c.isDigit = true) : (pointedNumeral digits places).IsPositional := by
  -- The padding leaves at least one digit before the point.
  have hlength :
      places + 1 ≤ (List.replicate (places + 1 - digits.length) '0' ++ digits).length := by
    rw [List.length_append, List.length_replicate]
    omega
  refine ⟨fun h => ?_, fun h => ?_, fun c hc => ?_⟩
  · have := congrArg List.length h
    simp only [pointedNumeral, List.length_take, List.length_nil] at this
    omega
  · have := congrArg List.length (Option.some.inj h)
    simp only [List.length_drop, List.length_nil] at this
    omega
  · simp only [pointedNumeral, Option.getD_some, List.take_append_drop] at hc
    rcases List.mem_append.1 hc with hc | hc
    · rw [List.eq_of_mem_replicate hc]
      decide
    · exact hd c hc

theorem decimal_pointedNumeral (n places : Nat) :
    (pointedNumeral (Nat.toDigits 10 n) places).decimal = ⟨n, -(places : Int)⟩ := by
  have hlength : places ≤ (List.replicate (places + 1 - (Nat.toDigits 10 n).length) '0' ++
      Nat.toDigits 10 n).length := by
    rw [List.length_append, List.length_replicate]
    omega
  simp only [pointedNumeral, Numeral.decimal, Option.getD_some, List.take_append_drop,
    Text.naturalValue_replicate_toDigits, List.length_drop]
  rw [Nat.sub_sub_self hlength]

/-- The text without an exponent, as a numeral; an integer gets a zero behind
    a point if one is asked for. -/
def positionalNumeral (x : Decimal) (point : Bool) : Numeral :=
  if 0 ≤ x.exponent then wholeNumeral x.numerator point
  else pointedNumeral x.digits (-x.exponent).toNat

theorem isPositional_positionalNumeral (x : Decimal) (point : Bool) :
    (x.positionalNumeral point).IsPositional := by
  unfold positionalNumeral
  split
  · exact isPositional_wholeNumeral x.numerator point
  · exact isPositional_pointedNumeral (by omega) fun c hc => Text.isDigit_of_mem_toDigits hc

/-- The text without an exponent is read back as the same number. -/
theorem value_positionalNumeral (x : Decimal) (point : Bool) :
    (x.positionalNumeral point).decimal.value = x.value := by
  unfold positionalNumeral
  split
  · -- Without places behind the point the number is its numerator.
    rename_i h
    have hden : x.denominator = 1 := by
      rw [denominator, show (-x.exponent).toNat = 0 by omega, Nat.pow_zero]
    rw [value_wholeNumeral, ← numerator_div_denominator, hden, Nat.cast_one, div_one]
  · rename_i h
    rw [digits, decimal_pointedNumeral, show (-((-x.exponent).toNat : Int)) = x.exponent by omega]

end Decimal

end Calculator
