import Calculator.Precision.Arithmetic
import Calculator.Proofs.Binary64.Integer
import Calculator.Proofs.Writing
import Mathlib.Data.List.DropRight

/-!
# Which numerals are read

At a chosen precision a numeral may be too long to be read. It has to have
more digits than an integer is read from, and yet no more characters than there
are digits, since longer ones are taken for doubles. So all numerals are read
as long as there are no more digits than an integer is read from. With more
digits no integer is read behind enough zeros.

## Main definitions

* `Numeral.TooLong`: The numerals that are not read.
* `Numeral.padded`: An integer behind zeros.

## Theorems

* `Precision.reads_iff`: All other numerals are read.
* `Numeral.TooLong.lt_digits`: There have to be many digits.
* `Numeral.exists_tooLong_iff`: At that many there are such numerals.
-/

namespace Calculator

namespace Numeral

/-- A numeral of more than 4300 digits, the zeros at the end of a fraction left
    out, that is no longer than there are digits to calculate with. -/
def TooLong (digits : Int) (n : Numeral) : Prop :=
  4300 < n.whole.length + ((n.fraction.getD []).rdropWhile (· = '0')).length ∧
    (n.text.length : Int) ≤ digits

instance (digits : Int) (n : Numeral) : Decidable (n.TooLong digits) :=
  inferInstanceAs (Decidable (_ ∧ _))

theorem length_le_text (n : Numeral) :
    n.whole.length + ((n.fraction.getD []).rdropWhile (· = '0')).length ≤ n.text.length := by
  cases hfraction : n.fraction with
  | none => simp [text, hfraction]
  | some fraction =>
    have hdrop := (List.rdropWhile_prefix (· = '0') fraction).length_le
    simp only [text, hfraction, Option.getD_some, List.length_append, List.length_cons]
    omega

/-- There have to be more digits than an integer is read from. -/
theorem TooLong.lt_digits {digits : Int} {n : Numeral} (h : n.TooLong digits) : 4300 < digits := by
  have hlength := n.length_le_text
  obtain ⟨hlong, hdigits⟩ := h
  omega

/-- An integer behind zeros. -/
def padded (zeros value : Nat) : Numeral :=
  ⟨List.replicate zeros '0' ++ Nat.toDigits 10 value, none⟩

section

variable {value : Nat} (h : value ≤ exactBound) (zeros : Nat)

include h

theorem isInteger_padded : (Binary64.ofNumeral (padded zeros value)).IsInteger value := by
  have hvalue := Text.naturalValue_replicate_toDigits zeros value
  have hinteger := Binary64.isInteger_ofNumeral (hvalue.trans_le h)
  rwa [hvalue] at hinteger

theorem isTypable_padded : (padded zeros value).IsTypable where
  isDigit c hc := by
    rw [padded, Option.getD_none, List.append_nil] at hc
    rcases List.mem_append.1 hc with hzero | hdigit
    · rw [List.eq_of_mem_replicate hzero]
      decide
    · exact Text.isDigit_of_mem_toDigits hdigit
  ne_nil := by simp [padded, Nat.toDigits_ne_nil]
  isFinite := (isInteger_padded h zeros).isFinite

end

/-- Zeros in front are digits. -/
theorem tooLong_padded {zeros value : Nat} {digits : Int} (hzeros : 4300 ≤ zeros)
    (hdigits : zeros + (Nat.toDigits 10 value).length ≤ digits) :
    (padded zeros value).TooLong digits := by
  have hpos : 0 < (Nat.toDigits 10 value).length := Nat.length_toDigits_pos
  have hlength : (padded zeros value).text.length = zeros + (Nat.toDigits 10 value).length := by
    simp [padded, text]
  refine ⟨?_, by rw [hlength]; exact_mod_cast hdigits⟩
  simp only [padded, Option.getD_none, List.rdropWhile_nil, List.length_append,
    List.length_replicate, List.length_nil]
  omega

/-- There are numerals that are not read exactly if there are more digits than
    an integer is read from. -/
theorem exists_tooLong_iff (digits : Int) :
    (∃ n : Numeral, n.IsTypable ∧ n.TooLong digits) ↔ 4300 < digits := by
  refine ⟨fun ⟨_, _, h⟩ => h.lt_digits, fun h => ?_⟩
  have hlength : (Nat.toDigits 10 0).length = 1 := rfl
  exact ⟨padded 4300 0, isTypable_padded (Nat.zero_le _) _, tooLong_padded le_rfl (by omega)⟩

end Numeral

namespace Precision

variable {digits : Int} {n : Numeral}

/-- The numerals that are read. -/
theorem reads_iff : (ofDigits digits).reads n = true ↔ ¬n.TooLong digits := by
  have hlength := n.length_le_text
  have hmax : Text.maxIntegerDigits = 4300 := rfl
  have hprecision : (ofDigits digits).digits = max 20 digits.toNat := rfl
  have hdigits : n.digits.length =
      n.whole.length + ((n.fraction.getD []).rdropWhile (· = '0')).length :=
    List.length_append
  rw [reads, Bool.or_eq_true, decide_eq_true_iff, decide_eq_true_iff, Numeral.TooLong]
  omega

theorem number_of_not_tooLong (h : ¬n.TooLong digits) :
    (ofDigits digits).arithmetic.number n = some (ofNumeral (ofDigits digits) n) :=
  number_of_reads (reads_iff.2 h)

theorem number_of_tooLong (h : n.TooLong digits) :
    (ofDigits digits).arithmetic.number n = none :=
  number_of_not_reads fun hreads => reads_iff.1 hreads h

end Precision

end Calculator
