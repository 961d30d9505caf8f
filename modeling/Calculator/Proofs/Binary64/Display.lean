import Calculator.Binary64.Display
import Calculator.Proofs.Decimal

/-!
# The characters of results on display

A result on display is written with digits, a sign, a point and the mark of an
exponent. No word and no second line can be mistaken for one.

## Main definitions

* `Binary64.isDisplayed`: The characters of a result on display.

## Theorems

* `Binary64.isDisplayed_of_mem_display`: There are no others.
-/

namespace Calculator

/-- The characters of a result on display. -/
def Binary64.isDisplayed (c : Char) : Bool :=
  c.isDigit || ['-', '+', '.', 'e'].contains c

namespace Decimal

open Binary64 (isDisplayed)

theorem isDisplayed_of_mem_toDigits {n : Nat} {c : Char} (h : c ∈ Nat.toDigits 10 n) :
    isDisplayed c = true := by
  simp [isDisplayed, Text.isDigit_of_mem_toDigits h]

/-- Digits with zeros in front of them. -/
theorem isDisplayed_of_mem_padded {zeros n : Nat} {c : Char}
    (h : c ∈ List.replicate zeros '0' ++ Nat.toDigits 10 n) : isDisplayed c = true := by
  rcases List.mem_append.1 h with h | h
  · rw [List.eq_of_mem_replicate h]
    decide
  · exact isDisplayed_of_mem_toDigits h

theorem isDisplayed_of_mem_pointed {n places : Nat} {c : Char}
    (h : c ∈ pointed (Nat.toDigits 10 n) places) : isDisplayed c = true := by
  rcases List.mem_append.1 h with h | h
  · exact isDisplayed_of_mem_padded (List.mem_of_mem_take h)
  · rcases List.mem_cons.1 h with rfl | h
    · decide
    · exact isDisplayed_of_mem_padded (List.mem_of_mem_drop h)

theorem isDisplayed_of_mem_scientific {x : Decimal} {c : Char} (h : c ∈ x.scientific) :
    isDisplayed c = true := by
  rcases List.mem_append.1 h with h | h
  · -- The mantissa is the digits, perhaps with a point behind the first.
    have hmem : c = '.' ∨ c ∈ x.digits := by
      split at h
      · rename_i hdigits
        rw [hdigits]
        simp only [List.mem_cons] at h ⊢
        tauto
      · exact .inr h
    rcases hmem with rfl | h
    · decide
    · exact isDisplayed_of_mem_toDigits h
  · rcases List.mem_cons.1 h with rfl | h
    · decide
    · rcases List.mem_cons.1 h with rfl | h
      · split <;> decide
      · exact isDisplayed_of_mem_padded h

end Decimal

namespace Binary64

theorem isDisplayed_of_mem_withSign {negative : Bool} {text : List Char}
    (htext : ∀ c ∈ text, isDisplayed c = true) {c : Char} (h : c ∈ withSign negative text) :
    isDisplayed c = true := by
  cases negative with
  | false => exact htext c h
  | true =>
    rcases List.mem_cons.1 h with rfl | h
    · decide
    · exact htext c h

/-- Dropping zeros and a point at the end leaves characters of the text. -/
theorem mem_of_mem_dropTrailing {text : List Char} {c : Char} (h : c ∈ dropTrailing text) :
    c ∈ text := by
  rw [dropTrailing, List.mem_reverse] at h
  have hzeros := (List.dropWhile_suffix (· = '.')).subset h
  exact List.mem_reverse.1 ((List.dropWhile_suffix (· = '0')).subset hzeros)

theorem isDisplayed_of_mem_fractionText {negative : Bool} {rank : Nat} :
    ∀ c ∈ fractionText negative rank, isDisplayed c = true := by
  refine fun c hc => isDisplayed_of_mem_withSign (fun d hd => ?_) hc
  split at hd
  · exact Decimal.isDisplayed_of_mem_scientific hd
  · split at hd
    · exact Decimal.isDisplayed_of_mem_scientific hd
    · exact Decimal.isDisplayed_of_mem_pointed (mem_of_mem_dropTrailing hd)

/-- A result on display has no other characters. -/
theorem isDisplayed_of_mem_display {x : Binary64} {text : List Char} (h : x.display = .ok text) :
    ∀ c ∈ text, isDisplayed c = true := by
  have hinteger (n : Int) : ∀ c ∈ integerText n, isDisplayed c = true :=
    fun c hc => isDisplayed_of_mem_withSign (fun d hd => Decimal.isDisplayed_of_mem_toDigits hd) hc
  unfold display at h
  split at h
  · cases h
  · cases h
  · split at h
    · cases h
      split
      · exact hinteger _
      · exact isDisplayed_of_mem_fractionText
    · cases h
      exact isDisplayed_of_mem_fractionText

end Binary64

end Calculator
