import Calculator.Decimal
import Calculator.Text.Digit

/-!
# Numerals

The number literals of formulas: a run of digits, possibly with a point in it,
behind it or in front of it. A numeral has no sign and no exponent. It is kept
as it was written, so that a reader of the formula can show it again and the
number of its characters stays known.

## Main definitions

* `Numeral`: The digits before the point and, if there is one, after it.
* `Numeral.WellFormed`: What makes two runs of characters a numeral.
* `Numeral.text`: The numeral as written.
* `Numeral.digits`: The digits that its value is read from.
* `Numeral.scan?`: The longest numeral at the start of a text.
* `Numeral.decimal`: The number it denotes.

## Theorems

* `Numeral.text_append_of_scan?`: Scanning splits a text and loses nothing.
* `Numeral.length_lt_of_scan?`: Scanning a numeral consumes something.
-/

namespace Calculator

/-- A number literal: the digits before the point, and those after it if there
    is a point. -/
structure Numeral where
  /-- The digits before the point. -/
  whole : List Char
  /-- The digits after the point, if there is a point. -/
  fraction : Option (List Char)
deriving DecidableEq, Repr

namespace Numeral

/-- The numeral as written. -/
def text (n : Numeral) : List Char :=
  n.whole ++ (match n.fraction with
    | none => []
    | some digits => '.' :: digits)

/-- The digits of a numeral. Zeros at the end of a fraction are left out, but
    those at its start count as any other digit. -/
def digits (n : Numeral) : List Char :=
  n.whole ++ ((n.fraction.getD []).reverse.dropWhile (· = '0')).reverse

/-- A numeral has digits on at least one side, and nothing but digits. -/
def WellFormed (n : Numeral) : Prop :=
  (∀ c ∈ n.whole ++ n.fraction.getD [], Text.isDecimalDigit c = true) ∧
    n.whole ++ n.fraction.getD [] ≠ []

/-- The longest numeral at the start of a text, and the rest of the text. A
    point belongs to the numeral if digits precede or follow it. -/
def scan? (text : List Char) : Option (Numeral × List Char) :=
  let whole := text.takeWhile Text.isDecimalDigit
  match text.dropWhile Text.isDecimalDigit with
  | '.' :: rest =>
    let fraction := rest.takeWhile Text.isDecimalDigit
    if whole.isEmpty && fraction.isEmpty then none
    else some (⟨whole, some fraction⟩, rest.dropWhile Text.isDecimalDigit)
  | rest => if whole.isEmpty then none else some (⟨whole, none⟩, rest)

/-- The number that a numeral denotes. -/
def decimal (n : Numeral) : Decimal :=
  let fraction := n.fraction.getD []
  ⟨Text.naturalValue (n.whole ++ fraction), -(fraction.length : Int)⟩

theorem text_append_of_scan? {text rest : List Char} {n : Numeral}
    (h : scan? text = some (n, rest)) : n.text ++ rest = text := by
  have hsplit := List.takeWhile_append_dropWhile (p := Text.isDecimalDigit) (l := text)
  simp only [scan?] at h
  split at h
  · rename_i tail htail
    split at h
    · exact absurd h (by simp)
    · obtain ⟨rfl, rfl⟩ := by simpa using h
      rw [htail] at hsplit
      simp [Numeral.text, List.takeWhile_append_dropWhile, hsplit]
  · split at h
    · exact absurd h (by simp)
    · obtain ⟨rfl, rfl⟩ := by simpa using h
      simp [Numeral.text, hsplit]

theorem text_ne_nil_of_scan? {text rest : List Char} {n : Numeral}
    (h : scan? text = some (n, rest)) : n.text ≠ [] := by
  simp only [scan?] at h
  split at h
  · split at h
    · exact absurd h (by simp)
    · obtain ⟨rfl, rfl⟩ := by simpa using h
      simp [Numeral.text]
  · split at h
    · exact absurd h (by simp)
    · rename_i hw
      obtain ⟨rfl, rfl⟩ := by simpa using h
      simpa [Numeral.text, List.isEmpty_iff] using hw

theorem length_lt_of_scan? {text rest : List Char} {n : Numeral}
    (h : scan? text = some (n, rest)) : rest.length < text.length := by
  have htext := congrArg List.length (text_append_of_scan? h)
  have hpos := List.length_pos_iff.2 (text_ne_nil_of_scan? h)
  rw [List.length_append] at htext
  omega

end Numeral

end Calculator
