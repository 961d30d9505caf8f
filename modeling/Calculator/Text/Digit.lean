import Calculator.Text.Blank

/-!
# Digits

The decimal digits of every script, and the wider class of digit signs that
also holds superscripts, subscripts and enclosed digits. A decimal digit has a
value and may stand in a numeral. A digit sign is only recognised: it makes a
root sign look for a numeral after it, and then there is none to be found.

## Main definitions

* `digitValue?`: The value of a decimal digit of any script.
* `isDecimalDigit`: The characters of which numerals are made.
* `isDigitSign`: Decimal digits and the digits that are only signs.
* `naturalValue`: The number that a run of decimal digits denotes.
* `maxIntegerDigits`: How many digits an integer may be read from.

## Theorems

* `isDecimalDigit_of_isDigit`: The ten ASCII digits are decimal digits.
-/

namespace Calculator

namespace Text

/-- The zeros of the scripts that have decimal digits. The other nine digits
    of a script follow its zero in order. -/
def scriptZeros : List Nat :=
  [0x30, 0x660, 0x6F0, 0x7C0, 0x966, 0x9E6, 0xA66, 0xAE6, 0xB66, 0xBE6, 0xC66, 0xCE6, 0xD66,
    0xDE6, 0xE50, 0xED0, 0xF20, 0x1040, 0x1090, 0x17E0, 0x1810, 0x1946, 0x19D0, 0x1A80, 0x1A90,
    0x1B50, 0x1BB0, 0x1C40, 0x1C50, 0xA620, 0xA8D0, 0xA900, 0xA9D0, 0xA9F0, 0xAA50, 0xABF0,
    0xFF10, 0x104A0, 0x10D30, 0x11066, 0x110F0, 0x11136, 0x111D0, 0x112F0, 0x11450, 0x114D0,
    0x11650, 0x116C0, 0x11730, 0x118E0, 0x11950, 0x11C50, 0x11D50, 0x11DA0, 0x16A60, 0x16AC0,
    0x16B50, 0x1D7CE, 0x1D7D8, 0x1D7E2, 0x1D7EC, 0x1D7F6, 0x1E140, 0x1E2F0, 0x1E950, 0x1FBF0]

/-- The value of a decimal digit, whatever its script. -/
def digitValue? (c : Char) : Option Nat :=
  (scriptZeros.find? fun base => base ≤ c.toNat && c.toNat ≤ base + 9).map (c.toNat - ·)

/-- A decimal digit of any script. -/
def isDecimalDigit (c : Char) : Bool :=
  (digitValue? c).isSome

/-- The digits that are no decimal digits: superscripts, subscripts, circled
    and parenthesised digits, and those of scripts without a zero. -/
def signOnlyDigits : List (Nat × Nat) :=
  [(0xB2, 0xB3), (0xB9, 0xB9), (0x1369, 0x1371), (0x19DA, 0x19DA), (0x2070, 0x2070),
    (0x2074, 0x2079), (0x2080, 0x2089), (0x2460, 0x2468), (0x2474, 0x247C), (0x2488, 0x2490),
    (0x24EA, 0x24EA), (0x24F5, 0x24FD), (0x24FF, 0x24FF), (0x2776, 0x277E), (0x2780, 0x2788),
    (0x278A, 0x2792), (0x10A40, 0x10A43), (0x10E60, 0x10E68), (0x11052, 0x1105A),
    (0x1F100, 0x1F10A)]

/-- A character that shows a digit, be it a decimal digit or only a sign. -/
def isDigitSign (c : Char) : Bool :=
  isDecimalDigit c || inRanges signOnlyDigits c.toNat

/-- The natural number that a run of decimal digits denotes; characters that
    are no decimal digits count as zeros. -/
def naturalValue (digits : List Char) : Nat :=
  digits.foldl (fun n c => 10 * n + (digitValue? c).getD 0) 0

/-- The most digits that an integer is read from. -/
def maxIntegerDigits : Nat := 4300

theorem isDecimalDigit_of_isDigit (c : Char) (h : c.isDigit = true) : isDecimalDigit c = true := by
  have hc : 0x30 ≤ c.toNat ∧ c.toNat ≤ 0x39 := by
    simp only [Char.isDigit, Bool.and_eq_true, decide_eq_true_eq] at h
    exact ⟨h.1, h.2⟩
  simp [isDecimalDigit, digitValue?, scriptZeros, hc.1, hc.2]

end Text

end Calculator
