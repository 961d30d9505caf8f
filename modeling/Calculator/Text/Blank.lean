/-!
# Blank characters

Which characters separate words without meaning anything. Two classes are in
use and they differ by four control characters, so both are named.

`isBlank` is the class of whitespace characters of Unicode together with the
four information separators U+001C to U+001F: it ends lexemes and is trimmed
from the lines of a terminal. `isMargin` leaves the separators out: it is what
may surround a number that is read on its own.

## Main definitions

* `isBlank`: The blank characters of a formula or of a terminal line.
* `isMargin`: The blank characters that may surround a number.
* `trim`: A text without the blanks at its two ends.
-/

namespace Calculator

namespace Text

/-- The code points of the blank characters, as closed ranges in increasing
    order. -/
def blankRanges : List (Nat × Nat) :=
  [(0x9, 0xD), (0x1C, 0x20), (0x85, 0x85), (0xA0, 0xA0), (0x1680, 0x1680), (0x2000, 0x200A),
    (0x2028, 0x2029), (0x202F, 0x202F), (0x205F, 0x205F), (0x3000, 0x3000)]

/-- Whether a code point lies in one of a list of closed ranges. -/
def inRanges (ranges : List (Nat × Nat)) (n : Nat) : Bool :=
  ranges.any fun r => r.1 ≤ n && n ≤ r.2

/-- A blank character: it separates lexemes and is trimmed from lines. -/
def isBlank (c : Char) : Bool :=
  inRanges blankRanges c.toNat

/-- A blank that may surround a number read on its own: any blank but the
    four information separators. -/
def isMargin (c : Char) : Bool :=
  isBlank c && !(0x1C ≤ c.toNat && c.toNat ≤ 0x1F)

/-- The text without the characters of a class at its two ends. -/
def trimBy (p : Char → Bool) (text : List Char) : List Char :=
  ((text.dropWhile p).reverse.dropWhile p).reverse

/-- The text without the blanks at its two ends. -/
def trim (text : List Char) : List Char :=
  trimBy isBlank text

end Text

end Calculator
