import Calculator.Keypad
import Calculator.Shorthand.Root

/-!
# Canonical text

The notation of the keypad is turned into one that has only calls: marks
behind numerals first, the factorial before the percent, then root signs, and
last the two characters that are merely spelled differently, the power sign
and the letter of the circle constant. A percent mark is looked for in the
text that expanding the factorials leaves, and root signs in what is left then.

## Main definitions

* `expandMarks`: A text with marks behind numerals written as calls.
* `respell`: The power sign and the circle constant in canonical spelling.
* `expand`: A text with all shorthand expanded.
* `canonical`: The canonical text of what was typed.
* `nesting`: How deeply the shorthand of a text is nested.
-/

namespace Calculator

namespace Shorthand

/-- A text with marks behind numerals written as calls. -/
def expandMarks (text : List Char) : List Char :=
  Mark.percent.calls (Mark.factorial.calls text)

/-- The canonical spelling of a character. -/
def respelled (c : Char) : List Char :=
  if c = '^' then ['*', '*'] else if c = 'π' then ['p', 'i'] else [c]

/-- A text with the power sign and the circle constant spelled canonically. -/
def respell (text : List Char) : List Char :=
  text.flatMap respelled

/-- A text with all shorthand expanded. -/
def expand (text : List Char) : List Char :=
  respell (expandRoots (expandMarks text))

/-- How deeply the shorthand of a text is nested. -/
def nesting (text : List Char) : Nat :=
  rootDepth (expandMarks text)

/-- The canonical text of what was typed. -/
def canonical (typed : List Char) : List Char :=
  expand (Keypad.clean typed)

end Shorthand

end Calculator
