import Calculator.Binary64.Text

/-!
# Reading doubles

Numbers that are not part of a formula come as text of a freer form: with a
sign, an exponent, underscores between digits, blanks around them, or as the
words for infinity and for no number.

## Main definitions

* `Text.withoutUnderscores?`: Digits grouped by underscores, ungrouped.
* `Text.integer?`: The integer that a text denotes.
* `Binary64.read?`: The double that a text denotes.
-/

namespace Calculator

namespace Text

/-- A text without its underscores, each of which has to stand between two
    decimal digits; `before` tells whether a digit precedes the text. -/
def withoutUnderscores? (before : Bool) : List Char → Option (List Char)
  | [] => some []
  -- An underscore at the end has no digit behind it and falls to the last case.
  | '_' :: c :: rest =>
    if before && isDecimalDigit c then (withoutUnderscores? true rest).map (c :: ·) else none
  | c :: rest =>
    if c = '_' then none else (withoutUnderscores? (isDecimalDigit c) rest).map (c :: ·)

/-- A sign, if there is one, and the rest of the text; without a sign the
    number is positive. -/
def splitSign : List Char → Bool × List Char
  | '-' :: rest => (true, rest)
  | '+' :: rest => (false, rest)
  | rest => (false, rest)

/-- The integer that a text denotes: blanks around it, a sign, and digits that
    may be grouped by underscores. -/
def integer? (text : List Char) : Option Int := do
  let plain ← withoutUnderscores? false (trimBy isMargin text)
  let (negative, digits) := splitSign plain
  if digits.isEmpty || !digits.all isDecimalDigit || maxIntegerDigits < digits.length then none
  else if negative then some (-(naturalValue digits : Int)) else some (naturalValue digits)

end Text

namespace Binary64

/-- An exponent so far from zero that going further changes no double, given
    how many digits the coefficient has. -/
def clampExponent (digits : Nat) (exponent : Int) : Int :=
  max (-(digits + 400 : Int)) (min exponent 400)

/-- The exponent behind the digits of a number: nothing, or the letter `e` and
    an integer. -/
def exponent? : List Char → Option Int
  | [] => some 0
  | mark :: rest =>
    let (negative, digits) := Text.splitSign rest
    if mark.toLower = 'e' && !digits.isEmpty && digits.all Text.isDecimalDigit then
      some (if negative then -(Text.naturalValue digits : Int) else Text.naturalValue digits)
    else none

/-- The double that a text without sign, blanks and underscores denotes. -/
def magnitude? (negative : Bool) (text : List Char) : Option Binary64 :=
  let word := text.map Char.toLower
  if word = "inf".toList || word = "infinity".toList then some (infinite negative)
  else if word = "nan".toList then some nan
  else do
    let (numeral, rest) ← Numeral.scan? text
    let exponent ← exponent? rest
    let x := numeral.decimal
    -- An exponent of any length is admitted, but no power of that size is built.
    some (ofDecimal negative
      ⟨x.coefficient, clampExponent numeral.text.length (x.exponent + exponent)⟩)

/-- The double nearest to the number that a text denotes, if it denotes one. -/
def read? (text : List Char) : Option Binary64 := do
  let plain ← Text.withoutUnderscores? false (Text.trimBy Text.isMargin text)
  let (negative, rest) := Text.splitSign plain
  magnitude? negative rest

end Binary64

end Calculator
