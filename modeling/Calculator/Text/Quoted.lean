import Calculator.Text.Printable

/-!
# Quoted texts

How a text that is not the program's own is shown inside a message: between
quotes, with everything that cannot be shown as it is written as an escape.
The quotes are single ones, unless the text holds single quotes and no double
ones; this way a lone apostrophe needs no escape.

## Main definitions

* `quote`: A text between quotes.
-/

namespace Calculator

namespace Text

/-- The `width` last hexadecimal digits of a number, in lower case. -/
def hexDigits (width n : Nat) : List Char :=
  let digits := Nat.toDigits 16 n
  List.replicate (width - digits.length) '0' ++ digits

/-- A character as a quotation shows it: the delimiter and the backslash after
    a backslash, line ends and tabs by their letters, other characters that
    are not printable by the shortest of the three forms of their code point,
    and the rest as they are. -/
def escape (delimiter c : Char) : List Char :=
  if c = delimiter || c = '\\' then ['\\', c]
  -- These three are not printable either, but have letters of their own.
  else if c = '\n' then ['\\', 'n']
  else if c = '\r' then ['\\', 'r']
  else if c = '\t' then ['\\', 't']
  else if isPrintable c then [c]
  else if c.toNat < 0x100 then '\\' :: 'x' :: hexDigits 2 c.toNat
  else if c.toNat < 0x10000 then '\\' :: 'u' :: hexDigits 4 c.toNat
  else '\\' :: 'U' :: hexDigits 8 c.toNat

/-- The quotation mark for a text: the double one only where it spares the
    escapes of single ones. -/
def delimiterFor (text : List Char) : Char :=
  if text.contains '\'' && !text.contains '"' then '"' else '\''

/-- A text between quotes. -/
def quote (text : List Char) : List Char :=
  let delimiter := delimiterFor text
  delimiter :: (text.flatMap (escape delimiter) ++ [delimiter])

end Text

end Calculator
