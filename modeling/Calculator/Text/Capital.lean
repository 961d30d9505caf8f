/-!
# Capitals

Words that may be written in any case are compared in capitals. Besides the
ASCII letters, a few letters of other scripts have capitals that are ASCII
letters: the sharp and the long s, the i without a dot, and the joined forms
of f, i, l, s and t. Some of them have several capitals.

## Main definitions

* `capitals`: A text in capitals.
-/

namespace Calculator

namespace Text

/-- The letters beyond ASCII whose capitals are ASCII letters, with these. -/
def asciiCapitals : List (Char × List Char) :=
  [('ß', ['S', 'S']), ('ı', ['I']), ('ſ', ['S']), ('ﬀ', ['F', 'F']), ('ﬁ', ['F', 'I']),
    ('ﬂ', ['F', 'L']), ('ﬃ', ['F', 'F', 'I']), ('ﬄ', ['F', 'F', 'L']), ('ﬅ', ['S', 'T']),
    ('ﬆ', ['S', 'T'])]

/-- The capitals of a character, as far as they are ASCII letters; any other
    character is left as it is. -/
def capital (c : Char) : List Char :=
  (asciiCapitals.lookup c).getD [c.toUpper]

/-- A text in capitals. -/
def capitals (text : List Char) : List Char :=
  text.flatMap capital

end Text

end Calculator
