/-!
# Text from the keypad

A formula is typed with the characters of a keypad, and with others by
mistake. Three display glyphs stand for the signs of operations; every
character that no formula uses, blanks among them, is dropped without notice.

## Main definitions

* `Keypad.glyph`: The sign that a display glyph stands for.
* `Keypad.accepts`: The characters that formulas use.
* `Keypad.clean`: The accepted characters of a text, glyphs replaced.

## Theorems

* `Keypad.clean_of_accepted`: A text of accepted characters is not changed.
-/

namespace Calculator

namespace Keypad

/-- The sign that a display glyph stands for; other characters stand for
    themselves. -/
def glyph (c : Char) : Char :=
  if c = '×' then '*' else if c = '÷' then '/' else if c = '−' then '-' else c

/-- The signs that formulas use beside ASCII letters and digits. -/
def signs : List Char :=
  ['.', '+', '-', '*', '/', '(', ')', '^', '!', '%', ',', 'π', '√']

/-- The characters that formulas use. -/
def accepts (c : Char) : Bool :=
  c.isAlphanum || signs.contains c

/-- The accepted characters of a text, after display glyphs have been replaced
    by the signs they stand for. -/
def clean (text : List Char) : List Char :=
  (text.map glyph).filter accepts

theorem clean_append (text rest : List Char) : clean (text ++ rest) = clean text ++ clean rest := by
  rw [clean, List.map_append, List.filter_append]
  rfl

theorem glyph_of_accepts (c : Char) (h : accepts c = true) : glyph c = c := by
  have h₁ : c ≠ '×' := by rintro rfl; exact absurd h (by decide)
  have h₂ : c ≠ '÷' := by rintro rfl; exact absurd h (by decide)
  have h₃ : c ≠ '−' := by rintro rfl; exact absurd h (by decide)
  simp [glyph, h₁, h₂, h₃]

theorem clean_of_accepted (text : List Char) (h : ∀ c ∈ text, accepts c = true) :
    clean text = text := by
  have hmap : text.map glyph = text := by
    conv => rhs; rw [← List.map_id text]
    exact List.map_congr_left fun c hc => glyph_of_accepts c (h c hc)
  rw [clean, hmap, List.filter_eq_self]
  exact h

end Keypad

end Calculator
