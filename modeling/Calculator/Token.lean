import Calculator.Failure

/-!
# Tokens

The canonical text of a formula is a sequence of lexemes with blanks between
them. Scanning takes the longest lexeme at every place: digits and letters are
never split, and two asterisks are one operator. A token is a lexeme with the
place where it starts.

## Main definitions

* `Lexeme`: The lexemes, by what they are for.
* `Lexeme.scan?`: The longest lexeme at the start of a text.
* `Token`: A lexeme and its position.
* `Token.scan`: The tokens of a text.

## Theorems

* `Lexeme.text_append_of_scan?`: A scanned lexeme is the start of the text.
* `Lexeme.length_lt_of_scan?`: A scanned lexeme is not empty.
-/

namespace Calculator

/-- A lexeme of the canonical text. -/
inductive Lexeme
  /-- A number literal. -/
  | number (numeral : Numeral)
  /-- A run of ASCII letters. -/
  | word (letters : List Char)
  /-- The sign of an operation, which for plus and minus may also be unary. -/
  | operator (op : BinaryOp)
  | leftParen
  | rightParen
  | comma
  /-- A factorial mark that belongs to no numeral. -/
  | exclamation
  /-- A percent mark that belongs to no numeral. -/
  | percentMark
deriving DecidableEq, Repr

namespace Lexeme

/-- The lexeme as written. -/
def text : Lexeme → List Char
  | number numeral => numeral.text
  | word letters => letters
  | operator op => op.symbol
  | leftParen => ['(']
  | rightParen => [')']
  | comma => [',']
  | exclamation => ['!']
  | percentMark => ['%']

/-- The sign at the start of a text, if one stands there. -/
def sign? : List Char → Option (Lexeme × List Char)
  -- The longer sign comes first, so that a power is never two products.
  | '*' :: '*' :: rest => some (operator .pow, rest)
  | '*' :: rest => some (operator .mul, rest)
  | '+' :: rest => some (operator .add, rest)
  | '-' :: rest => some (operator .sub, rest)
  | '/' :: rest => some (operator .div, rest)
  | '(' :: rest => some (leftParen, rest)
  | ')' :: rest => some (rightParen, rest)
  | ',' :: rest => some (comma, rest)
  | '!' :: rest => some (exclamation, rest)
  | '%' :: rest => some (percentMark, rest)
  | _ => none

/-- The word at the start of a text, if a letter stands there. -/
def word? (text : List Char) : Option (Lexeme × List Char) :=
  let letters := text.takeWhile Char.isAlpha
  if letters.isEmpty then none else some (word letters, text.dropWhile Char.isAlpha)

/-- The number literal at the start of a text, if one stands there. -/
def number? (text : List Char) : Option (Lexeme × List Char) :=
  (Numeral.scan? text).map fun split => (number split.1, split.2)

/-- The longest lexeme at the start of a text, and the rest of the text. No
    two kinds of lexemes start with the same character, so their order does
    not matter. -/
def scan? (text : List Char) : Option (Lexeme × List Char) :=
  (number? text).or ((word? text).or (sign? text))

theorem text_append_of_sign? {text rest : List Char} {x : Lexeme}
    (h : sign? text = some (x, rest)) : x.text ++ rest = text := by
  unfold sign? at h
  split at h <;> first
    | (obtain ⟨rfl, rfl⟩ := by simpa using h
       rfl)
    | exact absurd h (by simp)

theorem text_append_of_word? {text rest : List Char} {x : Lexeme}
    (h : word? text = some (x, rest)) : x.text ++ rest = text := by
  simp only [word?] at h
  split at h
  · exact absurd h (by simp)
  · obtain ⟨rfl, rfl⟩ := by simpa using h
    exact List.takeWhile_append_dropWhile

theorem text_append_of_scan? {text rest : List Char} {x : Lexeme}
    (h : scan? text = some (x, rest)) : x.text ++ rest = text := by
  simp only [scan?, Option.or_eq_some_iff] at h
  rcases h with h | ⟨_, h | ⟨_, h⟩⟩
  · simp only [number?, Option.map_eq_some_iff] at h
    obtain ⟨⟨n, tail⟩, hn, heq⟩ := h
    obtain ⟨rfl, rfl⟩ := by simpa using heq
    exact Numeral.text_append_of_scan? hn
  · exact text_append_of_word? h
  · exact text_append_of_sign? h

theorem text_ne_nil_of_sign? {text rest : List Char} {x : Lexeme}
    (h : sign? text = some (x, rest)) : x.text ≠ [] := by
  unfold sign? at h
  split at h <;> first
    | (obtain ⟨rfl, rfl⟩ := by simpa using h
       simp [Lexeme.text, BinaryOp.symbol])
    | exact absurd h (by simp)

theorem text_ne_nil_of_scan? {text rest : List Char} {x : Lexeme}
    (h : scan? text = some (x, rest)) : x.text ≠ [] := by
  simp only [scan?, Option.or_eq_some_iff] at h
  rcases h with h | ⟨_, h | ⟨_, h⟩⟩
  · simp only [number?, Option.map_eq_some_iff] at h
    obtain ⟨⟨n, tail⟩, hn, heq⟩ := h
    obtain ⟨rfl, rfl⟩ := by simpa using heq
    exact Numeral.text_ne_nil_of_scan? hn
  · simp only [word?] at h
    split at h
    · exact absurd h (by simp)
    · rename_i hw
      obtain ⟨rfl, rfl⟩ := by simpa using h
      simpa [Lexeme.text] using hw
  · exact text_ne_nil_of_sign? h

theorem length_lt_of_scan? {text rest : List Char} {x : Lexeme}
    (h : scan? text = some (x, rest)) : rest.length < text.length := by
  have htext := congrArg List.length (text_append_of_scan? h)
  have hpos := List.length_pos_iff.2 (text_ne_nil_of_scan? h)
  rw [List.length_append] at htext
  omega

end Lexeme

/-- A lexeme and the number of characters before it. -/
structure Token where
  /-- What stands there. -/
  lexeme : Lexeme
  /-- Where it starts. -/
  position : Nat
deriving DecidableEq, Repr

namespace Token

/-- The tokens of the rest of a text, of which `position` characters have been
    read. -/
def scanFrom (position : Nat) (text : List Char) : Except Failure (List Token) :=
  match text with
  | [] => .ok []
  | c :: rest =>
    if Text.isBlank c then scanFrom (position + 1) rest
    -- A character that is not blank starts a lexeme or is refused where it is.
    else match _h : Lexeme.scan? (c :: rest) with
      | none => .error (.unrecognised c position)
      | some (lexeme, tail) =>
        (scanFrom (position + lexeme.text.length) tail).map (⟨lexeme, position⟩ :: ·)
termination_by text.length
decreasing_by
  · simp
  · exact Lexeme.length_lt_of_scan? _h

/-- The tokens of a text, from left to right. -/
def scan (text : List Char) : Except Failure (List Token) :=
  scanFrom 0 text

end Token

end Calculator
