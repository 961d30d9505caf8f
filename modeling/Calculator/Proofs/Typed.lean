import Calculator.Proofs.Numeral
import Calculator.Proofs.Grammar
import Calculator.Shorthand.Canonical

/-!
# The language of typed formulas

What may be typed, as a user is told it: lexemes that are as long as possible,
and a grammar over them. Nothing here rewrites text. The shorthand has rules
of its own: a mark behind a numeral, a root sign in front of an atom, and a
power sign in two spellings.

A minus sign in front of a numeral with a factorial mark can be read in two
ways, as the sign of the numeral or as the sign of the factorial. The first
way is preferred, which is said by a condition on the other one.

A word is a run of letters as long as possible, the letter of the circle
constant being one of them. It is compared with names after that letter has
been spelled out, so `π` is the constant and `aπ` is the unknown word `api`.

## Main definitions

* `Typed.Lexeme`: The lexemes of what is typed.
* `Typed.lexemes?`: The longest lexemes of a text, if it consists of lexemes.
* `Typed.Category`, `Typed.Derives`: The grammar.
* `Typed.Means`: The expression that a text means.

## Theorems

* `Typed.length_lt_of_lexeme?`: A lexeme is not empty.
* `Typed.lexemes?_of_lexeme?`: The lexemes of a text, one after the other.
-/

namespace Calculator

namespace Typed

/-- A lexeme of what is typed. -/
inductive Lexeme
  /-- A number literal. -/
  | number (numeral : Numeral)
  /-- A run of letters. -/
  | word (letters : List Char)
  /-- The sign of an operation as it stands in canonical text. -/
  | operator (op : BinaryOp)
  /-- The power sign of the keypad. -/
  | caret
  | root
  | leftParen
  | rightParen
  | comma
  | exclamation
  | percentMark
deriving DecidableEq, Repr

/-- The letters of words: the ASCII letters and that of the circle constant. -/
def isLetter (c : Char) : Bool :=
  c.isAlpha || c = 'π'

/-- The sign at the start of a text, if one stands there. -/
def sign? : List Char → Option (Lexeme × List Char)
  | '*' :: '*' :: rest => some (.operator .pow, rest)
  | '*' :: rest => some (.operator .mul, rest)
  | '+' :: rest => some (.operator .add, rest)
  | '-' :: rest => some (.operator .sub, rest)
  | '/' :: rest => some (.operator .div, rest)
  | '^' :: rest => some (.caret, rest)
  | '√' :: rest => some (.root, rest)
  | '(' :: rest => some (.leftParen, rest)
  | ')' :: rest => some (.rightParen, rest)
  | ',' :: rest => some (.comma, rest)
  | '!' :: rest => some (.exclamation, rest)
  | '%' :: rest => some (.percentMark, rest)
  | _ => none

/-- The longest lexeme at the start of a text, and the rest of the text. -/
def lexeme? (text : List Char) : Option (Lexeme × List Char) :=
  match Numeral.scan? text with
  | some (numeral, rest) => some (.number numeral, rest)
  | none =>
    if text.takeWhile isLetter = [] then sign? text
    else some (.word (text.takeWhile isLetter), text.dropWhile isLetter)

theorem length_lt_of_sign? {text rest : List Char} {x : Lexeme}
    (h : sign? text = some (x, rest)) : rest.length < text.length := by
  unfold sign? at h
  split at h <;> first
    | (rcases (by simpa using h : (_ ∧ _)) with ⟨-, rfl⟩
       simp only [List.length_cons]
       omega)
    | exact absurd h (by simp)

theorem length_lt_of_lexeme? {text rest : List Char} {x : Lexeme}
    (h : lexeme? text = some (x, rest)) : rest.length < text.length := by
  unfold lexeme? at h
  split at h
  · rename_i n tail hscan
    rcases (by simpa using h : (_ ∧ _)) with ⟨-, rfl⟩
    exact Numeral.length_lt_of_scan? hscan
  · split at h
    · exact length_lt_of_sign? h
    · rename_i hne
      rcases (by simpa using h : (_ ∧ _)) with ⟨-, rfl⟩
      -- The letters that are taken and those that are left make up the text.
      have happ := List.takeWhile_append_dropWhile (p := isLetter) (l := text)
      have hlen := congrArg List.length happ
      have hpos := List.length_pos_iff.2 hne
      rw [List.length_append] at hlen
      omega

/-- The lexemes of a text, from left to right and each as long as possible, if
    the text consists of lexemes. -/
def lexemes? (text : List Char) : Option (List Lexeme) :=
  match text with
  | [] => some []
  | c :: rest =>
    match _h : lexeme? (c :: rest) with
    | none => none
    | some (x, tail) => (lexemes? tail).map (x :: ·)
termination_by text.length
decreasing_by exact length_lt_of_lexeme? _h

theorem lexemes?_nil : lexemes? [] = some [] := by rw [lexemes?]

theorem lexemes?_of_lexeme? {text rest : List Char} {x : Lexeme}
    (h : lexeme? text = some (x, rest)) : lexemes? text = (lexemes? rest).map (x :: ·) := by
  cases text with
  -- The empty text has no first lexeme.
  | nil => exact absurd (length_lt_of_lexeme? h) (by simp)
  | cons c tail =>
      rw [lexemes?]
      split
      · rename_i hnone
        rw [hnone] at h
        exact absurd h (by simp)
      · rename_i y rest' hsome
        rw [hsome] at h
        rcases (by simpa using h : (_ ∧ _)) with ⟨rfl, rfl⟩
        rfl

/-- The categories of the grammar, from the loosest to the tightest. -/
inductive Category
  /-- A sum. -/
  | expression
  /-- A product. -/
  | term
  /-- An operand with the signs in front of it. -/
  | unary
  /-- A power. -/
  | power
  /-- What can be raised to a power. -/
  | base
  /-- An atom, which is what a root sign reaches. -/
  | primary
deriving DecidableEq, Repr

/-- Some lexemes start with a numeral that carries a factorial mark. -/
def StartsMarked (ts : List Lexeme) : Prop :=
  ∃ n us, ts = .number n :: .exclamation :: us

/-- The name that a word is, the circle constant being spelled out. -/
def spelling (letters : List Char) : List Char :=
  Shorthand.respell letters

/-- The lexemes of a category, and the expression that they denote. -/
inductive Derives : Category → List Lexeme → Expr → Prop
  | ofTerm {ts : List Lexeme} {x : Expr} (h : Derives .term ts x) : Derives .expression ts x
  | sum {ts us : List Lexeme} {x y : Expr} (op : BinaryOp) (hop : op = .add ∨ op = .sub)
      (hl : Derives .expression ts x) (hr : Derives .term us y) :
      Derives .expression (ts ++ .operator op :: us) (.binary op x y)
  | ofUnary {ts : List Lexeme} {x : Expr} (h : Derives .unary ts x) : Derives .term ts x
  | product {ts us : List Lexeme} {x y : Expr} (op : BinaryOp) (hop : op = .mul ∨ op = .div)
      (hl : Derives .term ts x) (hr : Derives .unary us y) :
      Derives .term (ts ++ .operator op :: us) (.binary op x y)
  | ofPower {ts : List Lexeme} {x : Expr} (h : Derives .power ts x) : Derives .unary ts x
  /-- A minus sign that does not belong to a numeral with a factorial mark. -/
  | minus {ts : List Lexeme} {x : Expr} (h : Derives .unary ts x) (hm : ¬ StartsMarked ts) :
      Derives .unary (.operator .sub :: ts) (.negate x)
  | plus {ts : List Lexeme} {x : Expr} (h : Derives .unary ts x) :
      Derives .unary (.operator .add :: ts) x
  | ofBase {ts : List Lexeme} {x : Expr} (h : Derives .base ts x) : Derives .power ts x
  | power {ts us : List Lexeme} {x y : Expr} (s : Lexeme) (hs : s = .caret ∨ s = .operator .pow)
      (hl : Derives .base ts x) (hr : Derives .unary us y) :
      Derives .power (ts ++ s :: us) (.binary .pow x y)
  | ofPrimary {ts : List Lexeme} {x : Expr} (h : Derives .primary ts x) : Derives .base ts x
  /-- A numeral with a factorial mark takes the minus sign in front of it. -/
  | negativeFactorial (n : Numeral) (h : (Binary64.ofNumeral n).isFinite = true) :
      Derives .base [.operator .sub, .number n, .exclamation] (.factorial (.negate (.number n)))
  /-- Only numerals within the range of the doubles count. -/
  | number (n : Numeral) (h : (Binary64.ofNumeral n).isFinite = true) :
      Derives .primary [.number n] (.number n)
  | factorial (n : Numeral) (h : (Binary64.ofNumeral n).isFinite = true) :
      Derives .primary [.number n, .exclamation] (.factorial (.number n))
  | percent (n : Numeral) (h : (Binary64.ofNumeral n).isFinite = true) :
      Derives .primary [.number n, .percentMark] (.percent (.number n))
  | constant (c : Constant) (letters : List Char) (h : spelling letters = c.name) :
      Derives .primary [.word letters] (.constant c)
  | group {ts : List Lexeme} {x : Expr} (h : Derives .expression ts x) :
      Derives .primary (.leftParen :: (ts ++ [.rightParen])) x
  | call {ts : List Lexeme} {x : Expr} (f : Callee) (letters : List Char)
      (hf : spelling letters = f.name) (h : Derives .expression ts x) :
      Derives .primary (.word letters :: .leftParen :: (ts ++ [.rightParen])) (f.node x)
  | root {ts : List Lexeme} {x : Expr} (h : Derives .primary ts x) :
      Derives .primary (.root :: ts) (.apply .sqrt x)

/-- The expression that a text means: it consists of lexemes, and the grammar
    derives the expression from them. -/
def Means (text : List Char) (x : Expr) : Prop :=
  ∃ ts, lexemes? text = some ts ∧ Derives .expression ts x

end Typed

end Calculator
