import Calculator.Binary64.Text
import Calculator.Token

/-!
# The grammar of canonical formulas

What it means for a sequence of lexemes to be a formula, said without any
reader: five categories, each built from the ones below it. A derivation names
the expression that the lexemes denote, so the grammar fixes both which
sequences are formulas and how their operations group.

Sums and products are built on their left side only, which is what groups them
to the left; a power has a whole operand with its signs on its right side,
which groups powers to the right and lets `2 ** -1` be read. A sign stands in
front of a power, never inside its base, so a minus binds weaker than a power.

A constant is a complete operand, and no rule puts a parenthesis behind a
complete operand. So nothing has to be said to keep constants from being
called.

The number of open parentheses is followed here as well, since it is what
shows where a group ends when formulas are cut into pieces.

## Main definitions

* `Grammar.Category`: The five categories.
* `Grammar.Derives`: Which lexemes form an expression, and which one.
* `Grammar.depth?`: The number of open parentheses after some lexemes.

## Theorems

* `Grammar.Derives.ne_nil`: No category derives the empty sequence.
* `Grammar.depth?_append`: Depths are followed piece by piece.
* `Grammar.Derives.depth?_eq`: A derived sequence closes what it opens.
-/

namespace Calculator

namespace Grammar

/-- The categories of the grammar, from the loosest to the tightest. -/
inductive Category
  /-- A sum. -/
  | expression
  /-- A product. -/
  | term
  /-- An operand with the signs in front of it. -/
  | unary
  /-- A power. -/
  | power
  /-- An atom: nothing from outside can bind into it. -/
  | primary
deriving DecidableEq, Repr

/-- The lexemes of a category, and the expression that they denote. -/
inductive Derives : Category → List Lexeme → Expr → Prop
  | ofTerm {ts : List Lexeme} {x : Expr} (h : Derives .term ts x) : Derives .expression ts x
  | sum {ts us : List Lexeme} {x y : Expr} (op : BinaryOp) (hop : op = .add ∨ op = .sub)
      (hl : Derives .expression ts x) (hr : Derives .term us y) :
      Derives .expression (ts ++ .operator op :: us) (.binary op x y)
  | ofUnary {ts : List Lexeme} {x : Expr} (h : Derives .unary ts x) : Derives .term ts x
  | product {ts us : List Lexeme} {x y : Expr} (op : BinaryOp) (hop : op = .mul ∨ op = .div)
      (hl : Derives .term ts x) (hr : Derives .unary us y) :
      Derives .term (ts ++ .operator op :: us) (.binary op x y)
  | ofPower {ts : List Lexeme} {x : Expr} (h : Derives .power ts x) : Derives .unary ts x
  | minus {ts : List Lexeme} {x : Expr} (h : Derives .unary ts x) :
      Derives .unary (.operator .sub :: ts) (.negate x)
  /-- A plus sign leaves no trace. -/
  | plus {ts : List Lexeme} {x : Expr} (h : Derives .unary ts x) :
      Derives .unary (.operator .add :: ts) x
  | ofPrimary {ts : List Lexeme} {x : Expr} (h : Derives .primary ts x) : Derives .power ts x
  | power {ts us : List Lexeme} {x y : Expr}
      (hl : Derives .primary ts x) (hr : Derives .unary us y) :
      Derives .power (ts ++ .operator .pow :: us) (.binary .pow x y)
  /-- Only numerals within the range of the doubles count. -/
  | number (n : Numeral) (h : (Binary64.ofNumeral n).isFinite = true) :
      Derives .primary [.number n] (.number n)
  | constant (c : Constant) : Derives .primary [.word c.name] (.constant c)
  | group {ts : List Lexeme} {x : Expr} (h : Derives .expression ts x) :
      Derives .primary (.leftParen :: (ts ++ [.rightParen])) x
  | call {ts : List Lexeme} {x : Expr} (f : Callee) (h : Derives .expression ts x) :
      Derives .primary (.word f.name :: .leftParen :: (ts ++ [.rightParen])) (f.node x)

theorem Derives.ne_nil {c : Category} {ts : List Lexeme} {x : Expr} (h : Derives c ts x) :
    ts ≠ [] := by
  induction h with
  | ofTerm _ ih => exact ih
  | ofUnary _ ih => exact ih
  | ofPower _ ih => exact ih
  | ofPrimary _ ih => exact ih
  | _ => simp

/-- The number of open parentheses after some lexemes, given how many are open
    before them; there is none once a parenthesis is closed that was not
    opened. -/
def depth? : Nat → List Lexeme → Option Nat
  | d, [] => some d
  | d, .leftParen :: ts => depth? (d + 1) ts
  | 0, .rightParen :: _ => none
  | d + 1, .rightParen :: ts => depth? d ts
  | d, _ :: ts => depth? d ts

theorem depth?_append (d : Nat) (ts us : List Lexeme) :
    depth? d (ts ++ us) = (depth? d ts).bind fun e => depth? e us := by
  induction ts generalizing d with
  | nil => rfl
  | cons t ts ih =>
      cases t with
      | leftParen => exact ih (d + 1)
      | rightParen =>
          cases d with
          -- A parenthesis too many fails, whatever follows.
          | zero => rfl
          | succ d => exact ih d
      | _ => exact ih d

/-- A derived sequence closes what it opens, and nothing else, however many
    parentheses are open around it. -/
theorem Derives.depth?_eq {c : Category} {ts : List Lexeme} {x : Expr} (h : Derives c ts x)
    (d : Nat) : depth? d ts = some d := by
  induction h generalizing d with
  -- A category that is one of the next holds the same lexemes.
  | ofTerm _ ih => exact ih d
  | ofUnary _ ih => exact ih d
  | ofPower _ ih => exact ih d
  | ofPrimary _ ih => exact ih d
  -- Each operand returns to the depth it began at, and a sign keeps it.
  | sum op _ _ _ ihl ihr =>
      rw [depth?_append, ihl d]
      exact ihr d
  | product op _ _ _ ihl ihr =>
      rw [depth?_append, ihl d]
      exact ihr d
  | power _ _ ihl ihr =>
      rw [depth?_append, ihl d]
      exact ihr d
  | minus _ ih => exact ih d
  | plus _ ih => exact ih d
  | number n _ => rfl
  | constant c => rfl
  -- The body stands one parenthesis deeper, and the last one closes it.
  | group _ ih =>
      rw [depth?, depth?_append, ih (d + 1)]
      rfl
  | call f _ ih =>
      rw [depth?, depth?, depth?_append, ih (d + 1)]
      · rfl
      all_goals simp

end Grammar

end Calculator
