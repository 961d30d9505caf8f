import Calculator.Expr.Reader
import Calculator.Precision.Arithmetic
import Calculator.Shorthand.Canonical

/-!
# Formulas

From what was typed to its value. The stages run one after the other over the
whole formula: the text is cleaned, its shorthand is expanded, the canonical
text is scanned, the tokens are read as an expression, and the expression is
evaluated. A failure of an earlier stage therefore wins over one of a later
stage, wherever in the formula they are.

## Main definitions

* `Backend`: The arithmetics that can be chosen.
* `Backend.choose`: The choice of one of them.
* `Formula.expandWithin`: Expanding shorthand under a limit of nesting.
* `Formula.parse`: The expression that a canonical text denotes.
* `Formula.read`: The expression that was typed.
* `Formula.evaluateOver`: The value of what was typed, over an arithmetic.
* `Backend.evaluate`: The same, for a chosen arithmetic.
* `Formula.literal`: A number as text that can be put into a formula.
-/

namespace Calculator

/-- The arithmetics that can be chosen. -/
inductive Backend
  /-- Doubles. -/
  | double
  /-- Numbers of a chosen number of decimal digits. -/
  | extended (digits : Int)
deriving DecidableEq, Repr

/-- The arithmetic for a choice of precision, unless it is refused. -/
def Backend.choose (extended : Bool) (digits : Int) : Except Precision.Refusal Backend :=
  if extended then
    match Precision.refusal? digits with
    | some refusal => .error refusal
    | none => .ok (.extended digits)
  else .ok .double

namespace Formula

/-- A text with its shorthand expanded, unless it is nested too deeply. -/
def expandWithin (limit : NestingLimit) (text : List Char) : Except Failure (List Char) :=
  if limit.admits (Shorthand.nesting text) then .ok (Shorthand.expand text) else .error .tooDeep

/-- The expression that a canonical text denotes. -/
def parse (limit : NestingLimit) (canonical : List Char) : Except Failure Expr := do
  let tokens ← Token.scan canonical
  Expr.ofTokens limit tokens

/-- The expression that was typed. -/
def read (limit : NestingLimit) (typed : List Char) : Except Failure Expr := do
  let canonical ← expandWithin limit (Keypad.clean typed)
  parse limit canonical

/-- The value of what was typed, over an arithmetic. -/
def evaluateOver {α : Type} (a : Arithmetic α) (limit : NestingLimit) (mode : AngleMode)
    (typed : List Char) : Except Failure Binary64 := do
  let tree ← read limit typed
  let value ← tree.eval a mode limit
  a.result value

/-- A finite double as text that can be put into a formula. -/
def literal (x : Binary64) : Except Failure (List Char) :=
  match x.literal? with
  | some text => .ok text
  | none => .error .notFinite

end Formula

/-- The value of what was typed, under a limit of nesting. -/
def Backend.evaluateWithin (backend : Backend) (limit : NestingLimit) (mode : AngleMode)
    (typed : List Char) : Except Failure Binary64 :=
  match backend with
  | .double => Formula.evaluateOver Binary64.arithmetic limit mode typed
  | .extended digits =>
    Formula.evaluateOver (Precision.ofDigits digits).arithmetic limit mode typed

/-- The value of what was typed. -/
def Backend.evaluate (backend : Backend) (mode : AngleMode) (typed : List Char) :
    Except Failure Binary64 :=
  backend.evaluateWithin NestingLimit.standard mode typed

end Calculator
