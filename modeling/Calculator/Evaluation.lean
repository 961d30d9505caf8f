import Calculator.AngleMode
import Calculator.Binary64.Basic
import Calculator.Failure
import Calculator.Nesting

/-!
# Evaluation

Expressions are evaluated over an *arithmetic*: a type of values with the
operations of the calculator on them. The arithmetic decides what a value is
and how precise it is. What counts as a failure, and in which order failures
are noticed, is decided here once for all arithmetics.

Operands are evaluated from left to right, then the operation is carried out.
A numeral is read when its turn comes, and it may be too long to be read.
An operation may have no result at all, like a division by zero, or one that
is not finite; both are the same failure. Constants, opposites, hundredths,
factorials and conversions to radians are taken as they come: they cannot
leave the finite numbers when their operands have not.

Degrees matter at the trigonometric functions and nowhere else: an angle is
converted on its way in and on its way out.

## Main definitions

* `Arithmetic`: A type of values with the operations of the calculator.
* `Expr.eval`: The value of an expression over an arithmetic.
* `Arithmetic.result`: The double that a value is reported as.
-/

namespace Calculator

/-- The operations of the calculator on a type of values. An operation that
    may have no result gives an optional value. -/
structure Arithmetic (α : Type) where
  /-- The value of a number literal, unless it has too many digits to be read. -/
  number : Numeral → Option α
  /-- The value of a constant. -/
  constant : Constant → α
  /-- The opposite of a value. -/
  negate : α → α
  /-- The hundredth part of a value. -/
  percent : α → α
  /-- An operation between two values. -/
  binary : BinaryOp → α → α → Option α
  /-- An elementary function, angles being in radians. -/
  apply : Elementary → α → Option α
  /-- An angle in degrees, in radians. -/
  toRadians : α → α
  /-- An angle in radians, in degrees. -/
  toDegrees : α → α
  /-- The integer that a value is, if it is one. -/
  integer? : α → Option Int
  /-- The factorial of a natural number. -/
  factorial : Nat → α
  /-- Whether a value is within the range of the finite doubles. -/
  isFinite : α → Bool
  /-- The double that a value is reported as. -/
  toBinary64 : α → Binary64

namespace Arithmetic

variable {α : Type}

/-- A finite value, or the failure of the operation that did not yield one. -/
def checked (a : Arithmetic α) (value : Option α) : Except Failure α :=
  match value with
  | some value => if a.isFinite value then .ok value else .error .notFinite
  | none => .error .notFinite

/-- The value of a number literal, which has to be finite. -/
def literal (a : Arithmetic α) (numeral : Numeral) : Except Failure α :=
  match a.number numeral with
  | some value => a.checked (some value)
  | none => .error (.tooManyDigits numeral)

/-- The factorial of a value: of the integers from zero up to the limit. -/
def factorialOf (a : Arithmetic α) (value : α) : Except Failure α :=
  match a.integer? value with
  | some (.ofNat n) =>
    -- Larger factorials are refused before they are computed.
    if n ≤ factorialLimit then .ok (a.factorial n) else .error .factorialTooLarge
  | _ => .error .factorialArgument

/-- An elementary function of a value, angles being measured by the mode. -/
def applyIn (a : Arithmetic α) (mode : AngleMode) (function : Elementary) (value : α) :
    Except Failure α :=
  match mode with
  | .radians => a.checked (a.apply function value)
  | .degrees =>
    -- Radians are smaller than degrees, so only the angle that comes out is checked.
    if function.takesAngle then a.checked (a.apply function (a.toRadians value))
    else if function.givesAngle then do
      let angle ← a.checked (a.apply function value)
      a.checked (some (a.toDegrees angle))
    else a.checked (a.apply function value)

/-- The double that a value is reported as, which has to be finite. -/
def result (a : Arithmetic α) (value : α) : Except Failure Binary64 :=
  if (a.toBinary64 value).isFinite then .ok (a.toBinary64 value) else .error .notFinite

end Arithmetic

namespace Expr

variable {α : Type}

/-- The value of an expression, if it is not nested too deeply. -/
def eval (a : Arithmetic α) (mode : AngleMode) (limit : NestingLimit) (e : Expr) :
    Except Failure α :=
  match limit.inner with
  | none => .error .tooDeep
  | some inner =>
    match e with
    | number numeral => a.literal numeral
    | constant name => .ok (a.constant name)
    | negate operand => (operand.eval a mode inner).map a.negate
    | percent operand => (operand.eval a mode inner).map a.percent
    | factorial operand => do
      let value ← operand.eval a mode inner
      a.factorialOf value
    | apply function operand => do
      let value ← operand.eval a mode inner
      a.applyIn mode function value
    | binary op left right => do
      -- The left operand comes first, so that its failure is the one reported.
      let x ← left.eval a mode inner
      let y ← right.eval a mode inner
      a.checked (a.binary op x y)

end Expr

end Calculator
