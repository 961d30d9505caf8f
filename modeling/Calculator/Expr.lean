import Calculator.Numeral

/-!
# Expressions

The trees that formulas denote. A tree holds numerals as they were written,
the two constants, and the operations of the calculator; parentheses and unary
plus signs leave no trace in it.

The words that may be called with an argument in parentheses are *callees*:
the nine elementary functions, the factorial, and the percent. Each of them
makes a node of its own kind, since each fails in its own way.

## Main definitions

* `Constant`, `BinaryOp`, `Elementary`: The leaves and operations by name.
* `Expr`: Expression trees.
* `Callee`: A word that can be called, and the node that a call makes.
* `Instruction`: One step of carrying out an expression.
* `Expr.postorder`: The operations in the order in which they are carried out.
* `Expr.instructions`: The same, for expressions with many operations.
* `Expr.height`: The number of nodes on the longest way down.

## Theorems

* `Callee.ofName?_name`, `Constant.ofName?_name`: Words are told apart.
* `Expr.instructions_eq`: The two ways to list the operations agree.
-/

namespace Calculator

/-- The constants that have a name. -/
inductive Constant
  /-- The half circumference of the unit circle. -/
  | pi
  /-- The base of the natural logarithm. -/
  | e
deriving DecidableEq, Repr

/-- The operations between two operands. -/
inductive BinaryOp
  | add
  | sub
  | mul
  | div
  | pow
deriving DecidableEq, Repr

/-- The elementary functions. -/
inductive Elementary
  | sin
  | cos
  | tan
  | asin
  | acos
  | atan
  /-- The logarithm to the base ten. -/
  | log
  /-- The natural logarithm. -/
  | ln
  | sqrt
deriving DecidableEq, Repr

/-- An expression tree. -/
inductive Expr
  /-- A number as it was written. -/
  | number (numeral : Numeral)
  /-- A constant. -/
  | constant (name : Constant)
  /-- The opposite of an operand. -/
  | negate (operand : Expr)
  /-- A hundredth of an operand. -/
  | percent (operand : Expr)
  /-- The factorial of an operand. -/
  | factorial (operand : Expr)
  /-- An elementary function of an operand. -/
  | apply (function : Elementary) (operand : Expr)
  /-- An operation between two operands. -/
  | binary (op : BinaryOp) (left right : Expr)
deriving DecidableEq, Repr

namespace Constant

/-- The word for a constant. -/
def name : Constant → List Char
  | pi => ['p', 'i']
  | e => ['e']

/-- The constant that a word names. -/
def ofName? (word : List Char) : Option Constant :=
  [pi, e].find? fun c => c.name = word

theorem ofName?_name (c : Constant) : ofName? c.name = some c := by
  cases c <;> rfl

end Constant

namespace BinaryOp

/-- The sign of an operation. -/
def symbol : BinaryOp → List Char
  | add => ['+']
  | sub => ['-']
  | mul => ['*']
  | div => ['/']
  | pow => ['*', '*']

end BinaryOp

namespace Elementary

/-- The word for a function. -/
def name : Elementary → List Char
  | sin => ['s', 'i', 'n']
  | cos => ['c', 'o', 's']
  | tan => ['t', 'a', 'n']
  | asin => ['a', 's', 'i', 'n']
  | acos => ['a', 'c', 'o', 's']
  | atan => ['a', 't', 'a', 'n']
  | log => ['l', 'o', 'g']
  | ln => ['l', 'n']
  | sqrt => ['s', 'q', 'r', 't']

/-- A function whose argument is an angle. -/
def takesAngle : Elementary → Bool
  | sin | cos | tan => true
  | _ => false

/-- A function whose value is an angle. -/
def givesAngle : Elementary → Bool
  | asin | acos | atan => true
  | _ => false

end Elementary

/-- A word that can be called with one argument. -/
inductive Callee
  /-- An elementary function. -/
  | elementary (function : Elementary)
  /-- The factorial. -/
  | factorial
  /-- The percent. -/
  | percent
deriving DecidableEq, Repr

namespace Callee

/-- The word that is called. -/
def name : Callee → List Char
  | elementary function => function.name
  | factorial => ['f', 'a', 'c', 't']
  | percent => ['p', 'c', 't']

/-- All words that can be called. -/
def all : List Callee :=
  [elementary .sin, elementary .cos, elementary .tan, elementary .asin, elementary .acos,
    elementary .atan, elementary .log, elementary .ln, elementary .sqrt, factorial, percent]

/-- What a word calls, if it can be called. -/
def ofName? (word : List Char) : Option Callee :=
  all.find? fun f => f.name = word

/-- The node that a call makes of its argument. -/
def node : Callee → Expr → Expr
  | elementary function, operand => .apply function operand
  | factorial, operand => .factorial operand
  | percent, operand => .percent operand

theorem ofName?_name (f : Callee) : ofName? f.name = some f := by
  cases f with
  | elementary function => cases function <;> rfl
  | factorial => rfl
  | percent => rfl

end Callee

/-- One step of carrying out an expression, on operands that are there. -/
inductive Instruction
  /-- Bring in a number. -/
  | number (numeral : Numeral)
  /-- Bring in a constant. -/
  | constant (name : Constant)
  /-- Take the opposite. -/
  | negate
  /-- Take the hundredth part. -/
  | percent
  /-- Take the factorial. -/
  | factorial
  /-- Take an elementary function. -/
  | apply (function : Elementary)
  /-- Combine two operands. -/
  | binary (op : BinaryOp)
deriving DecidableEq, Repr

namespace Expr

/-- The operations of an expression in the order in which they are carried
    out: operands from left to right, then what is done with them. -/
def postorder : Expr → List Instruction
  | number numeral => [.number numeral]
  | constant name => [.constant name]
  | negate operand => operand.postorder ++ [.negate]
  | percent operand => operand.postorder ++ [.percent]
  | factorial operand => operand.postorder ++ [.factorial]
  | apply function operand => operand.postorder ++ [.apply function]
  | binary op left right => left.postorder ++ right.postorder ++ [.binary op]

/-- The operations of an expression in the order in which they are carried
    out, with further ones behind them. -/
def instructionsThen : Expr → List Instruction → List Instruction
  | number numeral, rest => .number numeral :: rest
  | constant name, rest => .constant name :: rest
  | negate operand, rest => operand.instructionsThen (.negate :: rest)
  | percent operand, rest => operand.instructionsThen (.percent :: rest)
  | factorial operand, rest => operand.instructionsThen (.factorial :: rest)
  | apply function operand, rest => operand.instructionsThen (.apply function :: rest)
  | binary op left right, rest =>
    left.instructionsThen (right.instructionsThen (.binary op :: rest))

/-- The operations of an expression in the order in which they are carried
    out, listed from the last one to the first, so that no list is copied. -/
def instructions (e : Expr) : List Instruction :=
  e.instructionsThen []

theorem instructionsThen_eq (e : Expr) (rest : List Instruction) :
    e.instructionsThen rest = e.postorder ++ rest := by
  induction e generalizing rest with
  | number numeral => rfl
  | constant name => rfl
  | negate operand ih => simp [instructionsThen, postorder, ih]
  | percent operand ih => simp [instructionsThen, postorder, ih]
  | factorial operand ih => simp [instructionsThen, postorder, ih]
  | apply function operand ih => simp [instructionsThen, postorder, ih]
  | binary op left right ihl ihr => simp [instructionsThen, postorder, ihl, ihr]

theorem instructions_eq (e : Expr) : e.instructions = e.postorder := by
  simp [instructions, instructionsThen_eq]

/-- The number of nodes on the longest way from an expression down to a leaf. -/
def height : Expr → Nat
  | number _ | constant _ => 1
  | negate operand | percent operand | factorial operand | apply _ operand => operand.height + 1
  | binary _ left right => max left.height right.height + 1

end Expr

end Calculator
