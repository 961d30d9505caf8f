import Calculator.Formula
import Calculator.Text.Capital

/-!
# Inspection

A report on every stage that a formula passes through, for someone who wants
to see where it goes wrong. Expressions are written out as nested terms with
the kinds and fields of their nodes.

## Main definitions

* `Lexeme.kindName`: The name of the kind of a lexeme.
* `Inspection.tree`: An expression written out.
* `Inspection.outcome`: The value of a formula, or the kind of its failure.
* `Inspection.report`: The report.
-/

namespace Calculator

/-- The name of the kind of a lexeme. -/
def Lexeme.kindName : Lexeme → String
  | number _ => "NUMBER"
  | word _ => "IDENTIFIER"
  | operator _ => "OPERATOR"
  | leftParen => "LPAREN"
  | rightParen => "RPAREN"
  | comma => "COMMA"
  | exclamation => "FACTORIAL"
  | percentMark => "PERCENT"

namespace Inspection

/-- A word in capitals. -/
def capitals (word : List Char) : String :=
  String.ofList (Text.capitals word)

/-- A member of a family, with its value. -/
def member (family name : String) (value : List Char) : String :=
  "<" ++ family ++ "." ++ name ++ ": " ++ String.ofList (Text.quote value) ++ ">"

/-- The name of an operation in a written tree. -/
def operationName : BinaryOp → String
  | .add => "ADD"
  | .sub => "SUB"
  | .mul => "MUL"
  | .div => "DIV"
  | .pow => "POW"

/-- A call of a word in a written tree. -/
def calling (word : List Char) (argument : String) : String :=
  "FunctionCall(name=" ++ member "FunctionKind" (capitals word) word ++ ", argument=" ++ argument
    ++ ")"

/-- An expression written out. -/
def tree : Expr → String
  | .number numeral =>
    "NumberLiteral(value=" ++ String.ofList (Binary64.ofNumeral numeral).text ++ ", text="
      ++ String.ofList (Text.quote numeral.text) ++ ")"
  | .constant name =>
    "Constant(kind=" ++ member "ConstantKind" (capitals name.name) name.name ++ ")"
  | .negate operand =>
    "UnaryOp(kind=" ++ member "UnaryKind" "NEGATE" ['-'] ++ ", operand=" ++ tree operand ++ ")"
  | .percent operand => "Percent(operand=" ++ tree operand ++ ")"
  | .factorial operand => calling Callee.factorial.name (tree operand)
  | .apply function operand => calling function.name (tree operand)
  | .binary op left right =>
    "BinaryOp(kind=" ++ member "BinaryKind" (operationName op) op.symbol ++ ", left=" ++ tree left
      ++ ", right=" ++ tree right ++ ")"

/-- What a report calls a failure of a kind. -/
def failureName : FailureKind → String
  | .lexical => "LexError"
  | .syntactic => "SyntaxFailure"
  | .domain => "DomainError"
  | .numeric => "NumericError"
  | .unforeseen => "ValueError"

/-- The value of a formula, or the kind of its failure. -/
def outcome (backend : Backend) (mode : AngleMode) (typed : List Char) : String :=
  match backend.evaluate mode typed with
  | .ok value => String.ofList value.text
  | .error failure => "<" ++ failure.kind.name ++ ">"

/-- The line on a failure that stops the stages. -/
def stopped (failure : Failure) : String :=
  "stopped:    " ++ failureName failure.kind ++ ": " ++ failure.message

/-- The line on tokens. -/
def tokenLine (tokens : List Token) : String :=
  "tokens:     " ++ " ".intercalate
    (tokens.map fun t => t.lexeme.kindName ++ ":" ++ String.ofList t.lexeme.text)

/-- How many levels of nesting it takes to write one node inside another. -/
def levelsPerNode : Nat := 3

/-- The lines on the tokens and the expression of a canonical text. A formula
    that is nested too deeply, to be read or to be written out, has no
    report. -/
def stages (limit : NestingLimit) (canonical : List Char) : Except Failure (List String) :=
  match Token.scan canonical with
  | .error failure => .ok [stopped failure]
  | .ok tokens =>
    match Expr.ofTokens limit tokens with
    | .ok expression =>
      if limit.admits (levelsPerNode * expression.height) then
        .ok [tokenLine tokens, "ast:        " ++ tree expression]
      else .error .tooDeep
    | .error .tooDeep => .error .tooDeep
    | .error failure => .ok [tokenLine tokens, stopped failure]

/-- The report on a formula in a mode, line by line. -/
def report (limit : NestingLimit) (mode : AngleMode) (typed : List Char) :
    Except Failure (List String) := do
  let clean := Keypad.clean typed
  let canonical ← Formula.expandWithin limit clean
  let middle ← stages limit canonical
  .ok (["Pipeline inspection",
      "expr:       " ++ String.ofList typed,
      "mode:       " ++ mode.name,
      "sanitized:  " ++ String.ofList clean,
      "canonical:  " ++ String.ofList canonical]
    ++ middle
    ++ ["result:     " ++ outcome .double mode typed])

end Inspection

end Calculator
