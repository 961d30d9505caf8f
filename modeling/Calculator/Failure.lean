import Calculator.Text.Quoted
import Calculator.Expr

/-!
# Failures

Everything that can go wrong between a formula and its value, by cause. A
cause determines its kind, its message, and where in the canonical text it
was noticed, if it belongs to a place.

One cause was not foreseen: a numeral may have more digits than can be read at
once. No one who asks for a value takes this failure for an answer, so it ends
whatever was going on.

## Main definitions

* `Failure`: The causes.
* `FailureKind`: The kinds of causes.
* `Failure.kind`, `Failure.message`, `Failure.position?`: What is reported.
-/

namespace Calculator

/-- The kinds of failures. -/
inductive FailureKind
  /-- A character that starts no lexeme. -/
  | lexical
  /-- Lexemes that form no expression. -/
  | syntactic
  /-- An argument outside the domain of the factorial, or a formula nested too
      deeply. -/
  | domain
  /-- A number that is not finite, or no number. -/
  | numeric
  /-- What nobody expects of a formula. -/
  | unforeseen
deriving DecidableEq, Repr

/-- Why a formula has no value. Positions count the characters of the
    canonical text from zero. -/
inductive Failure
  /-- A character starts no lexeme. -/
  | unrecognised (character : Char) (position : Nat)
  /-- There is nothing to evaluate. -/
  | empty
  /-- The formula ends where an operand should stand. -/
  | incomplete
  /-- A lexeme cannot stand where it stands. -/
  | unexpected (lexeme : List Char) (position : Nat)
  /-- A parenthesis is not closed where it should be. -/
  | unclosed (position? : Option Nat)
  /-- A callee is not followed by a parenthesis. -/
  | uncalled (callee : Callee) (position? : Option Nat)
  /-- A constant is followed by a parenthesis. -/
  | notCallable (constant : Constant) (position : Nat)
  /-- A word has no meaning. -/
  | unknownWord (word : List Char) (position : Nat)
  /-- A numeral denotes a number beyond the doubles. -/
  | outOfRange (numeral : Numeral) (position : Nat)
  /-- The argument of a factorial is no natural number. -/
  | factorialArgument
  /-- The argument of a factorial is too large. -/
  | factorialTooLarge
  /-- The formula is nested too deeply. -/
  | tooDeep
  /-- An operation has no finite result. -/
  | notFinite
  /-- A value is no number at all. -/
  | notNumeric
  /-- A numeral has too many digits to be read. -/
  | tooManyDigits (numeral : Numeral)
deriving DecidableEq, Repr

/-- The largest number whose factorial is a finite double. -/
def factorialLimit : Nat := 170

namespace Failure

/-- The kind of a failure. -/
def kind : Failure → FailureKind
  | unrecognised _ _ => .lexical
  | empty | incomplete | unexpected _ _ | unclosed _ | uncalled _ _ | notCallable _ _
  | unknownWord _ _ => .syntactic
  | factorialArgument | factorialTooLarge | tooDeep => .domain
  | outOfRange _ _ | notFinite | notNumeric => .numeric
  | tooManyDigits _ => .unforeseen

/-- The place in the canonical text where a failure was noticed. -/
def position? : Failure → Option Nat
  | unrecognised _ position | unexpected _ position | notCallable _ position
  | unknownWord _ position | outOfRange _ position => some position
  | unclosed position? | uncalled _ position? => position?
  | empty | incomplete | factorialArgument | factorialTooLarge | tooDeep | notFinite
  | notNumeric | tooManyDigits _ => none

/-- The message for a failure. -/
def message : Failure → String
  | unrecognised character _ =>
    "Carácter no reconocido: " ++ String.ofList (Text.quote [character])
  | empty => "Expresión vacía"
  | incomplete => "Expresión incompleta"
  | unexpected lexeme _ => "Token inesperado: " ++ String.ofList (Text.quote lexeme)
  | unclosed _ => "Falta ')'"
  | uncalled callee _ => "Falta '(' después de " ++ String.ofList callee.name
  | notCallable constant _ => String.ofList constant.name ++ " no es una función"
  | unknownWord word _ => "Identificador no permitido: " ++ String.ofList word
  | outOfRange numeral _ => "Número fuera de rango: " ++ String.ofList numeral.text
  | factorialArgument => "factorial requiere entero no negativo"
  | factorialTooLarge => "factorial admite hasta " ++ toString factorialLimit
  | tooDeep => "Expresión demasiado anidada para evaluarse"
  | notFinite => "Resultado no finito"
  | notNumeric => "Resultado no numérico"
  | tooManyDigits numeral =>
    "Exceeds the limit (" ++ toString Text.maxIntegerDigits ++
      " digits) for integer string conversion: value has " ++ toString numeral.digits.length ++
      " digits; use sys.set_int_max_str_digits() to increase the limit"

end Failure

namespace FailureKind

/-- The word for a kind of failures. -/
def name : FailureKind → String
  | lexical => "lex"
  | syntactic => "syntax"
  | domain => "domain"
  | numeric => "numeric"
  | unforeseen => "unforeseen"

end FailureKind

end Calculator
