import Calculator.Checks
import Calculator.CommandLine
import Calculator.Main
import Calculator.Proofs.Spelling
import Calculator.Proofs.Grammar
import Calculator.Proofs.Reading
import Calculator.Proofs.Numeral
import Calculator.Proofs.Typed
import Calculator.Proofs.Scanning
import Calculator.Proofs.Typed.Group
import Calculator.Proofs.Typed.Completion
import Calculator.Proofs.Typed.Translation
import Calculator.Proofs.Typed.Marks
import Calculator.Proofs.Typed.Roots
import Calculator.Proofs.Typed.Lexing
import Calculator.Proofs.Typed.Stage
import Calculator.Proofs.Typed.Cutting
import Calculator.Proofs.Typed.Language
import Calculator.Proofs.Binary64.Literal
import Calculator.Proofs.Literal
import Calculator.Proofs.Precision.Digits
import Calculator.Proofs.Precision.Literal
import Calculator.Proofs.Lookahead
import Calculator.Proofs.Refusal
import Calculator.Proofs.Session
import Calculator.Proofs.Precision.Constants
import Calculator.Proofs.Precision.Range
import Calculator.Proofs.Range
import Calculator.Proofs.Insertion
import Calculator.Proofs.Canonical
import Calculator.Proofs.Nesting
import Calculator.Proofs.Binary64.Display
import Calculator.Proofs.Terminal
import Calculator.Proofs.Binary64.Integer
import Calculator.Proofs.Precision.Integer
import Calculator.Proofs.Integers
import Calculator.Proofs.Postorder
import Calculator.Proofs.Writing
import Calculator.Proofs.Parentheses
import Calculator.Proofs.Composition
import Calculator.Proofs.Accumulation
import Calculator.Proofs.Precision.Degree
import Calculator.Proofs.Angles
import Calculator.Proofs.Decimal.Nearest
import Calculator.Proofs.Binary64.Shown
import Calculator.Proofs.Coverage
import Calculator.Proofs.StrayPoint
import Calculator.Proofs.Text.Letter
import Calculator.Proofs.Operand
import Calculator.Proofs.Unmatched
import Calculator.Proofs.Precision.Edge
import Calculator.Proofs.Unforeseen
