import Calculator.Inspection

/-!
# Regression checks

A list of formulas whose values are known beforehand, and a report on whether
the calculator still agrees. A check compares a value with a known one up to a
small tolerance, or expects a kind of failure, or puts the literal of a value
back into the calculator. A comparison shows two texts that should be equal.

## Main definitions

* `Checks.isClose`: Equality up to the tolerance.
* `Checks.all`: The checks and whether they hold.
* `Checks.comparisons`: The comparisons.
* `Checks.report`: The report, and whether everything holds.
* `Checks.program`: Checks or an inspection, as the words of a command line ask.
-/

namespace Calculator

namespace Checks

/-- The tolerance, both relative and absolute. -/
def tolerance : Binary64 :=
  Binary64.ofDecimal false ⟨1, -12⟩

/-- Whether two doubles are equal up to the tolerance. -/
def isClose (x y : Binary64) : Bool :=
  x.sameNumber y ||
    (x.isFinite && y.isFinite &&
      ((y - x).abs.le (tolerance * y).abs || (y - x).abs.le (tolerance * x).abs
        || (y - x).abs.le tolerance))

/-- The value of a formula over the doubles. -/
def value (mode : AngleMode) (formula : String) : Except Failure Binary64 :=
  Backend.double.evaluate mode formula.toList

/-- Whether a formula has a value close to a known one. -/
def close (mode : AngleMode) (formula : String) (expected : Binary64) : Bool :=
  match value mode formula with
  | .ok actual => isClose actual expected
  | .error _ => false

/-- Whether a formula fails with a failure of a kind. -/
def fails (formula : String) (kind : FailureKind) : Bool :=
  match value .radians formula with
  | .ok _ => false
  | .error failure => failure.kind = kind

/-- Whether the literal of the value of a formula has that value. A formula
    without a value is not checked. -/
def literalCheck? (formula : String) : Option (String × Bool) :=
  match value .radians formula with
  | .error _ => none
  | .ok first =>
    -- The literal goes the whole way of a typed formula.
    let again := match Formula.literal first with
      | .ok text => Backend.double.evaluate .radians text
      | .error failure => .error failure
    let holds := match again with
      | .ok second => second.sameNumber first
      | .error _ => false
    some (formula ++ " round-trips as a literal", holds)

/-- The checks against known values and known failures. -/
def known : List (String × Bool) :=
  [("precedence of * over +", close .radians "2+3*4" (.ofInt 14)),
    ("left associativity of -", close .radians "10-4-3" (.ofInt 3)),
    ("left associativity of /", close .radians "64/4/2" (.ofInt 8)),
    ("power is right associative", close .radians "2^3^2" (.ofInt 512)),
    ("-2^2 is -4 in radians", close .radians "-2^2" (.ofInt (-4))),
    ("-2^2 is -4 in degrees", close .degrees "-2^2" (.ofInt (-4))),
    ("sin(90) in degrees", close .degrees "sin(90)" (.ofInt 1)),
    ("sin(90) in radians", close .radians "sin(90)" ((Binary64.ofInt 90).viaFloat Float.sin)),
    ("asin(1) in degrees", close .degrees "asin(1)" (.ofInt 90)),
    ("log and ln", close .radians "log(1000)+ln(e)" (.ofInt 4)),
    ("5! is 120", close .radians "5!" (.ofInt 120)),
    ("3.5! is a domain failure", fails "3.5!" .domain),
    ("-1! is a domain failure", fails "-1!" .domain),
    ("171! is a domain failure", fails "171!" .domain),
    ("(2+3)! is a syntax failure", fails "(2+3)!" .syntactic),
    ("50% is 0.5", close .radians "50%" (.ofDecimal false ⟨5, -1⟩)),
    ("1/0 is a numeric failure", fails "1/0" .numeric),
    ("sqrt(-1) is a numeric failure", fails "√(-1)" .numeric),
    ("unbalanced parenthesis", fails "(2+3" .syntactic),
    ("empty expression", fails "" .syntactic)]

/-- The checks and whether they hold. -/
def all : List (String × Bool) :=
  known ++ ["1/3", "2^0.5", "170!", "10^-30", "π*e", "sin(1)"].filterMap literalCheck?

/-- Formulas with the outcome that is expected of them. -/
def comparisons : List (String × String) :=
  [("√16+√(9)", "7.0"),
    ("2*π", String.ofList (Binary64.ofInt 2 * Binary64.pi).text),
    ("20%*50", "10.0"),
    ("2×3÷4", "1.5"),
    ("sin(30", "<syntax>")]

/-- The word for whether something holds. -/
def verdict (holds : Bool) : String :=
  if holds then "OK" else "FAIL"

/-- The actual outcome of a formula. -/
def actual (formula : String) : String :=
  Inspection.outcome .double .radians formula.toList

/-- The lines on a comparison. -/
def comparisonLines (comparison : String × String) : List String :=
  let found := actual comparison.1
  ["- " ++ comparison.1 ++ ": " ++ verdict (comparison.2 = found),
    "  expected: " ++ comparison.2,
    "  actual:   " ++ found]

/-- The names of what does not hold. -/
def failures : List String :=
  (all.filter fun check => !check.2).map (·.1)
    ++ (comparisons.filter fun comparison => comparison.2 != actual comparison.1).map (·.1)

/-- The report, line by line, and whether everything holds. -/
def report : List String × Bool :=
  let lines := all.map (fun check => check.1 ++ ": " ++ verdict check.2)
    ++ ["", "Expected vs Actual:"]
    ++ comparisons.flatMap comparisonLines
  if failures.isEmpty then (lines ++ ["", "All regression checks passed."], true)
  else (lines ++ ["", "FAILED CHECKS:"] ++ failures.map ("- " ++ ·), false)

/-- What the program of the checks ends with. -/
inductive Ending
  /-- Everything that was asked for has been done. -/
  | done
  /-- A check does not hold. -/
  | failed
  /-- A formula to inspect is missing. -/
  | missingFormula
deriving DecidableEq, Repr

/-- The message for a missing formula. -/
def missingFormula : String :=
  "Missing expression after --inspect"

/-- What the words of a command line ask for: an inspection of the word behind
    the first `--inspect`, in degrees if `--deg` is among the words, and
    otherwise the report. -/
def program (arguments : List String) : Except Failure (List String × Ending) :=
  match arguments.dropWhile (· ≠ "--inspect") with
  | [] => .ok (report.1, if report.2 then .done else .failed)
  | [_] => .ok ([], .missingFormula)
  | _ :: formula :: _ =>
    let mode := if arguments.contains "--deg" then AngleMode.degrees else AngleMode.radians
    (Inspection.report NestingLimit.standard mode formula.toList).map fun lines => (lines, .done)

end Checks

end Calculator
