import Calculator.CommandLine

/-!
# The calculator as a program

The outermost layer: it reads the words of the command line and, if there are
no formulas among them, the standard input, and writes what it is told.
-/

open Calculator

/-- Run the calculator with the words of a command line. -/
def main (arguments : List String) : IO UInt32 := do
  let words := arguments.map String.toList
  let needsInput := match CommandLine.settings words with
    | .ok settings => settings.formulas.isEmpty
    | .error _ => false
  let input ← if needsInput then (← IO.getStdin).readToEnd else pure ""
  match CommandLine.run words input.toList with
  | .ok (code, output) =>
    IO.print (String.ofList output)
    return UInt32.ofNat code
  | .error interruption =>
    if let .brokenOff output _ := interruption then IO.print (String.ofList output)
    IO.eprintln interruption.message
    return 1
