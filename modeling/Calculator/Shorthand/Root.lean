import Calculator.Shorthand.Mark
import Calculator.Shorthand.Operand

/-!
# Root signs

A root sign with an operand is a call of `sqrt` with that operand as its
argument, and the root signs inside the operand are written as calls in turn.
A root sign without an operand becomes the bare word, for a parser to refuse.

How deeply root signs are nested is measured beside the expansion and not
inside it, so that expansion is a function from texts to texts.

## Main definitions

* `expandRoots`: A text with its root signs written as calls.
* `rootDepth`: How deeply its root signs are nested.
-/

namespace Calculator

namespace Shorthand

/-- The word that is called for a root sign. -/
def rootWord : List Char :=
  ['s', 'q', 'r', 't']

/-- A text with every root sign written as a call of its operand, or as the
    bare word if it has none. -/
def expandRoots (text : List Char) : List Char :=
  match text with
  | [] => []
  | c :: rest =>
    if c = '√' then
      match _h : rootOperand? rest with
      -- The operand and what follows it are expanded apart from each other.
      | some (operand, tail) => call rootWord (expandRoots operand) ++ expandRoots tail
      | none => rootWord ++ expandRoots rest
    else c :: expandRoots rest
termination_by text.length
decreasing_by
  · have := length_operand_le_of_rootOperand? _h
    simp only [List.length_cons]
    omega
  · have := length_lt_of_rootOperand? _h
    simp only [List.length_cons]
    omega
  · simp
  · simp

/-- How deeply the root signs of a text are nested: at every root sign the
    run of root signs that starts there is walked, and its operand is one
    level further down. -/
def rootDepth (text : List Char) : Nat :=
  match text with
  | [] => 0
  | c :: rest =>
    if c = '√' then
      match _h : rootOperand? rest with
      | some (operand, tail) =>
        max (rootRun (c :: rest)) (max (rootDepth operand + 1) (rootDepth tail))
      | none => max (rootRun (c :: rest)) (rootDepth rest)
    else rootDepth rest
termination_by text.length
decreasing_by
  · have := length_operand_le_of_rootOperand? _h
    simp only [List.length_cons]
    omega
  · have := length_lt_of_rootOperand? _h
    simp only [List.length_cons]
    omega
  · simp
  · simp

end Shorthand

end Calculator
