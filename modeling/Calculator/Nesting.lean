/-!
# Limits of nesting

Formulas may be nested only so deeply. A limit is a number of levels, or none
at all; without a limit every depth is admitted. The limit is an argument
everywhere, so that what a formula means can be said without it.

## Main definitions

* `NestingLimit`: The deepest admitted level, if there is one.
* `NestingLimit.admits`: Whether a depth is within a limit.
* `NestingLimit.inner`: What is left of a limit one level further down.
* `NestingLimit.standard`: The limit of the calculator.

## Theorems

* `NestingLimit.admits_none`: Without a limit every depth is admitted.
-/

namespace Calculator

/-- The deepest level that is admitted, or no limit. -/
abbrev NestingLimit := Option Nat

namespace NestingLimit

/-- Whether a depth is within a limit. -/
def admits (limit : NestingLimit) (depth : Nat) : Bool :=
  limit.all (depth ≤ ·)

/-- What is left of a limit one level further down, if anything is. -/
def inner : NestingLimit → Option NestingLimit
  | none => some none
  | some 0 => none
  | some (n + 1) => some (some n)

/-- The limit under which the calculator works. -/
def standard : NestingLimit :=
  some 980

@[simp] theorem admits_none (depth : Nat) : admits none depth = true := rfl

@[simp] theorem admits_some (limit depth : Nat) :
    admits (some limit) depth = true ↔ depth ≤ limit := by
  simp [admits]

end NestingLimit

end Calculator
