/-!
# Angle modes

Angles are measured in radians or in degrees. The mode is chosen by its name,
and any other name is refused.

## Main definitions

* `AngleMode`: The two modes.
* `AngleMode.ofName?`: The mode of a name.
* `AngleMode.other`: The mode that a toggle switches to.

## Theorems

* `AngleMode.ofName?_name`: The name of a mode chooses it.
-/

namespace Calculator

/-- How angles are measured. -/
inductive AngleMode
  | radians
  | degrees
deriving DecidableEq, Repr

namespace AngleMode

/-- The name of a mode. -/
def name : AngleMode → String
  | radians => "rad"
  | degrees => "deg"

/-- The mode of a name. -/
def ofName? (name : String) : Option AngleMode :=
  if name = "rad" then some radians else if name = "deg" then some degrees else none

/-- The other mode. -/
def other : AngleMode → AngleMode
  | radians => degrees
  | degrees => radians

/-- The message for a name that is the name of no mode. -/
def refusal : String :=
  "El modo debe ser 'rad' o 'deg'"

theorem ofName?_name (mode : AngleMode) : ofName? mode.name = some mode := by
  cases mode <;> decide

end AngleMode

end Calculator
