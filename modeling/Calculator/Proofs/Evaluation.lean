import Calculator.Formula

/-!
# Evaluation, one node at a time

What the value of an expression is in terms of the values of its operands, and
what is known once there is a value. A limit of nesting has to leave something
for the operands; without a limit it always does.

## Theorems

* `exists_of_bind_eq_ok`, `exists_of_map_eq_ok`: A computation with a result
  has results on the way.
* `Arithmetic.checked_eq_ok_iff`, `Arithmetic.checked_eq_error_iff`: What passes
  the check for a finite value.
* `Arithmetic.literal_of_some`, `Arithmetic.literal_of_none`: The value of a
  numeral, if it is read.
* `Expr.exists_inner`: A limit under which there is a value.
* `Expr.eval_negate`, `Expr.eval_binary` and so on: The equations of evaluation.
* `Formula.evaluateOver_eq`: A formula that has been read.
* `Backend.isFinite_of_evaluate`: Results are finite.
-/

namespace Calculator

theorem exists_of_bind_eq_ok {ε α β : Type} {x : Except ε α} {f : α → Except ε β} {y : β}
    (h : (x >>= f) = .ok y) : ∃ value, x = .ok value ∧ f value = .ok y := by
  cases x with
  | error failure => cases h
  | ok value => exact ⟨value, rfl, h⟩

theorem exists_of_map_eq_ok {ε α β : Type} {x : Except ε α} {f : α → β} {y : β}
    (h : x.map f = .ok y) : ∃ value, x = .ok value ∧ f value = y := by
  cases x with
  | error failure => cases h
  | ok value => exact ⟨value, rfl, Except.ok.inj h⟩

theorem ok_of_toOption {ε α : Type} {x : Except ε α} {y : α} (h : x.toOption = some y) :
    x = .ok y := by
  cases x with
  | error failure => cases h
  | ok value => exact congrArg Except.ok (Option.some.inj h)

namespace Arithmetic

variable {α : Type} (a : Arithmetic α) (value : α)

theorem checked_eq_ok_iff : a.checked (some value) = .ok value ↔ a.isFinite value = true := by
  cases h : a.isFinite value <;> simp [checked, h]

theorem checked_eq_error_iff :
    a.checked (some value) = .error .notFinite ↔ ¬a.isFinite value = true := by
  cases h : a.isFinite value <;> simp [checked, h]

variable {a} {value} {numeral : Numeral}

theorem literal_of_some (h : a.number numeral = some value) :
    a.literal numeral = a.checked (some value) := by
  rw [literal, h]

theorem literal_of_none (h : a.number numeral = none) :
    a.literal numeral = .error (.tooManyDigits numeral) := by
  rw [literal, h]

end Arithmetic

variable {α : Type} {a : Arithmetic α} {mode : AngleMode} {limit inner : NestingLimit}

namespace Expr

/-- A value needs a limit that leaves something for the operands. -/
theorem exists_inner {tree : Expr} {value : α} (h : tree.eval a mode limit = .ok value) :
    ∃ inner, limit.inner = some inner := by
  cases hi : limit.inner with
  | none => cases tree <;> rw [eval, hi] at h <;> cases h
  | some inner => exact ⟨inner, rfl⟩

theorem eval_number (h : limit.inner = some inner) (numeral : Numeral) :
    (number numeral).eval a mode limit = a.literal numeral := by
  rw [eval, h]

theorem eval_constant (h : limit.inner = some inner) (name : Constant) :
    (constant name).eval a mode limit = .ok (a.constant name) := by
  rw [eval, h]

theorem eval_negate (h : limit.inner = some inner) (operand : Expr) :
    (negate operand).eval a mode limit = (operand.eval a mode inner).map a.negate := by
  rw [eval, h]

theorem eval_percent (h : limit.inner = some inner) (operand : Expr) :
    (percent operand).eval a mode limit = (operand.eval a mode inner).map a.percent := by
  rw [eval, h]

theorem eval_factorial (h : limit.inner = some inner) (operand : Expr) :
    (factorial operand).eval a mode limit = operand.eval a mode inner >>= a.factorialOf := by
  rw [eval, h]

theorem eval_apply (h : limit.inner = some inner) (function : Elementary) (operand : Expr) :
    (apply function operand).eval a mode limit =
      operand.eval a mode inner >>= a.applyIn mode function := by
  rw [eval, h]

theorem eval_binary (h : limit.inner = some inner) (op : BinaryOp) (left right : Expr) :
    (binary op left right).eval a mode limit =
      left.eval a mode inner >>= fun x =>
        right.eval a mode inner >>= fun y => a.checked (a.binary op x y) := by
  rw [eval, h]

end Expr

/-- What is left to do with a formula that has been read. -/
theorem Formula.evaluateOver_eq {typed : List Char} {tree : Expr}
    (h : Formula.read limit typed = .ok tree) :
    Formula.evaluateOver a limit mode typed = tree.eval a mode limit >>= a.result := by
  rw [evaluateOver, h]
  rfl

/-- Every result is finite. -/
theorem Formula.isFinite_of_evaluateOver {α : Type} {a : Arithmetic α} {limit : NestingLimit}
    {mode : AngleMode} {typed : List Char} {value : Binary64}
    (h : Formula.evaluateOver a limit mode typed = .ok value) : value.isFinite = true := by
  rcases exists_of_bind_eq_ok h with ⟨tree, -, heval⟩
  rcases exists_of_bind_eq_ok heval with ⟨inner, -, hresult⟩
  unfold Arithmetic.result at hresult
  split at hresult
  · cases hresult
    assumption
  · cases hresult

theorem Backend.isFinite_of_evaluate {backend : Backend} {mode : AngleMode} {typed : List Char}
    {value : Binary64} (h : backend.evaluate mode typed = .ok value) : value.isFinite = true := by
  cases backend <;> exact Formula.isFinite_of_evaluateOver h

end Calculator
