import Calculator.Proofs.Evaluation
import Calculator.Proofs.Precision.Integer

/-!
# Evaluation on a stack

The operations of an expression, listed in the order in which they are carried
out, are a program for a machine with a stack: each of them takes its operands
off the stack and puts its value there. The machine stops at the first
operation that fails.

Evaluating an expression is running its operations. The induction is on the
expression, for any operations behind its own and any values below its
operands, since the operations of a right operand run above the value of the
left one. So the failure of an expression is that of the first operation that
fails, and an operand that fails cannot be made up for by another one.

Only the factorial is particular about finite arguments. Its failures are
thereby told from all others by their kind.

## Main definitions

* `Backend.Value`, `Backend.arithmetic`: The values and operations of a backend.
* `Machine.step`, `Machine.run`: One operation on a stack, and many of them.
* `Expr.Occurs`: Whether an expression is part of another one.

## Theorems

* `Machine.run_postorder`: The operations of an expression put its value on the
  stack.
* `Machine.run_eq_failed_iff`: A run fails where its first failure is.
* `Expr.Occurs.eval_error`: A part that fails makes the whole fail.
* `Machine.step_domain_iff`: The failures of the factorial.
* `Backend.carried_out_in_postorder`: All of this, for the arithmetics that can
  be chosen.
-/

namespace Calculator

namespace Backend

/-- The values of a backend. -/
def Value : Backend → Type
  | double => Binary64
  | extended _ => Dyadic

/-- The operations of a backend. -/
def arithmetic : (backend : Backend) → Arithmetic backend.Value
  | double => Binary64.arithmetic
  | extended digits => (Precision.ofDigits digits).arithmetic

/-- What was typed is evaluated over the operations of the backend. -/
theorem evaluateWithin_eq (backend : Backend) (limit : NestingLimit) (mode : AngleMode)
    (typed : List Char) :
    backend.evaluateWithin limit mode typed =
      Formula.evaluateOver backend.arithmetic limit mode typed := by
  cases backend <;> rfl

/-- A value of a backend is an integer. -/
def IsInteger : (backend : Backend) → backend.Value → Int → Prop
  | double => Binary64.IsInteger
  | extended _ => fun x z => Dyadic.toRat x = z

end Backend

/-! ### The machine -/

namespace Machine

variable {α : Type}

/-- How a run of the machine ends. -/
inductive Outcome (α : Type)
  /-- All operations were carried out. The values left are listed from the top. -/
  | finished (stack : List α)
  /-- An operation failed. -/
  | failed (cause : Failure)
  /-- An operation did not find its operands. -/
  | stuck
deriving DecidableEq, Repr

namespace Outcome

/-- A value is put on a stack, unless there is none. -/
def push (stack : List α) : Except Failure α → Outcome α
  | .ok value => finished (value :: stack)
  | .error cause => failed cause

/-- A run goes on with the values that are left. -/
def andThen (outcome : Outcome α) (more : List α → Outcome α) : Outcome α :=
  match outcome with
  | finished stack => more stack
  | failed cause => failed cause
  | stuck => stuck

end Outcome

open Outcome

/-- One operation on a stack. -/
def step (a : Arithmetic α) (mode : AngleMode) : Instruction → List α → Outcome α
  | .number numeral, stack => push stack (a.literal numeral)
  | .constant name, stack => push stack (.ok (a.constant name))
  | .negate, x :: stack => push stack (.ok (a.negate x))
  | .percent, x :: stack => push stack (.ok (a.percent x))
  | .factorial, x :: stack => push stack (a.factorialOf x)
  | .apply function, x :: stack => push stack (a.applyIn mode function x)
  -- The right operand was put on the stack last.
  | .binary op, y :: x :: stack => push stack (a.checked (a.binary op x y))
  | _, _ => stuck

/-- Operations on a stack, one after the other up to the first that fails. -/
def run (a : Arithmetic α) (mode : AngleMode) : List Instruction → List α → Outcome α
  | [], stack => finished stack
  | instruction :: code, stack => (step a mode instruction stack).andThen (run a mode code)

variable {a : Arithmetic α} {mode : AngleMode}

theorem run_append (before code : List Instruction) (stack : List α) :
    run a mode (before ++ code) stack = (run a mode before stack).andThen (run a mode code) := by
  induction before generalizing stack with
  | nil => rfl
  | cons instruction before ih =>
    rw [List.cons_append, run, run]
    cases step a mode instruction stack with
    | finished rest => exact ih rest
    | failed cause => rfl
    | stuck => rfl

/-- The operations of an expression put its value on the stack, or they fail
    as the expression does. -/
theorem run_postorder (tree : Expr) (code : List Instruction) (stack : List α) :
    run a mode (tree.postorder ++ code) stack =
      (push stack (tree.eval a mode none)).andThen (run a mode code) := by
  induction tree generalizing code stack with
  | number numeral => rw [Expr.eval_number rfl]; rfl
  | constant name => rw [Expr.eval_constant rfl]; rfl
  | negate operand ih =>
    rw [Expr.postorder, List.append_assoc, ih, Expr.eval_negate rfl]
    cases operand.eval a mode none <;> rfl
  | percent operand ih =>
    rw [Expr.postorder, List.append_assoc, ih, Expr.eval_percent rfl]
    cases operand.eval a mode none <;> rfl
  | factorial operand ih =>
    rw [Expr.postorder, List.append_assoc, ih, Expr.eval_factorial rfl]
    cases operand.eval a mode none <;> rfl
  | apply function operand ih =>
    rw [Expr.postorder, List.append_assoc, ih, Expr.eval_apply rfl]
    cases operand.eval a mode none <;> rfl
  | binary op left right ihl ihr =>
    -- The right operand runs above the value of the left one, if there is one.
    rw [Expr.postorder, List.append_assoc, List.append_assoc, ihl, Expr.eval_binary rfl]
    cases left.eval a mode none with
    | error cause => rfl
    | ok x =>
      change run a mode (right.postorder ++ _) (x :: stack) = _
      rw [ihr]
      cases right.eval a mode none <;> rfl

/-- An expression is evaluated as its operations run. -/
theorem run_postorder_nil (tree : Expr) :
    run a mode tree.postorder [] = push [] (tree.eval a mode none) := by
  have h : run a mode (tree.postorder ++ []) [] = _ := run_postorder tree [] []
  rw [List.append_nil] at h
  rw [h]
  cases tree.eval a mode none <;> rfl

theorem eval_eq_ok_iff (tree : Expr) (value : α) :
    tree.eval a mode none = .ok value ↔ run a mode tree.postorder [] = finished [value] := by
  rw [run_postorder_nil]
  cases tree.eval a mode none <;> simp [push]

theorem eval_eq_error_iff (tree : Expr) (cause : Failure) :
    tree.eval a mode none = .error cause ↔ run a mode tree.postorder [] = failed cause := by
  rw [run_postorder_nil]
  cases tree.eval a mode none <;> simp [push]

/-- A run fails where its first failure is: those before have been carried out. -/
theorem run_eq_failed_iff (code : List Instruction) (stack : List α) (cause : Failure) :
    run a mode code stack = failed cause ↔
      ∃ before instruction behind operands, code = before ++ instruction :: behind ∧
        run a mode before stack = finished operands ∧
        step a mode instruction operands = failed cause := by
  constructor
  · intro h
    induction code generalizing stack with
    | nil => cases h
    | cons instruction code ih =>
      rw [run] at h
      cases hstep : step a mode instruction stack with
      | finished rest =>
        rw [hstep] at h
        obtain ⟨before, next, behind, operands, rfl, hrun, hnext⟩ := ih rest h
        refine ⟨instruction :: before, next, behind, operands, rfl, ?_, hnext⟩
        rw [run, hstep]
        exact hrun
      | failed first =>
        rw [hstep] at h
        obtain rfl : first = cause := by simpa [andThen] using h
        exact ⟨[], instruction, code, stack, rfl, rfl, hstep⟩
      | stuck => rw [hstep] at h; cases h
  · rintro ⟨before, instruction, behind, operands, rfl, hrun, hstep⟩
    rw [run_append, hrun]
    change (step a mode instruction operands).andThen _ = _
    rw [hstep]
    rfl

end Machine

/-! ### Parts of an expression -/

namespace Expr

/-- An expression is part of another one: the whole, or part of an operand. -/
inductive Occurs (part : Expr) : Expr → Prop
  | whole : Occurs part part
  | negate {operand : Expr} (h : Occurs part operand) : Occurs part (.negate operand)
  | percent {operand : Expr} (h : Occurs part operand) : Occurs part (.percent operand)
  | factorial {operand : Expr} (h : Occurs part operand) : Occurs part (.factorial operand)
  | apply {operand : Expr} (function : Elementary) (h : Occurs part operand) :
      Occurs part (.apply function operand)
  | left {left : Expr} (op : BinaryOp) (right : Expr) (h : Occurs part left) :
      Occurs part (.binary op left right)
  | right {right : Expr} (op : BinaryOp) (left : Expr) (h : Occurs part right) :
      Occurs part (.binary op left right)

/-- A part that fails makes the whole fail, though maybe not with its own
    failure. -/
theorem Occurs.eval_error {α : Type} {a : Arithmetic α} {mode : AngleMode} {part tree : Expr}
    (h : part.Occurs tree) {cause : Failure} (hpart : part.eval a mode none = .error cause) :
    ∃ first, tree.eval a mode none = .error first := by
  induction h with
  | whole => exact ⟨cause, hpart⟩
  | negate _ ih => exact ih.imp fun first h => by rw [eval_negate rfl, h]; rfl
  | percent _ ih => exact ih.imp fun first h => by rw [eval_percent rfl, h]; rfl
  | factorial _ ih => exact ih.imp fun first h => by rw [eval_factorial rfl, h]; rfl
  | apply function _ ih => exact ih.imp fun first h => by rw [eval_apply rfl, h]; rfl
  | left op right _ ih => exact ih.imp fun first h => by rw [eval_binary rfl, h]; rfl
  | right op left _ ih =>
    obtain ⟨second, h⟩ := ih
    rw [eval_binary rfl]
    -- The left operand may have failed before.
    cases left.eval a mode none with
    | error first => exact ⟨first, rfl⟩
    | ok x => exact ⟨second, by rw [h]; rfl⟩

end Expr

/-! ### Failures of the factorial -/

namespace Arithmetic

variable {α : Type} {a : Arithmetic α}

/-- The integers among the values are recognised. -/
def Recognises (a : Arithmetic α) (stands : α → Int → Prop) : Prop :=
  ∀ x z, a.integer? x = some z ↔ stands x z

theorem kind_of_checked {value? : Option α} {cause : Failure}
    (h : a.checked value? = .error cause) : cause.kind = .numeric := by
  cases value? with
  | none => cases h; rfl
  | some value =>
    simp only [checked] at h
    split at h
    · cases h
    · cases h; rfl

/-- A numeral fails for its size or for its length. -/
theorem kind_of_literal {numeral : Numeral} {cause : Failure}
    (h : a.literal numeral = .error cause) : cause.kind ≠ .domain := by
  cases hv : a.number numeral with
  | none =>
    rw [literal_of_none hv] at h
    cases h
    nofun
  | some value =>
    rw [literal_of_some hv] at h
    exact (kind_of_checked h).trans_ne nofun

theorem kind_of_applyIn {mode : AngleMode} {function : Elementary} {x : α} {cause : Failure}
    (h : a.applyIn mode function x = .error cause) : cause.kind = .numeric := by
  cases mode with
  | radians => exact kind_of_checked h
  | degrees =>
    simp only [applyIn] at h
    split at h
    · exact kind_of_checked h
    · split at h
      · cases hangle : a.checked (a.apply function x) with
        | error first =>
          rw [hangle] at h
          cases h
          exact kind_of_checked hangle
        | ok angle =>
          rw [hangle] at h
          have hdegrees : a.checked (some (a.toDegrees angle)) = .error cause := h
          exact kind_of_checked hdegrees
      · exact kind_of_checked h

/-- The factorial fails for all values but the integers from zero to its limit,
    and it has a kind of failures of its own. -/
theorem factorialOf_error_iff {stands : α → Int → Prop} (h : a.Recognises stands) (x : α) :
    (∃ cause, a.factorialOf x = .error cause ∧ cause.kind = .domain) ↔
      ¬∃ n : Nat, n ≤ factorialLimit ∧ stands x n := by
  have hstands : ∀ n : Nat, stands x n ↔ a.integer? x = some (n : Int) := fun n => (h x n).symm
  simp only [hstands, factorialOf]
  split
  · rename_i n hn
    rw [hn]
    split
    · rename_i hle
      constructor
      · rintro ⟨cause, hfail, -⟩
        cases hfail
      · intro hnone
        exact absurd ⟨n, hle, rfl⟩ hnone
    · rename_i hlt
      refine ⟨fun _ => ?_, fun _ => ⟨_, rfl, rfl⟩⟩
      rintro ⟨m, hm, heq⟩
      obtain rfl : n = m := by simpa using heq
      exact hlt hm
  · -- No integer, or a negative one.
    rename_i hneg
    refine ⟨fun _ => ?_, fun _ => ⟨_, rfl, rfl⟩⟩
    rintro ⟨n, -, hn⟩
    exact hneg n hn

end Arithmetic

namespace Machine

variable {α : Type} {a : Arithmetic α} {mode : AngleMode}

theorem push_eq_failed_iff {stack : List α} {value : Except Failure α} {cause : Failure} :
    Outcome.push stack value = .failed cause ↔ value = .error cause := by
  cases value <;> simp [Outcome.push]

/-- Other operations than the factorial have failures of other kinds. -/
theorem kind_of_step {instruction : Instruction} (hne : instruction ≠ .factorial)
    {stack : List α} {cause : Failure} (h : step a mode instruction stack = .failed cause) :
    cause.kind ≠ .domain := by
  cases instruction with
  | number numeral => exact Arithmetic.kind_of_literal (push_eq_failed_iff.1 h)
  | constant name => cases h
  | negate => cases stack <;> cases h
  | percent => cases stack <;> cases h
  | factorial => exact absurd rfl hne
  | apply function =>
    cases stack with
    | nil => cases h
    | cons x below => exact (Arithmetic.kind_of_applyIn (push_eq_failed_iff.1 h)).trans_ne nofun
  | binary op =>
    match stack, h with
    | [], h => cases h
    | [_], h => cases h
    | _ :: _ :: _, h => exact (Arithmetic.kind_of_checked (push_eq_failed_iff.1 h)).trans_ne nofun

/-- A failure of its kind is one of the factorial, and the factorial fails for
    all arguments but the integers from zero to its limit. -/
theorem step_domain_iff {stands : α → Int → Prop} (h : a.Recognises stands)
    (instruction : Instruction) (stack : List α) :
    (∃ cause, step a mode instruction stack = .failed cause ∧ cause.kind = .domain) ↔
      instruction = .factorial ∧ ∃ argument below, stack = argument :: below ∧
        ¬∃ n : Nat, n ≤ factorialLimit ∧ stands argument n := by
  constructor
  · rintro ⟨cause, hstep, hkind⟩
    by_cases hinstruction : instruction = .factorial
    · subst hinstruction
      cases stack with
      | nil => cases hstep
      | cons argument below =>
        have herror := (Arithmetic.factorialOf_error_iff h argument).1
          ⟨cause, push_eq_failed_iff.1 hstep, hkind⟩
        exact ⟨rfl, argument, below, rfl, herror⟩
    · exact absurd hkind (kind_of_step hinstruction hstep)
  · rintro ⟨rfl, argument, below, rfl, hargument⟩
    obtain ⟨cause, herror, hkind⟩ := (Arithmetic.factorialOf_error_iff h argument).2 hargument
    exact ⟨cause, push_eq_failed_iff.2 herror, hkind⟩

/-- The failures of the factorial in a run. -/
theorem run_domain_iff {stands : α → Int → Prop} (h : a.Recognises stands)
    (code : List Instruction) (stack : List α) :
    (∃ cause, run a mode code stack = .failed cause ∧ cause.kind = .domain) ↔
      ∃ before behind argument below, code = before ++ .factorial :: behind ∧
        run a mode before stack = .finished (argument :: below) ∧
        ¬∃ n : Nat, n ≤ factorialLimit ∧ stands argument n := by
  constructor
  · rintro ⟨cause, hrun, hkind⟩
    obtain ⟨before, instruction, behind, operands, rfl, hbefore, hstep⟩ :=
      (run_eq_failed_iff code stack cause).1 hrun
    obtain ⟨rfl, argument, below, rfl, hargument⟩ :=
      (step_domain_iff h instruction operands).1 ⟨cause, hstep, hkind⟩
    exact ⟨before, behind, argument, below, rfl, hbefore, hargument⟩
  · rintro ⟨before, behind, argument, below, rfl, hbefore, hargument⟩
    obtain ⟨cause, hstep, hkind⟩ : ∃ cause, step a mode .factorial (argument :: below) =
        .failed cause ∧ cause.kind = .domain :=
      (step_domain_iff h _ _).2 ⟨rfl, argument, below, rfl, hargument⟩
    exact ⟨cause, (run_eq_failed_iff _ _ _).2 ⟨before, _, behind, _, rfl, hbefore, hstep⟩, hkind⟩

end Machine

/-! ### The two arithmetics -/

namespace Binary64

/-- A double that is recognised as an integer is one. -/
theorem isInteger_of_integer? {x : Binary64} {z : Int} (h : x.integer? = some z) :
    x.IsInteger z := by
  cases x with
  | finite negative rank =>
    have hone : (unitsInOne : Int) ≠ 0 := by exact_mod_cast unitsInOne_pos.ne'
    have hunits : signed negative (magnitude rank) = z * unitsInOne := by
      rw [integer?] at h
      split at h
      · rename_i hmod
        rw [← Option.some.inj h]
        exact (Int.ediv_mul_cancel (Int.dvd_of_emod_eq_zero hmod)).symm
      · cases h
    have hmagnitude : magnitude rank = z.natAbs * unitsInOne := by
      rw [← natAbs_signed negative (magnitude rank), hunits, Int.natAbs_mul, Int.natAbs_natCast]
    refine ⟨negative, rank, rfl, hmagnitude, Int.eq_of_mul_eq_mul_right hone ?_⟩
    rw [← signed_mul_natCast, ← hmagnitude, hunits]
  | infinite negative => cases h
  | nan => cases h

theorem recognises_arithmetic : arithmetic.Recognises IsInteger :=
  fun _ _ => ⟨isInteger_of_integer?, IsInteger.integer?⟩

end Binary64

namespace Precision

/-- A dyadic number in lowest terms is an integer if it has no power of two to
    be divided by. -/
theorem integer?_ofOdd_iff {n k : Int} (hn : n % 2 = 1) (z : Int) :
    integer? (.ofOdd n k hn) = some z ↔ (Dyadic.ofOdd n k hn).toRat = (z : Rat) := by
  rw [integer?, Dyadic.toRat_ofOdd_eq_mul_two_pow]
  split
  · rename_i hk
    have hpower : (2 : Rat) ^ (-k) = ((2 ^ (-k).toNat : Int) : Rat) := by
      conv_lhs => rw [← Int.toNat_of_nonneg (show 0 ≤ -k by omega)]
      rw [zpow_natCast]
      norm_cast
    rw [hpower, Option.some_inj]
    exact_mod_cast Iff.rfl
  · rename_i hk
    refine ⟨nofun, fun h => ?_⟩
    -- Otherwise the numerator would be even.
    obtain ⟨m, rfl⟩ : ∃ m : Nat, k = m + 1 := ⟨(k - 1).toNat, by omega⟩
    have heven : n = z * 2 ^ m * 2 := by
      rw [zpow_neg, ← div_eq_mul_inv, div_eq_iff (two_zpow_pos _).ne', zpow_add_one₀ two_ne_zero,
        zpow_natCast, ← mul_assoc] at h
      exact_mod_cast h
    omega

theorem recognises_arithmetic (p : Precision) :
    p.arithmetic.Recognises fun x z => x.toRat = (z : Rat) := by
  intro x z
  cases x with
  | zero =>
    change some 0 = some z ↔ Dyadic.toRat 0 = (z : Rat)
    rw [Dyadic.toRat_zero, Option.some_inj]
    exact_mod_cast Iff.rfl
  | ofOdd n k hn => exact integer?_ofOdd_iff hn z

end Precision

theorem Backend.recognises_arithmetic (backend : Backend) :
    backend.arithmetic.Recognises backend.IsInteger := by
  cases backend with
  | double => exact Binary64.recognises_arithmetic
  | extended digits => exact Precision.recognises_arithmetic _

/-- An expression is evaluated as its operations run on a stack, operands from
    left to right before what is done with them. It has the value that the run
    leaves, or the failure of the first operation that fails. A part that
    fails makes the whole fail, and a failure is of the kind of the factorial
    if that operation is a factorial and its argument is no integer from zero
    to 170. -/
theorem Backend.carried_out_in_postorder (backend : Backend) (mode : AngleMode) (tree : Expr) :
    (∀ value, tree.eval backend.arithmetic mode none = .ok value ↔
      Machine.run backend.arithmetic mode tree.postorder [] = .finished [value]) ∧
    (∀ cause, tree.eval backend.arithmetic mode none = .error cause ↔
      Machine.run backend.arithmetic mode tree.postorder [] = .failed cause) ∧
    (∀ cause, tree.eval backend.arithmetic mode none = .error cause ↔
      ∃ before instruction behind operands, tree.postorder = before ++ instruction :: behind ∧
        Machine.run backend.arithmetic mode before [] = .finished operands ∧
        Machine.step backend.arithmetic mode instruction operands = .failed cause) ∧
    (∀ (part : Expr) (cause : Failure), part.Occurs tree →
      part.eval backend.arithmetic mode none = .error cause →
      ∃ first, tree.eval backend.arithmetic mode none = .error first) ∧
    ((∃ cause, tree.eval backend.arithmetic mode none = .error cause ∧ cause.kind = .domain) ↔
      ∃ before behind argument below, tree.postorder = before ++ .factorial :: behind ∧
        Machine.run backend.arithmetic mode before [] = .finished (argument :: below) ∧
        ¬∃ n : Nat, n ≤ 170 ∧ backend.IsInteger argument n) := by
  have herror : ∀ cause, tree.eval backend.arithmetic mode none = .error cause ↔
      Machine.run backend.arithmetic mode tree.postorder [] = .failed cause :=
    Machine.eval_eq_error_iff tree
  refine ⟨Machine.eval_eq_ok_iff tree, herror, fun cause => ?_,
    fun part cause hpart hfail => hpart.eval_error hfail, ?_⟩
  · rw [herror cause]
    exact Machine.run_eq_failed_iff _ _ _
  · simp only [herror]
    exact Machine.run_domain_iff backend.recognises_arithmetic _ _

/-- One divided by zero. -/
def Expr.overZero : Expr :=
  .binary .div (.number ⟨['1'], none⟩) (.number ⟨['0'], none⟩)

/-- The factorial of a half, and one divided by zero added to it. -/
def Expr.failingTwice : Expr :=
  .binary .add (.factorial (.number ⟨[], some ['5']⟩)) .overZero

theorem Expr.eval_overZero :
    overZero.eval (Precision.ofDigits 20).arithmetic .degrees none = .error .notFinite := by
  have hone : (number ⟨['1'], none⟩).eval (Precision.ofDigits 20).arithmetic .degrees none =
      .ok 1 := ok_of_toOption (by decide +kernel)
  have hzero : (number ⟨['0'], none⟩).eval (Precision.ofDigits 20).arithmetic .degrees none =
      .ok .zero := ok_of_toOption (by decide +kernel)
  rw [overZero, eval_binary rfl, hone, hzero]
  rfl

theorem Expr.eval_failingTwice :
    failingTwice.eval (Precision.ofDigits 20).arithmetic .degrees none =
      .error .factorialArgument := by
  have hhalf : (number ⟨[], some ['5']⟩).eval (Precision.ofDigits 20).arithmetic .degrees none =
      .ok (.ofOdd 1 1 rfl) := ok_of_toOption (by decide +kernel)
  rw [failingTwice, eval_binary rfl, eval_factorial rfl, hhalf]
  rfl

/-- The quotient fails, but the factorial of a half has failed before. -/
theorem Backend.carried_out_in_postorder_failingTwice :
    Expr.overZero.Occurs .failingTwice ∧
      Expr.overZero.eval (extended 20).arithmetic .degrees none = .error .notFinite ∧
      (∃ first, Expr.failingTwice.eval (extended 20).arithmetic .degrees none = .error first) ∧
      Machine.run (extended 20).arithmetic .degrees Expr.failingTwice.postorder [] =
        .failed .factorialArgument := by
  have hpart : Expr.overZero.Occurs .failingTwice := .right _ _ .whole
  have hall := carried_out_in_postorder (extended 20) .degrees .failingTwice
  exact ⟨hpart, Expr.eval_overZero, hall.2.2.2.1 _ _ hpart Expr.eval_overZero,
    (hall.2.1 _).1 Expr.eval_failingTwice⟩

end Calculator
