import Calculator.Proofs.Evaluation
import Calculator.Proofs.Precision.Digits
import Calculator.Proofs.Precision.Range

/-!
# Values stay finite

Only some operations are checked for a finite result. The others are closed
under the finite values of either arithmetic, and by induction on the
expression every value that is computed is finite. So is the double that it is
reported as, and the last check of an evaluation never fails: a formula that
is read and has a value has a result.

## Main definitions

* `Arithmetic.Closed`: The unchecked operations do not leave the finite values.

## Theorems

* `Expr.isFinite_of_eval`: The value of an expression is finite.
* `Binary64.closed_arithmetic`, `Precision.closed_arithmetic`: Both arithmetics
  are closed.
* `Backend.finite_throughout`: All of this, for the arithmetics that can be
  chosen.
-/

namespace Calculator

namespace Arithmetic

variable {α : Type}

/-- The operations of an arithmetic that are not checked do not leave the
    finite values, and finite values are reported as finite doubles. -/
structure Closed (a : Arithmetic α) : Prop where
  /-- The constants are finite. -/
  constant : ∀ name, a.isFinite (a.constant name) = true
  /-- The opposite of a finite value is finite. -/
  negate : ∀ value, a.isFinite value = true → a.isFinite (a.negate value) = true
  /-- The hundredth part of a finite value is finite. -/
  percent : ∀ value, a.isFinite value = true → a.isFinite (a.percent value) = true
  /-- The factorials that are not refused are finite. -/
  factorial : ∀ n, n ≤ factorialLimit → a.isFinite (a.factorial n) = true
  /-- A finite angle in degrees is finite in radians. -/
  toRadians : ∀ value, a.isFinite value = true → a.isFinite (a.toRadians value) = true
  /-- A finite value is reported as a finite double. -/
  report : ∀ value, a.isFinite value = true → (a.toBinary64 value).isFinite = true

variable {a : Arithmetic α} {value : α}

theorem isFinite_of_checked {value? : Option α} (h : a.checked value? = .ok value) :
    a.isFinite value = true := by
  cases value? with
  | none => cases h
  | some v =>
    simp only [checked] at h
    split at h
    · cases h
      assumption
    · cases h

theorem isFinite_of_literal {numeral : Numeral} (h : a.literal numeral = .ok value) :
    a.isFinite value = true := by
  cases hv : a.number numeral with
  | none =>
    rw [literal_of_none hv] at h
    cases h
  | some v =>
    rw [literal_of_some hv] at h
    exact isFinite_of_checked h

theorem isFinite_of_applyIn {mode : AngleMode} {function : Elementary} {x : α}
    (h : a.applyIn mode function x = .ok value) : a.isFinite value = true := by
  cases mode with
  | radians => exact isFinite_of_checked h
  | degrees =>
    simp only [applyIn] at h
    split at h
    · exact isFinite_of_checked h
    · split at h
      · rcases exists_of_bind_eq_ok h with ⟨angle, -, hangle⟩
        exact isFinite_of_checked hangle
      · exact isFinite_of_checked h

theorem isFinite_of_factorialOf (closed : a.Closed) {x : α} (h : a.factorialOf x = .ok value) :
    a.isFinite value = true := by
  simp only [factorialOf] at h
  split at h
  · split at h
    · cases h
      exact closed.factorial _ ‹_›
    · cases h
  · cases h

/-- A finite value has a result. -/
theorem result_eq (closed : a.Closed) (h : a.isFinite value = true) :
    a.result value = .ok (a.toBinary64 value) := by
  rw [result, if_pos (closed.report value h)]

end Arithmetic

variable {α : Type} {a : Arithmetic α}

/-- The value of an expression is finite. -/
theorem Expr.isFinite_of_eval (closed : a.Closed) {mode : AngleMode} {limit : NestingLimit}
    {tree : Expr} {value : α} (h : tree.eval a mode limit = .ok value) :
    a.isFinite value = true := by
  -- The induction is on the tree, and the limit shrinks on the way down.
  induction tree generalizing limit value with
  | number numeral =>
    rcases exists_inner h with ⟨inner, hi⟩
    rw [eval_number hi] at h
    exact Arithmetic.isFinite_of_literal h
  | constant name =>
    rcases exists_inner h with ⟨inner, hi⟩
    rw [eval_constant hi] at h
    cases h
    exact closed.constant name
  | negate operand ih =>
    rcases exists_inner h with ⟨inner, hi⟩
    rw [eval_negate hi] at h
    rcases exists_of_map_eq_ok h with ⟨x, hx, rfl⟩
    exact closed.negate x (ih hx)
  | percent operand ih =>
    rcases exists_inner h with ⟨inner, hi⟩
    rw [eval_percent hi] at h
    rcases exists_of_map_eq_ok h with ⟨x, hx, rfl⟩
    exact closed.percent x (ih hx)
  | factorial operand =>
    rcases exists_inner h with ⟨inner, hi⟩
    rw [eval_factorial hi] at h
    rcases exists_of_bind_eq_ok h with ⟨x, -, hvalue⟩
    exact Arithmetic.isFinite_of_factorialOf closed hvalue
  | apply function operand =>
    rcases exists_inner h with ⟨inner, hi⟩
    rw [eval_apply hi] at h
    rcases exists_of_bind_eq_ok h with ⟨x, -, hvalue⟩
    exact Arithmetic.isFinite_of_applyIn hvalue
  | binary op left right =>
    rcases exists_inner h with ⟨inner, hi⟩
    rw [eval_binary hi] at h
    rcases exists_of_bind_eq_ok h with ⟨x, -, hx⟩
    rcases exists_of_bind_eq_ok hx with ⟨y, -, hvalue⟩
    exact Arithmetic.isFinite_of_checked hvalue

/-- A formula that has been read is reported as the double of its value. -/
theorem Formula.evaluateOver_eq_map (closed : a.Closed) {mode : AngleMode} {limit : NestingLimit}
    {typed : List Char} {tree : Expr} (h : Formula.read limit typed = .ok tree) :
    Formula.evaluateOver a limit mode typed = (tree.eval a mode limit).map a.toBinary64 := by
  rw [evaluateOver_eq h]
  cases hv : tree.eval a mode limit with
  | error failure => rfl
  | ok value => exact Arithmetic.result_eq closed (Expr.isFinite_of_eval closed hv)

/-! ### Doubles -/

namespace Binary64

theorem isFinite_neg {x : Binary64} (h : x.isFinite = true) : (-x).isFinite = true := by
  cases x with
  | finite negative rank => rfl
  | infinite negative => cases h
  | nan => cases h

/-- The product with a double of magnitude at most one. -/
theorem isFinite_mul {x : Binary64} (h : x.isFinite = true) {t : Bool} {q : Fin finiteCount}
    (hq : magnitude q ≤ unitsInOne) : (x * finite t q).isFinite = true := by
  cases x with
  | finite s r =>
    rw [finite_mul_finite]
    have hone := unitsInOne_pos
    generalize unitsInOne = one at *
    refine isFinite_nearest hone r.isLt ?_ _
    rw [div_le_iff₀ (by exact_mod_cast hone)]
    exact_mod_cast Nat.mul_le_mul_left (magnitude r) hq
  | infinite negative => cases h
  | nan => cases h

/-- The quotient by a double of magnitude at least one. -/
theorem isFinite_div {x : Binary64} (h : x.isFinite = true) {t : Bool} {q : Fin finiteCount}
    (hq : unitsInOne ≤ magnitude q) : (x / finite t q).isFinite = true := by
  have hone := unitsInOne_pos
  cases x with
  | finite s r =>
    have hne : q.val ≠ 0 := by
      intro h
      rw [h, magnitude_zero] at hq
      omega
    change (Binary64.div (finite s r) (finite t q)).isFinite = true
    rw [Binary64.div, if_neg hne]
    generalize unitsInOne = one at *
    refine isFinite_nearest (hone.trans_le hq) r.isLt ?_ _
    rw [div_le_iff₀ (by exact_mod_cast hone.trans_le hq)]
    exact_mod_cast Nat.mul_le_mul_left (magnitude r) hq
  | infinite negative => cases h
  | nan => cases h

theorem exists_hundred :
    ∃ q : Fin finiteCount, ofInt 100 = finite false q ∧ unitsInOne ≤ magnitude q :=
  ⟨⟨4636737291354636288, by decide⟩, by decide +kernel⟩

/-- A degree is at most one radian. -/
theorem exists_degree :
    ∃ q : Fin finiteCount, pi / straight = finite false q ∧ magnitude q ≤ unitsInOne :=
  ⟨⟨4580687790476533049, by decide⟩, by decide +kernel⟩

theorem isFinite_factorial {n : Nat} (hn : n ≤ factorialLimit) :
    (ofInt (factorialOf n)).isFinite = true := by
  have hlast : factorialOf factorialLimit * unitsInOne ≤ magnitude (finiteCount - 1) := by
    decide +kernel
  refine isFinite_nearest one_pos (Nat.sub_lt (by decide) one_pos) ?_ _
  rw [Nat.cast_one, div_one, Int.natAbs_natCast]
  exact_mod_cast (Nat.mul_le_mul_right _ (Precision.factorialOf_mono hn)).trans hlast

theorem closed_arithmetic : arithmetic.Closed where
  constant name := by cases name <;> decide +kernel
  negate _ h := isFinite_neg h
  percent x h := by
    rcases exists_hundred with ⟨q, hq, hle⟩
    change (x / ofInt 100).isFinite = true
    rw [hq]
    exact isFinite_div h hle
  factorial n hn := by
    simp only [arithmetic]
    exact isFinite_factorial hn
  toRadians x h := by
    rcases exists_degree with ⟨q, hq, hle⟩
    change (x * (pi / straight)).isFinite = true
    rw [hq]
    exact isFinite_mul h hle
  report _ h := h

end Binary64

/-! ### Numbers of a chosen precision -/

theorem Precision.closed_arithmetic {p : Precision} (hbits : 53 ≤ p.bits) :
    p.arithmetic.Closed where
  constant name := inRange_constant hbits name
  negate _ h := inRange_neg h
  percent _ h := inRange_divideBy hbits (by decide) h
  factorial _ hn := inRange_factorial hbits hn
  toRadians _ h := inRange_toRadians hbits h
  report _ h := isFinite_toBinary64 h

/-- In both arithmetics every value of an expression is finite, in radians too
    if it is an angle in degrees, and it has a result; so a formula that has
    been read has no other failures than its expression. -/
theorem Backend.finite_throughout (mode : AngleMode) (limit : NestingLimit) (tree : Expr) :
    (∀ value : Binary64, tree.eval Binary64.arithmetic mode limit = .ok value →
      value.isFinite = true ∧ (Binary64.arithmetic.toRadians value).isFinite = true ∧
        Binary64.arithmetic.result value = .ok value) ∧
    (∀ (digits : Int) (value : Dyadic),
      tree.eval (Precision.ofDigits digits).arithmetic mode limit = .ok value →
      |value.toRat| ≤ (Precision.ofBinary64 (Binary64.largest false)).toRat ∧
        Precision.inRange value = true ∧
        Precision.inRange ((Precision.ofDigits digits).arithmetic.toRadians value) = true ∧
        (Precision.toBinary64 value).isFinite = true ∧
        (Precision.ofDigits digits).arithmetic.result value = .ok (Precision.toBinary64 value)) ∧
    ∀ typed, Formula.read limit typed = .ok tree →
      Backend.double.evaluateWithin limit mode typed =
          tree.eval Binary64.arithmetic mode limit ∧
        ∀ digits, (Backend.extended digits).evaluateWithin limit mode typed =
          (tree.eval (Precision.ofDigits digits).arithmetic mode limit).map
            Precision.toBinary64 := by
  have hdouble := Binary64.closed_arithmetic
  have hextended : ∀ digits, (Precision.ofDigits digits).arithmetic.Closed := fun digits =>
    Precision.closed_arithmetic (by have := Precision.lt_bits_ofDigits digits; omega)
  refine ⟨fun value h => ?_, fun digits value h => ?_, fun typed hread => ⟨?_, fun digits => ?_⟩⟩
  · have hfinite := Expr.isFinite_of_eval hdouble h
    exact ⟨hfinite, hdouble.toRadians value hfinite, Arithmetic.result_eq hdouble hfinite⟩
  · have hfinite := Expr.isFinite_of_eval (hextended digits) h
    refine ⟨?_, hfinite, (hextended digits).toRadians value hfinite,
      (hextended digits).report value hfinite, Arithmetic.result_eq (hextended digits) hfinite⟩
    rw [Precision.toRat_largest]
    exact (Precision.inRange_iff value).1 hfinite
  · calc Backend.double.evaluateWithin limit mode typed
        = (tree.eval Binary64.arithmetic mode limit).map id :=
          Formula.evaluateOver_eq_map hdouble hread
      _ = tree.eval Binary64.arithmetic mode limit := congrFun Except.map_id _
  · exact Formula.evaluateOver_eq_map (hextended digits) hread

theorem Backend.finite_throughout_minus_e :
    (∃ value, (Expr.negate (.constant .e)).eval Binary64.arithmetic .degrees
        NestingLimit.standard = .ok value ∧ value.isFinite = true) ∧
      (∃ value, (Expr.negate (.constant .e)).eval (Precision.ofDigits 20).arithmetic .degrees
        NestingLimit.standard = .ok value ∧ (Precision.toBinary64 value).isFinite = true) ∧
      Formula.read NestingLimit.standard ['-', 'e'] = .ok (.negate (.constant .e)) ∧
      ∃ value, Backend.double.evaluate .degrees ['-', 'e'] = .ok value := by
  have hall := finite_throughout .degrees NestingLimit.standard (.negate (.constant .e))
  have hread : Formula.read NestingLimit.standard ['-', 'e'] = .ok (.negate (.constant .e)) :=
    ok_of_toOption (by decide +kernel)
  have heval : ∀ {α : Type} (a : Arithmetic α), (Expr.negate (.constant .e)).eval a .degrees
      NestingLimit.standard = .ok (a.negate (a.constant .e)) := fun a => by
    rw [Expr.eval_negate rfl, Expr.eval_constant rfl, Except.map]
  exact ⟨⟨_, heval _, (hall.1 _ (heval _)).1⟩, ⟨_, heval _, (hall.2.1 20 _ (heval _)).2.2.2.1⟩,
    hread, _, (hall.2.2 _ hread).1.trans (heval _)⟩

end Calculator
