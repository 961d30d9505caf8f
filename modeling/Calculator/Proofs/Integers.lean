import Calculator.Proofs.Precision.Edge
import Calculator.Proofs.Precision.Integer
import Calculator.Proofs.Precision.Numeral

/-!
# Integers are calculated exactly

An expression of integers, with sums, differences, products, opposites and
quotients without a remainder, is calculated by both arithmetics as it is by
integers, as long as nothing on the way is larger than two to the 53. This
holds of an arithmetic if it holds of its operations. Where integers are
divided by zero, both arithmetics fail.

Numerals may start with any number of zeros, which matters where long numerals
are read in another way than short ones. At more than 4300 digits there are
numerals that are not read at all, however small their numbers are. The first
of them that evaluation comes to is what it fails for.

## Main definitions

* `Expr.IntegerOutcome`, `Expr.inIntegers?`: What integers make of an
  expression.
* `Expr.reached`: The numerals that evaluation comes to.
* `Backend.tooLong?`: The first of them that is not read.
* `Arithmetic.Exact`: The operations on integers are exact.

## Theorems

* `Expr.eval_of_inIntegers`: The expression is calculated as by integers.
* `Binary64.exact_arithmetic`, `Precision.exact_arithmetic`: Both arithmetics
  are exact.
* `Backend.exact_on_integers`: All of this, for the arithmetics that can be
  chosen.
* `Backend.inexact_on_seven`: A numeral that is not read.
-/

namespace Calculator

namespace Expr

/-- What integers make of an expression. -/
inductive IntegerOutcome
  /-- It has an integer as its value. -/
  | integer (value : Int)
  /-- A division by zero is the first thing that goes wrong. -/
  | zeroDivision
deriving DecidableEq, Repr

namespace IntegerOutcome

/-- An integer, up to the bound. -/
def within? (value : Int) : Option IntegerOutcome :=
  if value.natAbs ≤ exactBound then some (integer value) else none

/-- The opposite of an integer. -/
def negate : IntegerOutcome → IntegerOutcome
  | integer value => integer (-value)
  | zeroDivision => zeroDivision

/-- An operation between integers. A division that leaves a remainder is none,
    nor is a power. -/
def binary? (op : BinaryOp) (x y : Int) : Option IntegerOutcome :=
  match op with
  | .add => within? (x + y)
  | .sub => within? (x - y)
  | .mul => within? (x * y)
  | .div => if y = 0 then some zeroDivision else if y ∣ x then within? (x / y) else none
  | .pow => none

end IntegerOutcome

/-- What integers make of an expression, if numerals have no point and nothing
    that is calculated before a division by zero is beyond the bound. -/
def inIntegers? : Expr → Option IntegerOutcome
  | number ⟨digits, none⟩ => IntegerOutcome.within? (Text.naturalValue digits)
  | negate operand => operand.inIntegers?.map IntegerOutcome.negate
  | binary op left right =>
    match left.inIntegers? with
    | some (.integer x) =>
      match right.inIntegers? with
      | some (.integer y) => IntegerOutcome.binary? op x y
      | other => other
    | other => other
  | _ => none

/-- The numerals that evaluation comes to, in this order: all of them, or those
    in front of a division by zero. -/
def reached : Expr → List Numeral
  | number numeral => [numeral]
  | negate operand => operand.reached
  | binary _ left right =>
    if left.inIntegers? = some .zeroDivision then left.reached else left.reached ++ right.reached
  | _ => []

/-- Zeros in front make no other integer. -/
theorem inIntegers?_padded {value : Nat} (h : value ≤ exactBound) (zeros : Nat) :
    (number (.padded zeros value)).inIntegers? = some (.integer value) := by
  rw [Numeral.padded, inIntegers?, Text.naturalValue_replicate_toDigits]
  exact if_pos h

end Expr

namespace Arithmetic

variable {α : Type}

/-- Values stand for integers, and the operations on those up to the bound are
    exact. A numeral need not be read. -/
structure Exact (a : Arithmetic α) (stands : α → Int → Prop) : Prop where
  /-- Numerals without a point that are read are read exactly. -/
  number : ∀ {digits : List Char} {value : α}, Text.naturalValue digits ≤ exactBound →
    a.number ⟨digits, none⟩ = some value → stands value (Text.naturalValue digits)
  /-- Integers up to the bound are finite. -/
  isFinite : ∀ {x : α} {m : Int}, stands x m → m.natAbs ≤ exactBound → a.isFinite x = true
  /-- Opposites are exact. -/
  negate : ∀ {x : α} {m : Int}, stands x m → stands (a.negate x) (-m)
  /-- Sums are exact. -/
  add : ∀ {x y : α} {m n : Int}, stands x m → stands y n → m.natAbs ≤ exactBound →
    n.natAbs ≤ exactBound → (m + n).natAbs ≤ exactBound →
    ∃ value, a.binary .add x y = some value ∧ stands value (m + n)
  /-- Differences are exact. -/
  sub : ∀ {x y : α} {m n : Int}, stands x m → stands y n → m.natAbs ≤ exactBound →
    n.natAbs ≤ exactBound → (m - n).natAbs ≤ exactBound →
    ∃ value, a.binary .sub x y = some value ∧ stands value (m - n)
  /-- Products are exact. -/
  mul : ∀ {x y : α} {m n : Int}, stands x m → stands y n → (m * n).natAbs ≤ exactBound →
    ∃ value, a.binary .mul x y = some value ∧ stands value (m * n)
  /-- Quotients without a remainder are exact. -/
  div : ∀ {x y : α} {m n : Int}, stands x (m * n) → stands y n → n ≠ 0 →
    m.natAbs ≤ exactBound → ∃ value, a.binary .div x y = some value ∧ stands value m
  /-- There are no quotients by zero. -/
  zero : ∀ {x y : α}, stands y 0 → a.binary .div x y = none

/-- The first numeral of an expression that evaluation comes to and does not
    read. -/
def unread? (a : Arithmetic α) (tree : Expr) : Option Numeral :=
  tree.reached.find? fun numeral => (a.number numeral).isNone

theorem unread?_binary (a : Arithmetic α) (op : BinaryOp) (left right : Expr) :
    a.unread? (.binary op left right) =
      (a.unread? left).or
        (if left.inIntegers? = some .zeroDivision then none else a.unread? right) := by
  rw [unread?, Expr.reached]
  split
  · exact (Option.or_none).symm
  · exact List.find?_append

end Arithmetic

section

variable {α : Type} {a : Arithmetic α} {stands : α → Int → Prop}

open Calculator.Expr (IntegerOutcome)

theorem Expr.IntegerOutcome.within?_eq_some {value : Int} {outcome : IntegerOutcome}
    (h : within? value = some outcome) :
    outcome = integer value ∧ value.natAbs ≤ exactBound := by
  unfold within? at h
  split at h
  · exact ⟨(Option.some.inj h).symm, ‹_›⟩
  · cases h

/-- How an expression turns out, given the first numeral that is not read, if
    there is one: with the failure of that numeral, or else as by integers. -/
inductive Arithmetic.TurnsOut (a : Arithmetic α) (stands : α → Int → Prop) :
    Option Numeral → IntegerOutcome → Except Failure α → Prop
  /-- It has the value. -/
  | value {value : α} {z : Int} (stand : stands value z) (bound : z.natAbs ≤ exactBound) :
    TurnsOut a stands none (.integer z) (.ok value)
  /-- There is a division by zero. -/
  | zeroDivision : TurnsOut a stands none .zeroDivision (.error .notFinite)
  /-- There is a numeral that is not read. -/
  | tooManyDigits (numeral : Numeral) (outcome : IntegerOutcome) :
    TurnsOut a stands (some numeral) outcome (.error (.tooManyDigits numeral))

namespace Arithmetic.TurnsOut

variable {x y : α} {m n : Int} {outcome : IntegerOutcome} {result : Except Failure α}
  {unread? : Option Numeral}

theorem negate (exact : a.Exact stands) (h : TurnsOut a stands unread? outcome result) :
    TurnsOut a stands unread? outcome.negate (result.map a.negate) := by
  cases h with
  | value hstands hbound => exact .value (exact.negate hstands) (by rwa [Int.natAbs_neg])
  | zeroDivision => exact .zeroDivision
  | tooManyDigits numeral outcome => exact .tooManyDigits numeral _

/-- What follows a value follows it, and what fails goes on failing. -/
theorem bind {further? : Option Numeral} {f : α → Except Failure α} {next : IntegerOutcome}
    (h : TurnsOut a stands unread? outcome result)
    (hvalue : ∀ {value : α} {z : Int}, outcome = .integer z → stands value z →
      z.natAbs ≤ exactBound → TurnsOut a stands further? next (f value))
    (hzero : outcome = .zeroDivision → next = .zeroDivision ∧ further? = none) :
    TurnsOut a stands (unread?.or further?) next (result >>= f) := by
  cases h with
  | value hstands hbound => exact hvalue rfl hstands hbound
  | zeroDivision =>
    obtain ⟨rfl, rfl⟩ := hzero rfl
    exact .zeroDivision
  | tooManyDigits numeral outcome => exact .tooManyDigits numeral _

/-- An operation between values that stand for integers. -/
theorem binary (exact : a.Exact stands) (hx : stands x m) (hm : m.natAbs ≤ exactBound)
    (hy : stands y n) (hn : n.natAbs ≤ exactBound) {op : BinaryOp}
    (h : IntegerOutcome.binary? op m n = some outcome) :
    TurnsOut a stands none outcome (a.checked (a.binary op x y)) := by
  -- A value that stands for an integer up to the bound passes the check.
  have hvalue : ∀ {z : Int}, (∃ value, a.binary op x y = some value ∧ stands value z) →
      IntegerOutcome.within? z = some outcome →
      TurnsOut a stands none outcome (a.checked (a.binary op x y)) := by
    rintro z ⟨value, hresult, hstands⟩ hwithin
    obtain ⟨rfl, hbound⟩ := IntegerOutcome.within?_eq_some hwithin
    rw [hresult, checked, if_pos (exact.isFinite hstands hbound)]
    exact .value hstands hbound
  cases op with
  | add => exact hvalue (exact.add hx hy hm hn (IntegerOutcome.within?_eq_some h).2) h
  | sub => exact hvalue (exact.sub hx hy hm hn (IntegerOutcome.within?_eq_some h).2) h
  | mul => exact hvalue (exact.mul hx hy (IntegerOutcome.within?_eq_some h).2) h
  | div =>
    simp only [IntegerOutcome.binary?] at h
    split at h
    · rename_i hzero
      subst hzero
      obtain rfl := Option.some.inj h
      rw [exact.zero hy]
      exact .zeroDivision
    · rename_i hzero
      split at h
      · rename_i hdvd
        have hproduct : stands x (m / n * n) := by rwa [Int.ediv_mul_cancel hdvd]
        exact hvalue (exact.div hproduct hy hzero (IntegerOutcome.within?_eq_some h).2) h
      · cases h
  | pow => cases h

/-- A numeral up to the bound. -/
theorem number (exact : a.Exact stands) {digits : List Char}
    (hbound : (Text.naturalValue digits : Int).natAbs ≤ exactBound) :
    TurnsOut a stands (a.unread? (.number ⟨digits, none⟩)) (.integer (Text.naturalValue digits))
      (a.literal ⟨digits, none⟩) := by
  cases hnumber : a.number ⟨digits, none⟩ with
  | none =>
    have hunread : a.unread? (.number ⟨digits, none⟩) = some ⟨digits, none⟩ := by
      simp [Arithmetic.unread?, Expr.reached, hnumber]
    rw [hunread, literal_of_none hnumber]
    exact .tooManyDigits _ _
  | some value =>
    have hread : a.unread? (.number ⟨digits, none⟩) = none := by
      simp [Arithmetic.unread?, Expr.reached, hnumber]
    have hstands := exact.number (by simpa using hbound) hnumber
    rw [hread, literal_of_some hnumber, checked, if_pos (exact.isFinite hstands hbound)]
    exact .value hstands hbound

end Arithmetic.TurnsOut

/-- An expression of integers is calculated as by integers, unless a numeral is
    not read. -/
theorem Expr.eval_of_inIntegers (exact : a.Exact stands) (mode : AngleMode) {tree : Expr}
    {outcome : IntegerOutcome} (h : tree.inIntegers? = some outcome) :
    a.TurnsOut stands (a.unread? tree) outcome (tree.eval a mode none) := by
  induction tree generalizing outcome with
  | number numeral =>
    obtain ⟨digits, fraction⟩ := numeral
    cases fraction with
    | some fraction => cases h
    | none =>
      obtain ⟨rfl, hbound⟩ := IntegerOutcome.within?_eq_some h
      rw [eval_number rfl]
      exact .number exact hbound
  | negate operand ih =>
    obtain ⟨inner, hinner, rfl⟩ := Option.map_eq_some_iff.1 h
    rw [eval_negate rfl]
    exact (ih hinner).negate exact
  | binary op left right ihl ihr =>
    rw [eval_binary rfl, Arithmetic.unread?_binary]
    rw [inIntegers?] at h
    cases hleft : left.inIntegers? with
    | none =>
      rw [hleft] at h
      cases h
    | some lo =>
      rw [hleft] at h
      refine (ihl hleft).bind (fun {x _} hlo hx hm => ?_) ?_
      · subst hlo
        rw [if_neg (by simp)]
        cases hright : right.inIntegers? with
        | none =>
          rw [hright] at h
          cases h
        | some ro =>
          rw [hright] at h
          have hlast : a.TurnsOut stands ((a.unread? right).or none) outcome
              (right.eval a mode none >>= fun y => a.checked (a.binary op x y)) := by
            refine (ihr hright).bind (fun hro hy hn => ?_) ?_
            · subst hro
              exact .binary exact hx hm hy hn h
            · rintro rfl
              exact ⟨(Option.some.inj h).symm, rfl⟩
          rwa [Option.or_none] at hlast
      · rintro rfl
        exact ⟨(Option.some.inj h).symm, if_pos rfl⟩
  | _ => cases h

/-- An expression with an integer as its value, if its numerals are read. -/
theorem Expr.eval_of_integer (exact : a.Exact stands) (mode : AngleMode) {tree : Expr} {z : Int}
    (hread : a.unread? tree = none) (h : tree.inIntegers? = some (.integer z)) :
    ∃ value, tree.eval a mode none = .ok value ∧ stands value z ∧ z.natAbs ≤ exactBound := by
  have hturns := eval_of_inIntegers exact mode h
  rw [hread] at hturns
  generalize tree.eval a mode none = result at hturns ⊢
  cases hturns with
  | value hstands hbound => exact ⟨_, rfl, hstands, hbound⟩

/-- An expression with a division by zero, if the numerals before it are read. -/
theorem Expr.eval_of_zeroDivision (exact : a.Exact stands) (mode : AngleMode) {tree : Expr}
    (hread : a.unread? tree = none) (h : tree.inIntegers? = some .zeroDivision) :
    tree.eval a mode none = .error .notFinite := by
  have hturns := eval_of_inIntegers exact mode h
  rw [hread] at hturns
  generalize tree.eval a mode none = result at hturns ⊢
  cases hturns with
  | zeroDivision => rfl

/-- An expression with a numeral that is not read. -/
theorem Expr.eval_of_unread (exact : a.Exact stands) (mode : AngleMode) {tree : Expr}
    {numeral : Numeral} {outcome : IntegerOutcome} (hunread : a.unread? tree = some numeral)
    (h : tree.inIntegers? = some outcome) :
    tree.eval a mode none = .error (.tooManyDigits numeral) := by
  have hturns := eval_of_inIntegers exact mode h
  rw [hunread] at hturns
  generalize tree.eval a mode none = result at hturns ⊢
  cases hturns with
  | tooManyDigits => rfl

end

/-! ### Both arithmetics -/

namespace Binary64

theorem IsInteger.units_eq_zero_iff {y : Binary64} {n : Int} (h : IsInteger y n) :
    y.units = 0 ↔ n = 0 := by
  have hone : (unitsInOne : Int) ≠ 0 := by exact_mod_cast unitsInOne_pos.ne'
  rw [h.units, Int.mul_eq_zero, or_iff_left hone]

theorem exact_arithmetic : arithmetic.Exact IsInteger where
  number {digits value} h hvalue := by
    rw [Formula.arithmetic_number] at hvalue
    obtain rfl := Option.some.inj hvalue
    exact isInteger_ofNumeral h
  isFinite h _ := h.isFinite
  negate h := isInteger_neg h
  add hx hy _ _ h := ⟨_, rfl, isInteger_add hx hy h⟩
  sub hx hy _ _ h := ⟨_, rfl, isInteger_sub hx hy h⟩
  mul hx hy h := ⟨_, rfl, isInteger_mul hx hy h⟩
  div {x y m n} hx hy hn h := by
    refine ⟨x / y, ?_, isInteger_div hx hy hn h⟩
    change quotient? x y = some (x / y)
    rw [quotient?, if_neg (mt hy.units_eq_zero_iff.1 hn)]
  zero {x y} hy := by
    change quotient? x y = none
    rw [quotient?, if_pos (hy.units_eq_zero_iff.2 rfl)]

/-- All numerals are read as doubles. -/
theorem unread?_arithmetic (tree : Expr) : arithmetic.unread? tree = none := by
  rw [Arithmetic.unread?, List.find?_eq_none]
  intro numeral _
  simp [Formula.arithmetic_number]

end Binary64

namespace Precision

variable {p : Precision}

theorem exact_arithmetic (hbits : 54 ≤ p.bits) :
    p.arithmetic.Exact fun x m => x.toRat = (m : Rat) where
  number {digits value} h hvalue := by
    by_cases hreads : p.reads ⟨digits, none⟩ = true
    · rw [number_of_reads hreads] at hvalue
      obtain rfl := Option.some.inj hvalue
      exact toRat_ofNumeral hbits h
    · rw [number_of_not_reads hreads] at hvalue
      cases hvalue
  isFinite h hm := inRange_of_integer h hm
  negate h := toRat_neg h
  add hx hy hm hn h := ⟨_, rfl, toRat_sum hbits hx hm hy hn h⟩
  sub hx hy hm hn h :=
    ⟨_, rfl, toRat_sum hbits hx hm (toRat_neg hy) (by rwa [Int.natAbs_neg]) h⟩
  mul hx hy h := ⟨_, rfl, toRat_product hbits hx hy h⟩
  div hx hy hn h := toRat_quotient hbits hx hy hn h
  zero {x y} hy := by
    obtain rfl : y = .zero := Dyadic.toRat_inj.1 (by simpa using hy)
    cases x <;> rfl

end Precision

namespace Backend

/-- The first numeral that evaluation comes to and does not read. -/
def tooLong? (backend : Backend) (tree : Expr) : Option Numeral :=
  match backend with
  | double => none
  | extended digits => tree.reached.find? fun numeral => numeral.TooLong digits

theorem tooLong?_extended (digits : Int) (tree : Expr) :
    (extended digits).tooLong? tree = (Precision.ofDigits digits).arithmetic.unread? tree := by
  rw [tooLong?, Arithmetic.unread?]
  congr
  funext numeral
  by_cases h : numeral.TooLong digits
  · rw [Precision.number_of_tooLong h, decide_eq_true h]
    rfl
  · rw [Precision.number_of_not_tooLong h, decide_eq_false h]
    rfl

/-- Only where there are many digits. -/
theorem lt_digits_of_tooLong? {digits : Int} {tree : Expr} {numeral : Numeral}
    (h : (extended digits).tooLong? tree = some numeral) :
    numeral ∈ tree.reached ∧ numeral.TooLong digits ∧ 4300 < digits := by
  rw [tooLong?] at h
  have htooLong : numeral.TooLong digits := by simpa using List.find?_some h
  exact ⟨List.mem_of_find?_eq_some h, htooLong, htooLong.lt_digits⟩

/-- A numeral alone is the first one. -/
theorem tooLong?_number {digits : Int} {numeral : Numeral} (h : numeral.TooLong digits) :
    (extended digits).tooLong? (.number numeral) = some numeral := by
  rw [tooLong?, Expr.reached]
  exact List.find?_cons_of_pos (decide_eq_true h)

section

variable {tree : Expr} {typed : List Char} (hread : Formula.read none typed = .ok tree)
  (mode : AngleMode)

include hread

theorem double_evaluateWithin_of_read :
    double.evaluateWithin none mode typed = tree.eval Binary64.arithmetic mode none := by
  have hreport : Binary64.arithmetic.toBinary64 = id := by simp only [Binary64.arithmetic]
  rw [evaluateWithin, Formula.evaluateOver_eq_map Binary64.closed_arithmetic hread, hreport]
  exact congrFun Except.map_id _

theorem extended_evaluateWithin_of_read (digits : Int) :
    (extended digits).evaluateWithin none mode typed =
      (tree.eval (Precision.ofDigits digits).arithmetic mode none).map Precision.toBinary64 :=
  Formula.evaluateOver_eq_map
    (Precision.closed_arithmetic ((by decide : 53 ≤ 54).trans (Precision.lt_bits_ofDigits digits)))
    hread

end

/-- An expression of integers up to two to the 53 is calculated by both
    arithmetics as by integers, and reported so, if its numerals are read. If
    integers are divided by zero before anything else goes wrong, that is the
    failure. Numerals that are not read have to be reached before that, they
    have more than 4300 digits, and so has the precision; the first of them is
    then the failure. -/
theorem exact_on_integers (mode : AngleMode) (tree : Expr) :
    (∀ z : Int, tree.inIntegers? = some (.integer z) →
      (∃ x, tree.eval Binary64.arithmetic mode none = .ok x ∧ x.integer? = some z) ∧
      (∀ digits : Int, (extended digits).tooLong? tree = none →
        ∃ x, tree.eval (Precision.ofDigits digits).arithmetic mode none = .ok x ∧ x.toRat = z ∧
          (Precision.toBinary64 x).integer? = some z) ∧
      ∀ typed, Formula.read none typed = .ok tree →
        ∀ backend : Backend, backend.tooLong? tree = none →
          ∃ x, backend.evaluateWithin none mode typed = .ok x ∧ x.integer? = some z) ∧
    (tree.inIntegers? = some .zeroDivision →
      tree.eval Binary64.arithmetic mode none = .error .notFinite ∧
      (∀ digits : Int, (extended digits).tooLong? tree = none →
        tree.eval (Precision.ofDigits digits).arithmetic mode none = .error .notFinite) ∧
      (∀ typed, Formula.read none typed = .ok tree →
        ∀ backend : Backend, backend.tooLong? tree = none →
          backend.evaluateWithin none mode typed = .error .notFinite) ∧
      Failure.notFinite.kind = .numeric) ∧
    ∀ (outcome : Expr.IntegerOutcome) (digits : Int) (numeral : Numeral),
      tree.inIntegers? = some outcome → (extended digits).tooLong? tree = some numeral →
      tree.eval (Precision.ofDigits digits).arithmetic mode none =
          .error (.tooManyDigits numeral) ∧
        (∀ typed, Formula.read none typed = .ok tree →
          (extended digits).evaluateWithin none mode typed = .error (.tooManyDigits numeral)) ∧
        numeral ∈ tree.reached ∧ numeral.TooLong digits ∧ 4300 < digits := by
  have hdouble := Binary64.exact_arithmetic
  have hextended := fun digits => Precision.exact_arithmetic (Precision.lt_bits_ofDigits digits)
  refine ⟨fun z h => ?_, fun h => ?_, fun outcome digits numeral h htooLong => ?_⟩
  · have hleft := Expr.eval_of_integer hdouble mode (Binary64.unread?_arithmetic tree) h
    have hright := fun digits (hread : (extended digits).tooLong? tree = none) =>
      Expr.eval_of_integer (hextended digits) mode (tooLong?_extended digits tree ▸ hread) h
    refine ⟨?_, fun digits hread => ?_, fun typed htyped backend hread => ?_⟩
    · obtain ⟨x, heval, hx, -⟩ := hleft
      exact ⟨x, heval, hx.integer?⟩
    · obtain ⟨x, heval, hx, hbound⟩ := hright digits hread
      exact ⟨x, heval, hx, (Precision.isInteger_toBinary64 hx hbound).integer?⟩
    · cases backend with
      | double =>
        obtain ⟨x, heval, hx, -⟩ := hleft
        exact ⟨x, by rw [double_evaluateWithin_of_read htyped, heval], hx.integer?⟩
      | extended digits =>
        obtain ⟨x, heval, hx, hbound⟩ := hright digits hread
        refine ⟨_, ?_, (Precision.isInteger_toBinary64 hx hbound).integer?⟩
        rw [extended_evaluateWithin_of_read htyped, heval]
        rfl
  · have hleft := Expr.eval_of_zeroDivision hdouble mode (Binary64.unread?_arithmetic tree) h
    have hright := fun digits (hread : (extended digits).tooLong? tree = none) =>
      Expr.eval_of_zeroDivision (hextended digits) mode (tooLong?_extended digits tree ▸ hread) h
    refine ⟨hleft, hright, fun typed htyped backend hread => ?_, rfl⟩
    cases backend with
    | double => rw [double_evaluateWithin_of_read htyped, hleft]
    | extended digits =>
      rw [extended_evaluateWithin_of_read htyped, hright digits hread]
      rfl
  · have hright := Expr.eval_of_unread (hextended digits) mode
      (tooLong?_extended digits tree ▸ htooLong) h
    refine ⟨hright, fun typed htyped => ?_, lt_digits_of_tooLong? htooLong⟩
    rw [extended_evaluateWithin_of_read htyped, hright]
    rfl

/-- A numeral that is longer than there are digits, with a quotient subtracted,
    a division by a difference that is zero, and a numeral that is not read. -/
theorem exact_on_integers_long_numeral :
    (∃ x, (extended 20).evaluateWithin none .radians "0000000000000000000000007-6/3".toList =
        .ok x ∧ x.integer? = some 5) ∧
      (extended 20).evaluateWithin none .radians "1/(2-2)".toList = .error .notFinite ∧
      (Expr.number (.padded 4300 7)).eval (Precision.ofDigits 4301).arithmetic .degrees none =
        .error (.tooManyDigits (.padded 4300 7)) := by
  have hdifference : Formula.read none "0000000000000000000000007-6/3".toList =
      .ok (.binary .sub (.number ⟨"0000000000000000000000007".toList, none⟩)
        (.binary .div (.number ⟨['6'], none⟩) (.number ⟨['3'], none⟩))) :=
    ok_of_toOption (by decide +kernel)
  have hquotient : Formula.read none "1/(2-2)".toList =
      .ok (.binary .div (.number ⟨['1'], none⟩)
        (.binary .sub (.number ⟨['2'], none⟩) (.number ⟨['2'], none⟩))) :=
    ok_of_toOption (by decide +kernel)
  have htooLong : (extended 4301).tooLong? (.number (.padded 4300 7)) = some (.padded 4300 7) :=
    tooLong?_number (Numeral.tooLong_padded le_rfl (by decide))
  exact ⟨((exact_on_integers .radians _).1 5 (by decide +kernel)).2.2 _ hdifference _
      (by decide +kernel),
    ((exact_on_integers .radians _).2.1 (by decide +kernel)).2.2.1 _ hquotient _
      (by decide +kernel),
    ((exact_on_integers .degrees _).2.2 _ _ _ (Expr.inIntegers?_padded (by decide) _)
      htooLong).1⟩

/-- The number seven behind zeros, which is calculated with doubles but is no
    numeral that is read with enough digits. -/
theorem inexact_on_seven :
    (Expr.number (.padded 4400 7)).inIntegers? = some (.integer 7) ∧
      (Numeral.padded 4400 7).text = List.replicate 4400 '0' ++ ['7'] ∧
      Formula.read NestingLimit.standard (Numeral.padded 4400 7).text =
        .ok (.number (.padded 4400 7)) ∧
      (∃ x, double.evaluate .radians (Numeral.padded 4400 7).text = .ok x ∧ x.integer? = some 7) ∧
      (extended 5000).evaluate .radians (Numeral.padded 4400 7).text =
        .error (.tooManyDigits (.padded 4400 7)) ∧
      (Failure.tooManyDigits (.padded 4400 7)).kind = .unforeseen := by
  have htypable : (Numeral.padded 4400 7).IsTypable := Numeral.isTypable_padded (by decide) _
  have hseven : (Binary64.ofNumeral (.padded 4400 7)).integer? = some 7 :=
    (Numeral.isInteger_padded (by decide) _).integer?
  exact ⟨Expr.inIntegers?_padded (by decide) _, List.append_nil _, Formula.read_text htypable,
    ⟨_, double_evaluate_text htypable .radians, hseven⟩,
    evaluate_padded (by decide) (by decide) (by decide) .radians, rfl⟩

end Backend

end Calculator
