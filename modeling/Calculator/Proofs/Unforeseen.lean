import Calculator.Proofs.Nesting
import Calculator.Proofs.Postorder
import Calculator.Proofs.Precision.Numeral
import Calculator.Proofs.Refusal
import Calculator.Proofs.Writing

/-!
# The failure that is not foreseen

Whatever is typed is read or refused with a failure that was foreseen, and so
is every operation. Only a numeral can have another failure, when its value is
asked for. It belongs to a numeral of the expression then, and to a precision
at which that numeral is too long.

## Main definitions

* `Foreseen`: The computations whose failures are all foreseen.
* `Arithmetic.Explains`: The computations with other failures for numerals.

## Theorems

* `Formula.foreseen_read`: Reading is such a computation.
* `Expr.explains_eval`: Evaluation has no other failure than that of a numeral.
* `Backend.exists_tooLong_of_evaluate`: The numeral is too long.
-/

namespace Calculator

/-- A computation whose failures are all foreseen. -/
def Foreseen {α : Type} (x : Except Failure α) : Prop :=
  ∀ failure, x = .error failure → failure.kind ≠ .unforeseen

namespace Foreseen

variable {α β : Type}

theorem ok (value : α) : Foreseen (.ok value) := nofun

theorem error {failure : Failure} (h : failure.kind ≠ .unforeseen) :
    Foreseen (.error failure : Except Failure α) := by
  intro other heq
  rwa [← Except.error.inj heq]

theorem bind {x : Except Failure α} {f : α → Except Failure β} (hx : Foreseen x)
    (hf : ∀ value, Foreseen (f value)) : Foreseen (x >>= f) := by
  cases x with
  | error failure => exact error (hx failure rfl)
  | ok value => exact hf value

theorem map {x : Except Failure α} (hx : Foreseen x) (f : α → β) : Foreseen (x.map f) := by
  cases x with
  | error failure => exact error (hx failure rfl)
  | ok value => exact ok (f value)

end Foreseen

/-! ### Reading -/

theorem Token.foreseen_scanFrom (position : Nat) (text : List Char) :
    Foreseen (scanFrom position text) := by
  fun_induction scanFrom position text with
  | case1 => exact .ok _
  | case2 position c rest _ ih => exact ih
  | case3 => exact .error (by simp [Failure.kind])
  | case4 position c rest _ lexeme tail _ ih => exact ih.map _

namespace Reader

theorem foreseen_step (state : State) (token : Token) : Foreseen (step state token) := by
  intro failure h
  rcases (step_error h).2.1 with hkind | hkind <;> rw [hkind] <;> nofun

theorem foreseen_finish (state : State) : Foreseen (finish state) := by
  intro failure h
  rw [(finish_error h).2]
  nofun

theorem foreseen_stepWithin (limit : NestingLimit) (state : State) (token : Token) :
    Foreseen (stepWithin limit state token) := by
  have hstep := foreseen_step state token
  unfold stepWithin
  split
  · split
    · exact .ok _
    · exact .error nofun
  · rename_i failure hfailure
    exact .error (hstep failure hfailure)

/-- A run of steps fails as one of them does. -/
theorem foreseen_run (limit : NestingLimit) (state : State) (tokens : List Token) :
    Foreseen (run limit state tokens) := by
  induction tokens generalizing state with
  | nil => exact .ok _
  | cons token tokens ih =>
    rw [run, List.foldlM_cons]
    exact (foreseen_stepWithin limit state token).bind ih

end Reader

theorem Expr.foreseen_ofTokens (limit : NestingLimit) (tokens : List Token) :
    Foreseen (ofTokens limit tokens) := by
  unfold ofTokens
  split
  · exact .error nofun
  · exact (Reader.foreseen_run limit _ tokens).bind Reader.foreseen_finish

theorem Formula.foreseen_read (limit : NestingLimit) (typed : List Char) :
    Foreseen (read limit typed) := by
  have hexpand : Foreseen (expandWithin limit (Keypad.clean typed)) := by
    unfold expandWithin
    split
    · exact .ok _
    · exact .error nofun
  exact hexpand.bind fun canonical =>
    (Token.foreseen_scanFrom 0 canonical).bind (Expr.foreseen_ofTokens limit)

/-! ### Evaluation -/

namespace Arithmetic

variable {α : Type} {a : Arithmetic α} {mode : AngleMode}

theorem foreseen_checked (value? : Option α) : Foreseen (a.checked value?) := by
  intro failure h
  rw [kind_of_checked h]
  nofun

theorem foreseen_applyIn (function : Elementary) (value : α) :
    Foreseen (a.applyIn mode function value) := by
  intro failure h
  rw [kind_of_applyIn h]
  nofun

theorem foreseen_factorialOf (value : α) : Foreseen (a.factorialOf value) := by
  unfold factorialOf
  split
  · split
    · exact .ok _
    · exact .error nofun
  · exact .error nofun

theorem foreseen_result (value : α) : Foreseen (a.result value) := by
  unfold result
  split
  · exact .ok _
  · exact .error nofun

/-- A computation that has no other failures than foreseen ones and those of
    some numerals, which are not read. -/
def Explains {β : Type} (a : Arithmetic α) (numerals : List Numeral) (x : Except Failure β) :
    Prop :=
  ∀ failure, x = .error failure → failure.kind = .unforeseen →
    ∃ numeral ∈ numerals, failure = .tooManyDigits numeral ∧ a.number numeral = none

namespace Explains

variable {β γ : Type} {numerals more : List Numeral} {x : Except Failure β}

theorem of_foreseen (h : Foreseen x) : a.Explains numerals x :=
  fun failure hfailure hkind => absurd hkind (h failure hfailure)

theorem map (h : a.Explains numerals x) (f : β → γ) : a.Explains numerals (x.map f) := by
  cases x with
  | error failure =>
    intro other hother
    obtain rfl := Except.error.inj hother
    exact h failure rfl
  | ok value => exact of_foreseen (.ok _)

/-- Failures come from what is first or from what follows. -/
theorem bind (h : a.Explains numerals x) {f : β → Except Failure γ}
    (hf : ∀ value, a.Explains more (f value)) : a.Explains (numerals ++ more) (x >>= f) := by
  intro failure hfailure hkind
  cases x with
  | error first =>
    obtain rfl := Except.error.inj hfailure
    obtain ⟨numeral, hmem, hnumeral⟩ := h first rfl hkind
    exact ⟨numeral, List.mem_append_left _ hmem, hnumeral⟩
  | ok value =>
    obtain ⟨numeral, hmem, hnumeral⟩ := hf value failure hfailure hkind
    exact ⟨numeral, List.mem_append_right _ hmem, hnumeral⟩

theorem bind_foreseen (h : a.Explains numerals x) {f : β → Except Failure γ}
    (hf : ∀ value, Foreseen (f value)) : a.Explains numerals (x >>= f) := by
  have hbind : a.Explains (numerals ++ []) (x >>= f) := h.bind fun value => of_foreseen (hf value)
  rwa [List.append_nil] at hbind

end Explains

theorem explains_literal (numeral : Numeral) : a.Explains [numeral] (a.literal numeral) := by
  cases hnumber : a.number numeral with
  | none =>
    intro failure hfailure _
    rw [literal_of_none hnumber] at hfailure
    obtain rfl := Except.error.inj hfailure
    exact ⟨numeral, List.mem_singleton_self _, rfl, hnumber⟩
  | some value =>
    rw [literal_of_some hnumber]
    exact .of_foreseen (foreseen_checked _)

end Arithmetic

section

variable {α : Type} {a : Arithmetic α} {mode : AngleMode}

open Calculator.Arithmetic (Explains)

/-- The failure at the limit of nesting is foreseen. -/
theorem Expr.explains_of_inner {tree : Expr} {limit : NestingLimit} {numerals : List Numeral}
    (h : ∀ inner, limit.inner = some inner → a.Explains numerals (tree.eval a mode limit)) :
    a.Explains numerals (tree.eval a mode limit) := by
  cases hi : limit.inner with
  | none =>
    rw [eval_of_bottom hi]
    exact .of_foreseen (.error nofun)
  | some inner => exact h inner hi

/-- What an expression fails for is foreseen, or it is one of its numerals. -/
theorem Expr.explains_eval (tree : Expr) (limit : NestingLimit) :
    a.Explains tree.numerals (tree.eval a mode limit) := by
  -- The induction is on the tree, and the limit shrinks on the way down.
  induction tree generalizing limit with
  | number numeral =>
    refine explains_of_inner fun inner hi => ?_
    rw [eval_number hi]
    exact Arithmetic.explains_literal numeral
  | constant name =>
    refine explains_of_inner fun inner hi => ?_
    rw [eval_constant hi]
    exact .of_foreseen (.ok _)
  | negate operand ih =>
    refine explains_of_inner fun inner hi => ?_
    rw [eval_negate hi]
    exact (ih inner).map _
  | percent operand ih =>
    refine explains_of_inner fun inner hi => ?_
    rw [eval_percent hi]
    exact (ih inner).map _
  | factorial operand ih =>
    refine explains_of_inner fun inner hi => ?_
    rw [eval_factorial hi]
    exact (ih inner).bind_foreseen Arithmetic.foreseen_factorialOf
  | apply function operand ih =>
    refine explains_of_inner fun inner hi => ?_
    rw [eval_apply hi]
    exact (ih inner).bind_foreseen (Arithmetic.foreseen_applyIn function)
  | binary op left right ihl ihr =>
    refine explains_of_inner fun inner hi => ?_
    rw [eval_binary hi]
    exact (ihl inner).bind fun x =>
      (ihr inner).bind_foreseen fun y => Arithmetic.foreseen_checked _

/-- So is what a formula fails for that has been read. -/
theorem Formula.exists_numeral_of_evaluateOver {limit : NestingLimit} {typed : List Char}
    {failure : Failure} (h : evaluateOver a limit mode typed = .error failure)
    (hkind : failure.kind = .unforeseen) :
    ∃ tree, read limit typed = .ok tree ∧
      ∃ numeral ∈ tree.numerals, failure = .tooManyDigits numeral ∧ a.number numeral = none := by
  cases hread : read limit typed with
  | error first =>
    rw [evaluateOver, hread] at h
    obtain rfl := Except.error.inj h
    exact absurd hkind (foreseen_read limit typed first hread)
  | ok tree =>
    rw [evaluateOver_eq hread] at h
    exact ⟨tree, rfl, (Expr.explains_eval tree limit).bind_foreseen
      Arithmetic.foreseen_result failure h hkind⟩

end

/-- An evaluation has a failure that was not foreseen only at a precision at
    which one of the numerals is too long to be read. -/
theorem Backend.exists_tooLong_of_evaluate {backend : Backend} {mode : AngleMode}
    {typed : List Char} {failure : Failure} (h : backend.evaluate mode typed = .error failure)
    (hkind : failure.kind = .unforeseen) :
    ∃ (digits : Int) (tree : Expr) (numeral : Numeral), backend = .extended digits ∧
      Formula.read NestingLimit.standard typed = .ok tree ∧ numeral ∈ tree.numerals ∧
      failure = .tooManyDigits numeral ∧ numeral.TooLong digits := by
  cases backend with
  | double =>
    obtain ⟨tree, -, numeral, -, -, hnumber⟩ := Formula.exists_numeral_of_evaluateOver h hkind
    rw [Formula.arithmetic_number] at hnumber
    cases hnumber
  | extended digits =>
    obtain ⟨tree, hread, numeral, hmem, hfailure, hnumber⟩ :=
      Formula.exists_numeral_of_evaluateOver h hkind
    refine ⟨digits, tree, numeral, rfl, hread, hmem, hfailure, ?_⟩
    by_contra hlong
    rw [Precision.number_of_not_tooLong hlong] at hnumber
    cases hnumber

end Calculator
