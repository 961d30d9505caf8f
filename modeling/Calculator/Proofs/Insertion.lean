import Calculator.Proofs.Evaluation
import Calculator.Proofs.Literal
import Calculator.Proofs.Typed.Language

/-!
# The last answer as an operand

The last answer is put into a formula as the text of its literal, without
parentheses. If it has no sign that text is a numeral, which is an operand of
every operation. A minus sign in front of it is no part of a numeral: it takes
in as much as a sign does, which is the answer itself before every operation
but one. A power binds tighter than a sign, so the sign of an answer that is
raised to a power is the sign of the power.

Behind an operation a sign is never ambiguous.

## Main definitions

* `BinaryOp.key`: The key of an operation.
* `Formula.enclosed`: A text in parentheses.
* `Typed.Cut`: What was typed and its lexemes.

## Theorems

* `Typed.read_of_cut`: Lexemes that are derived are read.
* `Formula.read_operation`, `Formula.read_negative_power`: A literal before an
  operation.
* `Backend.evaluate_literal_operand`: A literal as an operand, with and without
  parentheses.
-/

namespace Calculator

/-- The key of an operation. -/
def BinaryOp.key : BinaryOp → Char
  | add => '+'
  | sub => '-'
  | mul => '*'
  | div => '/'
  | pow => '^'

/-- A text in parentheses. -/
def Formula.enclosed (text : List Char) : List Char :=
  '(' :: (text ++ [')'])

namespace Typed

/-- What was typed, without what is dropped, is made up of lexemes. -/
structure Cut (typed : List Char) (ts : List Lexeme) : Prop where
  /-- The lexemes make up the text. -/
  text : Keypad.clean typed = ts.flatMap Lexeme.text
  /-- Each is found if it is typed alone. -/
  wellFormed : ∀ t ∈ ts, t.WellFormed

/-- Lexemes that are derived are read, wherever they could have been cut
    otherwise. -/
theorem read_of_cut {typed : List Char} {ts : List Lexeme} {x : Expr} (hcut : Cut typed ts)
    (h : Derives .expression ts x) : Formula.read none typed = .ok x := by
  rcases exists_translates h with ⟨cs, rfl, htranslates, -⟩
  have hlexemes := lexemes?_text htranslates.follow (wellFormed_of_lexemes hcut.wellFormed)
  rw [text_eq_flatMap, ← hcut.text] at hlexemes
  exact read_of_means ⟨_, hlexemes, h⟩

/-- What is read has been derived. -/
theorem exists_cut_of_read {typed : List Char} {x : Expr} (h : Formula.read none typed = .ok x) :
    ∃ ts, Cut typed ts ∧ Derives .expression ts x := by
  rcases exists_means_of_read h with ⟨y, ts, hts, hy⟩
  rcases flatMap_text_of_lexemes? hts with ⟨htext, hwf⟩
  have hcut : Cut typed ts := ⟨htext.symm, hwf⟩
  have hsame := (read_of_cut hcut hy).symm.trans h
  rcases (by simpa using hsame : y = x)
  exact ⟨ts, hcut, hy⟩

namespace Cut

variable {typed rest : List Char} {ts us : List Lexeme}

theorem append (hl : Cut typed ts) (hr : Cut rest us) : Cut (typed ++ rest) (ts ++ us) := by
  constructor
  · rw [Keypad.clean_append, hl.text, hr.text, List.flatMap_append]
  · intro t ht
    rcases List.mem_append.1 ht with ht | ht
    · exact hl.wellFormed t ht
    · exact hr.wellFormed t ht

theorem enclosed (h : Cut typed ts) :
    Cut (Formula.enclosed typed) (.leftParen :: (ts ++ [.rightParen])) := by
  have hleft : Cut ['('] [.leftParen] := ⟨rfl, by simp [Lexeme.WellFormed]⟩
  have hright : Cut [')'] [.rightParen] := ⟨rfl, by simp [Lexeme.WellFormed]⟩
  exact hleft.append (h.append hright)

end Cut

/-- The lexeme of the key of an operation. -/
def keyLexeme (op : BinaryOp) : Lexeme :=
  if op = .pow then .caret else .operator op

theorem cut_operation {left right : List Char} {ts us : List Lexeme} (hl : Cut left ts)
    (op : BinaryOp) (hr : Cut right us) :
    Cut (left ++ op.key :: right) (ts ++ keyLexeme op :: us) := by
  have hkey : Cut [op.key] [keyLexeme op] := by
    cases op <;> exact ⟨rfl, by simp [keyLexeme, Lexeme.WellFormed]⟩
  exact hl.append (hkey.append hr)

/-- The lexemes of a numeral with its sign. -/
def signedLexemes (negative : Bool) (n : Numeral) : List Lexeme :=
  if negative then [.operator .sub, .number n] else [.number n]

theorem cut_withSign (negative : Bool) {n : Numeral} (hn : n.IsPositional) :
    Cut (Binary64.withSign negative n.text) (signedLexemes negative n) := by
  have hwf : (Lexeme.number n).WellFormed := hn.wellFormed
  constructor
  · rw [Formula.clean_withSign hn]
    cases negative with
    | false => simp [signedLexemes, Lexeme.text, Binary64.withSign]
    | true => simp [signedLexemes, Lexeme.text, BinaryOp.symbol, Binary64.withSign]
  · cases negative with
    | false => simpa [signedLexemes] using hwf
    | true => simpa [signedLexemes, Lexeme.WellFormed] using hwf

/-- An operation other than a power, whose left operand may have a sign. -/
theorem derives_operation_of_unary {ts us : List Lexeme} {x y : Expr} {op : BinaryOp}
    (hop : op ≠ .pow) (hl : Derives .unary ts x) (hr : Derives .unary us y) :
    Derives .expression (ts ++ keyLexeme op :: us) (.binary op x y) := by
  cases op with
  | add => exact .sum .add (.inl rfl) (.ofTerm (.ofUnary hl)) (.ofUnary hr)
  | sub => exact .sum .sub (.inr rfl) (.ofTerm (.ofUnary hl)) (.ofUnary hr)
  | mul => exact .ofTerm (.product .mul (.inl rfl) (.ofUnary hl) hr)
  | div => exact .ofTerm (.product .div (.inr rfl) (.ofUnary hl) hr)
  | pow => exact absurd rfl hop

/-- An operation whose left operand is an atom. -/
theorem derives_operation {ts us : List Lexeme} {x y : Expr} (op : BinaryOp)
    (hl : Derives .primary ts x) (hr : Derives .unary us y) :
    Derives .expression (ts ++ keyLexeme op :: us) (.binary op x y) := by
  by_cases hop : op = .pow
  · subst hop
    exact .ofTerm (.ofUnary (.ofPower (.power .caret (.inl rfl) (.ofPrimary hl) hr)))
  · exact derives_operation_of_unary hop (.ofPower (.ofBase (.ofPrimary hl))) hr

theorem derives_signed (negative : Bool) {n : Numeral}
    (hfinite : (Binary64.ofNumeral n).isFinite = true) :
    Derives .unary (signedLexemes negative n) (Formula.signedNumber negative n) := by
  have hnumber : Derives .unary [.number n] (.number n) :=
    .ofPower (.ofBase (.ofPrimary (.number n hfinite)))
  cases negative with
  | false => exact hnumber
  | true =>
    refine .minus hnumber ?_
    rintro ⟨m, us, h⟩
    simp at h

theorem derives_enclosed {ts : List Lexeme} {x : Expr} (h : Derives .expression ts x) :
    Derives .unary (.leftParen :: (ts ++ [.rightParen])) x :=
  .ofPower (.ofBase (.ofPrimary (.group h)))

end Typed

namespace Formula

open Typed

variable {negative : Bool} {n : Numeral} {operand : List Char} {y : Expr}

section

variable (hn : n.IsPositional) (hfinite : (Binary64.ofNumeral n).isFinite = true)
  (hy : read none operand = .ok y)

include hn hfinite hy

/-- A literal before an operation, unless it is the power of a negative one. -/
theorem read_operation {op : BinaryOp} (h : ¬(negative = true ∧ op = .pow)) :
    read none (Binary64.withSign negative n.text ++ op.key :: enclosed operand) =
      .ok (.binary op (signedNumber negative n) y) := by
  rcases exists_cut_of_read hy with ⟨ts, hcut, hts⟩
  refine read_of_cut (cut_operation (cut_withSign negative hn) op hcut.enclosed) ?_
  cases negative with
  | false => exact derives_operation op (.number n hfinite) (derives_enclosed hts)
  | true =>
    exact derives_operation_of_unary (fun hop => h ⟨rfl, hop⟩) (derives_signed true hfinite)
      (derives_enclosed hts)

/-- The power of a negative literal: the sign is that of the power. -/
theorem read_negative_power :
    read none (Binary64.withSign true n.text ++ '^' :: enclosed operand) =
      .ok (.negate (.binary .pow (.number n) y)) := by
  rcases exists_cut_of_read hy with ⟨ts, hcut, hts⟩
  refine read_of_cut (cut_operation (cut_withSign true hn) .pow hcut.enclosed) ?_
  refine .ofTerm (.ofUnary (.minus (.ofPower (.power .caret (.inl rfl)
    (.ofPrimary (.number n hfinite)) (derives_enclosed hts))) ?_))
  rintro ⟨m, us, h⟩
  simp [keyLexeme] at h

/-- The opposite of the power of a literal. -/
theorem read_opposite_power :
    read none ('-' :: enclosed (Binary64.withSign false n.text ++ '^' :: enclosed operand)) =
      .ok (.negate (.binary .pow (.number n) y)) := by
  rcases exists_cut_of_read hy with ⟨ts, hcut, hts⟩
  have hminus : Cut ['-'] [.operator .sub] := ⟨rfl, by simp [Typed.Lexeme.WellFormed]⟩
  have hpower := cut_operation (cut_withSign false hn) .pow hcut.enclosed
  refine read_of_cut (hminus.append hpower.enclosed) (.ofTerm (.ofUnary (.minus ?_ ?_)))
  · exact derives_enclosed (derives_operation .pow (.number n hfinite) (derives_enclosed hts))
  · rintro ⟨m, us, h⟩
    simp at h

/-- A literal in parentheses before an operation. -/
theorem read_enclosed_operation (negative : Bool) (op : BinaryOp) :
    read none (enclosed (Binary64.withSign negative n.text) ++ op.key :: enclosed operand) =
      .ok (.binary op (signedNumber negative n) y) := by
  rcases exists_cut_of_read hy with ⟨ts, hcut, hts⟩
  refine read_of_cut (cut_operation (cut_withSign negative hn).enclosed op hcut.enclosed) ?_
  exact derives_operation op (.group (.ofTerm (.ofUnary (derives_signed negative hfinite))))
    (derives_enclosed hts)

/-- A literal behind an operation. -/
theorem read_operation_right (negative : Bool) (op : BinaryOp) :
    read none (enclosed operand ++ op.key :: Binary64.withSign negative n.text) =
      .ok (.binary op y (signedNumber negative n)) := by
  rcases exists_cut_of_read hy with ⟨ts, hcut, hts⟩
  refine read_of_cut (cut_operation hcut.enclosed op (cut_withSign negative hn)) ?_
  exact derives_operation op (.group hts) (derives_signed negative hfinite)

/-- A literal in parentheses behind an operation. -/
theorem read_enclosed_operation_right (negative : Bool) (op : BinaryOp) :
    read none (enclosed operand ++ op.key :: enclosed (Binary64.withSign negative n.text)) =
      .ok (.binary op y (signedNumber negative n)) := by
  rcases exists_cut_of_read hy with ⟨ts, hcut, hts⟩
  refine read_of_cut (cut_operation hcut.enclosed op (cut_withSign negative hn).enclosed) ?_
  exact derives_operation op (.group hts)
    (derives_enclosed (.ofTerm (.ofUnary (derives_signed negative hfinite))))

end

end Formula

/-- Texts that are read alike have the same value, or the same failure. -/
theorem Backend.evaluateWithin_congr (backend : Backend) {limit : NestingLimit} (mode : AngleMode)
    {typed other : List Char} {tree : Expr} (h : Formula.read limit typed = .ok tree)
    (hother : Formula.read limit other = .ok tree) :
    backend.evaluateWithin limit mode typed = backend.evaluateWithin limit mode other := by
  cases backend with
  | double => exact (Formula.evaluateOver_eq h).trans (Formula.evaluateOver_eq hother).symm
  | extended digits => exact (Formula.evaluateOver_eq h).trans (Formula.evaluateOver_eq hother).symm

/-- What has a value has been read. -/
theorem Backend.exists_read {backend : Backend} {limit : NestingLimit} {mode : AngleMode}
    {typed : List Char} {value : Binary64}
    (h : backend.evaluateWithin limit mode typed = .ok value) :
    ∃ tree, Formula.read limit typed = .ok tree := by
  cases backend with
  | double => exact (exists_of_bind_eq_ok h).imp fun _ hread => hread.1
  | extended digits => exact (exists_of_bind_eq_ok h).imp fun _ hread => hread.1

/-- The literal of a double is an operand as it is in parentheses, behind every
    operation and before it too, unless it is negative and raised to a power:
    then its sign is that of the power. -/
theorem Backend.evaluate_literal_operand (backend : Backend) (mode : AngleMode) (op : BinaryOp)
    {answer value : Binary64} {operand : List Char} (hanswer : answer.isFinite = true)
    (hoperand : backend.evaluateWithin none mode operand = .ok value) :
    ∃ text, Formula.literal answer = .ok text ∧
      (backend.evaluateWithin none mode (Formula.enclosed operand ++ op.key :: text) =
        backend.evaluateWithin none mode
          (Formula.enclosed operand ++ op.key :: Formula.enclosed text)) ∧
      (¬(answer.isNegative = true ∧ op = .pow) →
        backend.evaluateWithin none mode (text ++ op.key :: Formula.enclosed operand) =
          backend.evaluateWithin none mode
            (Formula.enclosed text ++ op.key :: Formula.enclosed operand)) ∧
      (answer.isNegative = true →
        ∃ magnitude, Formula.literal answer.abs = .ok magnitude ∧
          backend.evaluateWithin none mode (text ++ '^' :: Formula.enclosed operand) =
            backend.evaluateWithin none mode
              ('-' :: Formula.enclosed (magnitude ++ '^' :: Formula.enclosed operand))) := by
  rcases Backend.exists_read hoperand with ⟨y, hy⟩
  cases answer with
  | infinite negative => cases hanswer
  | nan => cases hanswer
  | finite negative rank =>
    have hn := Binary64.isPositional_literalNumeral rank
    have hfinite : (Binary64.ofNumeral (Binary64.literalNumeral rank)).isFinite = true := by
      rw [Binary64.ofNumeral_literalNumeral]
      rfl
    refine ⟨_, Formula.literal_finite negative rank, ?_, fun hpower => ?_, fun hnegative => ?_⟩
    · exact backend.evaluateWithin_congr mode
        (Formula.read_operation_right hn hfinite hy negative op)
        (Formula.read_enclosed_operation_right hn hfinite hy negative op)
    · exact backend.evaluateWithin_congr mode (Formula.read_operation hn hfinite hy hpower)
        (Formula.read_enclosed_operation hn hfinite hy negative op)
    · obtain rfl : negative = true := hnegative
      refine ⟨_, Formula.literal_finite false rank, ?_⟩
      exact backend.evaluateWithin_congr mode (Formula.read_negative_power hn hfinite hy)
        (Formula.read_opposite_power hn hfinite hy)

/-! ### The square of minus two -/

/-- Two, as a double. -/
def Binary64.two : Fin finiteCount :=
  ⟨2 ^ 62, by decide⟩

/-- Four, as a double. -/
def Binary64.four : Fin finiteCount :=
  ⟨2 ^ 62 + 2 ^ 52, by decide⟩

theorem Formula.read_two : Formula.read none ['2'] = .ok (.number ⟨['2'], none⟩) := by
  have hn : Numeral.IsPositional ⟨['2'], none⟩ := ⟨by simp, by simp, by simp⟩
  exact Typed.read_of_cut (Typed.cut_withSign false hn)
    (.ofTerm (.ofUnary (Typed.derives_signed false (by decide +kernel))))

theorem Backend.evaluate_two :
    (Backend.extended 20).evaluateWithin none .radians ['2'] = .ok (.finite false Binary64.two) :=
  (Formula.evaluateOver_eq Formula.read_two).trans (ok_of_toOption (by decide +kernel))

theorem Formula.literal_minus_two :
    Formula.literal (.finite true Binary64.two) = .ok ['-', '2', '.', '0'] :=
  ok_of_toOption (by decide +kernel)

theorem Backend.evaluate_literal_operand_minus_two :
    (Binary64.finite true Binary64.two).isFinite = true ∧
      (Backend.extended 20).evaluateWithin none .radians ['2'] = .ok (.finite false Binary64.two) ∧
      ¬((Binary64.finite true Binary64.two).isNegative = true ∧ BinaryOp.mul = .pow) ∧
      ∃ text, Formula.literal (.finite true Binary64.two) = .ok text ∧
        (Backend.extended 20).evaluateWithin none .radians
            (text ++ BinaryOp.key .mul :: Formula.enclosed ['2']) =
          (Backend.extended 20).evaluateWithin none .radians
            (Formula.enclosed text ++ BinaryOp.key .mul :: Formula.enclosed ['2']) := by
  have hne : ¬((Binary64.finite true Binary64.two).isNegative = true ∧ BinaryOp.mul = .pow) := by
    decide
  rcases evaluate_literal_operand (.extended 20) .radians .mul
    (rfl : (Binary64.finite true Binary64.two).isFinite = true) evaluate_two with
    ⟨text, htext, -, hleft, -⟩
  exact ⟨rfl, evaluate_two, hne, text, htext, hleft hne⟩

/-- Without parentheses the square of minus two is minus four. -/
theorem Backend.evaluate_literal_power_fails :
    Formula.literal (.finite true Binary64.two) = .ok ['-', '2', '.', '0'] ∧
      (Backend.extended 20).evaluateWithin none .radians ['2'] = .ok (.finite false Binary64.two) ∧
      (Backend.extended 20).evaluateWithin none .radians
          (['-', '2', '.', '0'] ++ BinaryOp.key .pow :: Formula.enclosed ['2']) =
        .ok (.finite true Binary64.four) ∧
      (Backend.extended 20).evaluateWithin none .radians
          (Formula.enclosed ['-', '2', '.', '0'] ++ BinaryOp.key .pow :: Formula.enclosed ['2']) =
        .ok (.finite false Binary64.four) ∧
      Binary64.finite true Binary64.four ≠ .finite false Binary64.four := by
  have hn : Numeral.IsPositional ⟨['2'], some ['0']⟩ := ⟨by simp, by simp, by simp⟩
  have hfinite : (Binary64.ofNumeral ⟨['2'], some ['0']⟩).isFinite = true := by decide +kernel
  refine ⟨Formula.literal_minus_two, evaluate_two, ?_, ?_, by decide⟩
  · exact (Formula.evaluateOver_eq (Formula.read_negative_power hn hfinite Formula.read_two)).trans
      (ok_of_toOption (by decide +kernel))
  · exact (Formula.evaluateOver_eq
      (Formula.read_enclosed_operation hn hfinite Formula.read_two true .pow)).trans
      (ok_of_toOption (by decide +kernel))

end Calculator
