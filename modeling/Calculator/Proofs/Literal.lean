import Calculator.Formula
import Calculator.Proofs.Binary64.Literal
import Calculator.Proofs.Evaluation
import Calculator.Proofs.Scanning
import Calculator.Proofs.Typed.Roots

/-!
# Literals put into formulas

A numeral with or without a minus sign goes through all stages of evaluation
as it is: it has no character that is dropped, replaced or expanded, it is one
token behind the sign, and it is read as a number or the opposite of one. What
remains is what the arithmetic makes of the numeral.

With doubles the literal of a double is thereby evaluated to that double.

## Main definitions

* `Formula.signedLexemes`, `Formula.signedNumber`: A numeral with its sign, as
  lexemes and as an expression.

## Theorems

* `Shorthand.expand_eq_self`: A text without shorthand is not changed.
* `Formula.scan_withSign`: A numeral with its sign is scanned as it is.
* `Formula.evaluateOver_withSign`: What it is evaluated to.
* `Formula.literal_roundTrip`: The literal of a double gives the double back.
-/

namespace Calculator

namespace Shorthand

/-- The characters that expanding looks for. -/
def shorthandSigns : List Char :=
  ['!', '%', '√', '^', 'π']

theorem Mark.calls_eq_self {m : Mark} {text : List Char} (h : m.sign ∉ text) :
    m.calls text = text := by
  rw [calls, if_neg h]

theorem expandMarks_eq_self {text : List Char} (h : ∀ c ∈ text, c ∉ shorthandSigns) :
    expandMarks text = text := by
  have hfactorial : Mark.factorial.sign ∉ text := fun hin => h _ hin (by decide)
  have hpercent : Mark.percent.sign ∉ text := fun hin => h _ hin (by decide)
  rw [expandMarks, Mark.calls_eq_self hfactorial, Mark.calls_eq_self hpercent]

/-- A text without shorthand is not changed. -/
theorem expand_eq_self {text : List Char} (h : ∀ c ∈ text, c ∉ shorthandSigns) :
    expand text = text := by
  have hne : ∀ c ∈ text, ∀ d ∈ shorthandSigns, c ≠ d := fun c hc d hd heq => h c hc (heq ▸ hd)
  -- A text without root signs is copied, up to the empty rest behind it.
  have hroots := expandRoots_append (fun c hc => hne c hc '√' (by decide)) []
  rw [List.append_nil, expandRoots, List.append_nil] at hroots
  rw [expand, expandMarks_eq_self h, hroots]
  exact respell_eq fun c hc => ⟨hne c hc '^' (by decide), hne c hc 'π' (by decide)⟩

/-- A text without root signs is not nested at all. -/
theorem rootDepth_eq_zero {text : List Char} (h : '√' ∉ text) : rootDepth text = 0 := by
  induction text with
  | nil => rw [rootDepth]
  | cons c text ih =>
      have hc : c ≠ '√' := by
        rintro rfl
        exact h (by simp)
      rw [rootDepth, if_neg hc, ih fun hin => h (by simp [hin])]

/-- Nor is a text without any shorthand. -/
theorem nesting_eq_zero {text : List Char} (h : ∀ c ∈ text, c ∉ shorthandSigns) :
    nesting text = 0 := by
  rw [nesting, expandMarks_eq_self h]
  exact rootDepth_eq_zero fun hin => h _ hin (by decide)

end Shorthand

namespace Formula

/-- The characters of a numeral with its sign. -/
theorem mem_withSign {negative : Bool} {n : Numeral} (hn : n.IsPositional) {c : Char}
    (hc : c ∈ Binary64.withSign negative n.text) : c = '-' ∨ c = '.' ∨ c.isDigit = true := by
  have htext : ∀ c ∈ n.text, c = '.' ∨ c.isDigit = true := by
    intro c hc
    rcases n with ⟨whole, fraction⟩
    have hdigit := hn.isDigit
    cases fraction with
    | none => exact .inr (hdigit c (by simpa [Numeral.text] using hc))
    | some digits =>
        have h : c ∈ whole ∨ c = '.' ∨ c ∈ digits := by simpa [Numeral.text] using hc
        rcases h with h | h | h
        · exact .inr (hdigit c (by simp [h]))
        · exact .inl h
        · exact .inr (hdigit c (by simp [h]))
  cases negative with
  | false => exact .inr (htext c hc)
  | true =>
      rcases List.mem_cons.1 hc with h | h
      · exact .inl h
      · exact .inr (htext c h)

theorem clean_withSign {negative : Bool} {n : Numeral} (hn : n.IsPositional) :
    Keypad.clean (Binary64.withSign negative n.text) = Binary64.withSign negative n.text := by
  refine Keypad.clean_of_accepted _ fun c hc => ?_
  rcases mem_withSign hn hc with rfl | rfl | h
  · decide
  · decide
  · simp [Keypad.accepts, Char.isAlphanum, h]

theorem not_shorthand_withSign {negative : Bool} {n : Numeral} (hn : n.IsPositional) :
    ∀ c ∈ Binary64.withSign negative n.text, c ∉ Shorthand.shorthandSigns := by
  intro c hc hin
  rcases mem_withSign hn hc with rfl | rfl | h
  · exact absurd hin (by decide)
  · exact absurd hin (by decide)
  · have hno : ∀ d ∈ Shorthand.shorthandSigns, d.isDigit = false := forall_mem_of_all (by decide)
    rw [hno c hin] at h
    exact absurd h (by simp)

theorem expandWithin_withSign {negative : Bool} {n : Numeral} (hn : n.IsPositional) :
    expandWithin NestingLimit.standard (Binary64.withSign negative n.text) =
      .ok (Binary64.withSign negative n.text) := by
  have hnesting : NestingLimit.standard.admits
      (Shorthand.nesting (Binary64.withSign negative n.text)) = true := by
    rw [Shorthand.nesting_eq_zero (not_shorthand_withSign hn)]
    rfl
  rw [expandWithin, if_pos hnesting, Shorthand.expand_eq_self (not_shorthand_withSign hn)]

/-- The lexemes of a numeral with its sign. -/
def signedLexemes (negative : Bool) (n : Numeral) : List Lexeme :=
  if negative then [.operator .sub, .number n] else [.number n]

/-- The expression of a numeral with its sign. -/
def signedNumber (negative : Bool) (n : Numeral) : Expr :=
  if negative then .negate (.number n) else .number n

theorem flatMap_text_signedLexemes (negative : Bool) (n : Numeral) :
    (signedLexemes negative n).flatMap Lexeme.text = Binary64.withSign negative n.text := by
  cases negative with
  | false => simp [signedLexemes, Lexeme.text, Binary64.withSign]
  | true => simp [signedLexemes, Lexeme.text, BinaryOp.symbol, Binary64.withSign]

/-- A numeral with its sign is scanned as it is. -/
theorem scan_withSign (negative : Bool) {n : Numeral} (hn : n.IsPositional) :
    ∃ tokens, Token.scan (Binary64.withSign negative n.text) = .ok tokens ∧
      tokens.map Token.lexeme = signedLexemes negative n := by
  rw [← flatMap_text_signedLexemes]
  refine Token.scan_flatMap_text ?_ ?_
  · cases negative with
    | false => simpa [signedLexemes, Lexeme.WellFormed] using hn.wellFormed
    | true => simpa [signedLexemes, Lexeme.WellFormed] using hn.wellFormed
  · cases negative with
    | false => simp [signedLexemes]
    | true => simp [signedLexemes, Lexeme.Apart]

/-- A numeral with its sign is read as a number or the opposite of one. -/
theorem ofTokens_withSign {negative : Bool} {n : Numeral}
    (hfinite : (Binary64.ofNumeral n).isFinite = true) {tokens : List Token}
    (h : tokens.map Token.lexeme = signedLexemes negative n) :
    Expr.ofTokens NestingLimit.standard tokens = .ok (signedNumber negative n) := by
  -- One or two steps of the reader, well within the limit of nesting.
  cases negative with
  | false =>
      rcases List.map_eq_singleton_iff.1 h with ⟨t, rfl, ht⟩
      simp [Expr.ofTokens, Reader.run, Reader.stepWithin, Reader.step, Reader.start,
        Reader.readOperand, ht, hfinite, NestingLimit.standard, Reader.State.depth, Reader.finish,
        Reader.close, signedNumber]
      rfl
  | true =>
      rcases List.map_eq_cons_iff.1 h with ⟨s, rest, rfl, hs, hrest⟩
      rcases List.map_eq_singleton_iff.1 hrest with ⟨t, rfl, ht⟩
      simp [Expr.ofTokens, Reader.run, Reader.stepWithin, Reader.step, Reader.start,
        Reader.readOperand, hs, ht, hfinite, NestingLimit.standard, Reader.State.depth,
        Reader.Frame.weight, Reader.finish, Reader.close, signedNumber]
      rfl

theorem read_withSign {negative : Bool} {n : Numeral} (hn : n.IsPositional)
    (hfinite : (Binary64.ofNumeral n).isFinite = true) :
    read NestingLimit.standard (Binary64.withSign negative n.text) =
      .ok (signedNumber negative n) := by
  rcases scan_withSign negative hn with ⟨tokens, hscan, hlexemes⟩
  rw [read, clean_withSign hn, expandWithin_withSign hn]
  change parse NestingLimit.standard _ = _
  rw [parse, hscan]
  exact ofTokens_withSign hfinite hlexemes

/-- What a numeral with its sign is evaluated to: what the arithmetic makes of
    the numeral, or the opposite of it. -/
theorem evaluateOver_withSign {α : Type} (a : Arithmetic α) (mode : AngleMode) (negative : Bool)
    {n : Numeral} (hn : n.IsPositional) (hfinite : (Binary64.ofNumeral n).isFinite = true)
    {value : α} (hvalue : a.number n = some value) (hrange : a.isFinite value = true) :
    evaluateOver a NestingLimit.standard mode (Binary64.withSign negative n.text) =
      a.result (if negative then a.negate value else value) := by
  -- The numeral is checked before its opposite is taken.
  have hchecked : a.literal n = .ok value := by
    rw [Arithmetic.literal_of_some hvalue, Arithmetic.checked, if_pos hrange]
  rw [evaluateOver, read_withSign hn hfinite]
  cases negative with
  | false =>
      change ((signedNumber false n).eval a mode NestingLimit.standard).bind a.result = _
      simp [signedNumber, Expr.eval, NestingLimit.standard, NestingLimit.inner, hchecked]
      rfl
  | true =>
      change ((signedNumber true n).eval a mode NestingLimit.standard).bind a.result = _
      simp [signedNumber, Expr.eval, NestingLimit.standard, NestingLimit.inner, hchecked]
      rfl

theorem arithmetic_number (n : Numeral) :
    Binary64.arithmetic.number n = some (Binary64.ofNumeral n) := by
  simp only [Binary64.arithmetic]

theorem arithmetic_negate (x : Binary64) : Binary64.arithmetic.negate x = -x := by
  simp only [Binary64.arithmetic]

theorem literal_finite (negative : Bool) (rank : Fin finiteCount) :
    literal (.finite negative rank) =
      .ok (Binary64.withSign negative (Binary64.literalNumeral rank).text) := by
  rw [literal, Binary64.literal?_finite]

/-- The literal of a double, with the sign of a zero too, gives the double
    back: digits with at most a sign and a point, which denote the number that
    the text of the double denotes, are not changed by cleaning and expanding,
    and are one number behind the sign. -/
theorem literal_roundTrip (negative : Bool) (rank : Fin finiteCount) (mode : AngleMode) :
    ∃ (n : Numeral) (text : List Char), literal (.finite negative rank) = .ok text ∧
      n.IsPositional ∧ text = Binary64.withSign negative n.text ∧
      (∃ q, Text.number? text = some q ∧
        Text.number? (Binary64.text (.finite negative rank)) = some q) ∧
      Keypad.clean text = text ∧ expandWithin NestingLimit.standard text = .ok text ∧
      (∃ tokens, Token.scan text = .ok tokens ∧
        tokens.map Token.lexeme = (if negative then [.operator .sub] else []) ++ [.number n]) ∧
      Backend.double.evaluate mode text = .ok (.finite negative rank) := by
  have hn := Binary64.isPositional_literalNumeral rank
  have hread := Binary64.ofNumeral_literalNumeral rank
  have hfinite : (Binary64.ofNumeral (Binary64.literalNumeral rank)).isFinite = true := by
    rw [hread]
    rfl
  have hnumber : Binary64.arithmetic.number (Binary64.literalNumeral rank) =
      some (.finite false rank) := by
    rw [arithmetic_number, hread]
  refine ⟨Binary64.literalNumeral rank, _, literal_finite negative rank, hn, rfl, ?_,
    clean_withSign hn, expandWithin_withSign hn, ?_, ?_⟩
  · exact ⟨_, Binary64.number?_literal negative rank, Binary64.number?_text negative rank⟩
  · rcases scan_withSign negative hn with ⟨tokens, hscan, hlexemes⟩
    refine ⟨tokens, hscan, hlexemes.trans ?_⟩
    cases negative with
    | false => rfl
    | true => rfl
  · rw [Backend.evaluate, Backend.evaluateWithin,
      evaluateOver_withSign Binary64.arithmetic mode negative hn hfinite hnumber rfl,
      arithmetic_negate]
    cases negative with
    | false => rfl
    | true => rfl

end Formula

end Calculator
