import Calculator.Proofs.Canonical
import Calculator.Proofs.Insertion
import Calculator.Proofs.Nesting
import Calculator.Proofs.Reading
import Calculator.Proofs.Spelling

/-!
# Writing expressions

Every expression can be typed. Its canonical text puts each operand of a sign
in parentheses of its own and writes everything else as a call or as a word,
so that nothing is left to the precedence of the signs. Such a text has no
character that is dropped and no shorthand, whatever stands next to a numeral,
and its lexemes are derived by the shortest way there is: each operand is an
atom.

All that is asked of an expression is that its numerals can be typed: they
have ASCII digits and are within the range of the doubles. What is typed is
read with no other numerals, so whatever has been read can be written.

## Main definitions

* `Numeral.IsTypable`: A numeral of ASCII digits within the range.
* `Expr.numerals`: The numerals of an expression.
* `Expr.written`: The canonical text of an expression.
* `Expr.lexemes`: The lexemes that make it up.

## Theorems

* `Expr.written_eq`: The lexemes make up the text.
* `Expr.derives_lexemes`: They are derived.
* `Expr.parse_written`: The canonical text denotes its expression.
* `Expr.eq_of_written_eq`: Different expressions are written differently.
* `Formula.read_written`: Every stage of reading gets back what was written.
* `Formula.isTypable_of_read`, `Formula.read_written_of_read`: What was read can
  be written.
-/

namespace Calculator

/-- A numeral that can be typed and is read as a number: ASCII digits on at
    least one side of the point, and a value within the range of the doubles. -/
structure Numeral.IsTypable (n : Numeral) : Prop where
  /-- All digits are ASCII digits. -/
  isDigit : ∀ c ∈ n.whole ++ n.fraction.getD [], c.isDigit = true
  /-- There are some. -/
  ne_nil : n.whole ++ n.fraction.getD [] ≠ []
  /-- The nearest double is finite. -/
  isFinite : (Binary64.ofNumeral n).isFinite = true

namespace Numeral

theorem mem_text {n : Numeral} {c : Char} (h : c ∈ n.whole ++ n.fraction.getD []) : c ∈ n.text := by
  rcases n with ⟨whole, fraction⟩
  cases fraction with
  | none => simpa [text] using h
  | some digits =>
    rcases List.mem_append.1 h with h | h
    · simp [text, h]
    · exact List.mem_append_right _ (List.mem_cons_of_mem _ h)

theorem IsTypable.wellFormed {n : Numeral} (h : n.IsTypable) : n.WellFormed :=
  ⟨fun c hc => Text.isDecimalDigit_of_isDigit c (h.isDigit c hc), h.ne_nil⟩

theorem IsTypable.eq_point_or_isDigit {n : Numeral} (h : n.IsTypable) {c : Char}
    (hc : c ∈ n.text) : c = '.' ∨ c.isDigit = true := by
  rcases n with ⟨whole, fraction⟩
  have hdigit := h.isDigit
  cases fraction with
  | none => exact .inr (hdigit c (by simpa [text] using hc))
  | some digits =>
    have hmem : c ∈ whole ∨ c = '.' ∨ c ∈ digits := by simpa [text] using hc
    rcases hmem with hwhole | hpoint | hdigits
    · exact .inr (hdigit c (by simp [hwhole]))
    · exact .inl hpoint
    · exact .inr (hdigit c (by simp [hdigits]))

end Numeral

namespace Expr

/-- The numerals of an expression, from left to right. -/
def numerals : Expr → List Numeral
  | number n => [n]
  | constant _ => []
  | negate x | percent x | factorial x | apply _ x => x.numerals
  | binary _ x y => x.numerals ++ y.numerals

/-- The canonical text of an expression: the operands of signs in parentheses
    of their own, everything else as calls and words. -/
def written : Expr → List Char
  | number n => n.text
  | constant c => c.name
  | negate x => '-' :: Formula.enclosed x.written
  | percent x => Shorthand.call Callee.percent.name x.written
  | factorial x => Shorthand.call Callee.factorial.name x.written
  | apply f x => Shorthand.call f.name x.written
  | binary op x y => Formula.enclosed x.written ++ op.symbol ++ Formula.enclosed y.written

end Expr

namespace Lexeme

/-- Lexemes in parentheses. -/
def enclosed (ts : List Lexeme) : List Lexeme :=
  leftParen :: (ts ++ [rightParen])

theorem flatMap_text_enclosed (ts : List Lexeme) :
    (enclosed ts).flatMap text = Formula.enclosed (ts.flatMap text) := by
  simp [enclosed, Formula.enclosed, text]

/-- What may stand in a text that is typed and is canonical already: it is
    found, none of it is dropped, and none of it is shorthand. -/
structure IsCanonical (t : Lexeme) : Prop where
  wellFormed : t.WellFormed
  accepts : ∀ c ∈ t.text, Keypad.accepts c = true
  not_shorthand : ∀ c ∈ t.text, c ∉ Shorthand.shorthandSigns

theorem isCanonical_number {n : Numeral} (h : n.IsTypable) : (number n).IsCanonical := by
  refine ⟨h.wellFormed, fun c hc => ?_, fun c hc hin => ?_⟩
  · rcases h.eq_point_or_isDigit hc with rfl | hdigit
    · decide
    · simp [Keypad.accepts, Char.isAlphanum, hdigit]
  · rcases h.eq_point_or_isDigit hc with rfl | hdigit
    · exact absurd hin (by decide)
    · have hno : ∀ d ∈ Shorthand.shorthandSigns, d.isDigit = false := forall_mem_of_all (by decide)
      rw [hno c hin] at hdigit
      exact absurd hdigit (by simp)

theorem isCanonical_word {letters : List Char} (hne : letters ≠ [])
    (h : ∀ c ∈ letters, c.isAlpha = true) : (word letters).IsCanonical := by
  refine ⟨⟨hne, h⟩, fun c hc => by simp [Keypad.accepts, Char.isAlphanum, h c hc], ?_⟩
  intro c hc hin
  have hno : ∀ d ∈ Shorthand.shorthandSigns, d.isAlpha = false := forall_mem_of_all (by decide)
  have halpha := h c hc
  rw [hno c hin] at halpha
  exact absurd halpha (by simp)

theorem isCanonical_constant (c : Constant) : (word c.name).IsCanonical := by
  cases c <;> exact isCanonical_word (by decide) (forall_mem_of_all (by decide))

theorem isCanonical_callee (f : Callee) : (word f.name).IsCanonical := by
  cases f with
  | elementary function =>
    cases function <;> exact isCanonical_word (by decide) (forall_mem_of_all (by decide))
  | _ => exact isCanonical_word (by decide) (forall_mem_of_all (by decide))

theorem isCanonical_operator (op : BinaryOp) : (operator op).IsCanonical := by
  cases op <;>
    exact ⟨trivial, forall_mem_of_all (by decide), forall_mem_of_all (by decide)⟩

theorem isCanonical_leftParen : leftParen.IsCanonical :=
  ⟨trivial, forall_mem_of_all (by decide), forall_mem_of_all (by decide)⟩

theorem isCanonical_rightParen : rightParen.IsCanonical :=
  ⟨trivial, forall_mem_of_all (by decide), forall_mem_of_all (by decide)⟩

theorem isCanonical_enclosed {ts : List Lexeme} (h : ∀ t ∈ ts, t.IsCanonical) :
    ∀ t ∈ enclosed ts, t.IsCanonical := by
  intro t ht
  have hmem : t = leftParen ∨ t ∈ ts ∨ t = rightParen := by simpa [enclosed] using ht
  rcases hmem with rfl | ht | rfl
  · exact isCanonical_leftParen
  · exact h t ht
  · exact isCanonical_rightParen

end Lexeme

/-- An operation between two atoms. -/
theorem Grammar.Derives.operation {ts us : List Lexeme} {x y : Expr} (op : BinaryOp)
    (hl : Derives .primary ts x) (hr : Derives .primary us y) :
    Derives .expression (ts ++ .operator op :: us) (.binary op x y) := by
  have hleft : Derives .unary ts x := .ofPower (.ofPrimary hl)
  have hright : Derives .unary us y := .ofPower (.ofPrimary hr)
  cases op with
  | add => exact .sum .add (.inl rfl) (.ofTerm (.ofUnary hleft)) (.ofUnary hright)
  | sub => exact .sum .sub (.inr rfl) (.ofTerm (.ofUnary hleft)) (.ofUnary hright)
  | mul => exact .ofTerm (.product .mul (.inl rfl) (.ofUnary hleft) hright)
  | div => exact .ofTerm (.product .div (.inr rfl) (.ofUnary hleft) hright)
  | pow => exact .ofTerm (.ofUnary (.ofPower (.power hl hright)))

namespace Expr

open Grammar

/-- The lexemes that make up the canonical text of an expression. -/
def lexemes : Expr → List Lexeme
  | number n => [.number n]
  | constant c => [.word c.name]
  | negate x => .operator .sub :: Lexeme.enclosed x.lexemes
  | percent x => .word Callee.percent.name :: Lexeme.enclosed x.lexemes
  | factorial x => .word Callee.factorial.name :: Lexeme.enclosed x.lexemes
  | apply f x => .word f.name :: Lexeme.enclosed x.lexemes
  | binary op x y => Lexeme.enclosed x.lexemes ++ .operator op :: Lexeme.enclosed y.lexemes

theorem written_eq (tree : Expr) : tree.written = tree.lexemes.flatMap Lexeme.text := by
  induction tree with
  | number n => simp [written, lexemes, Lexeme.text]
  | constant c => simp [written, lexemes, Lexeme.text]
  | negate x ih =>
    rw [written, lexemes, List.flatMap_cons, Lexeme.flatMap_text_enclosed, ← ih]
    rfl
  -- A call is a word in front of a text in parentheses.
  | percent x ih | factorial x ih | apply f x ih =>
    rw [written, lexemes, List.flatMap_cons, Lexeme.flatMap_text_enclosed, ← ih]
    rfl
  | binary op x y ihx ihy =>
    rw [written, lexemes, List.flatMap_append, List.flatMap_cons, Lexeme.flatMap_text_enclosed,
      Lexeme.flatMap_text_enclosed, ← ihx, ← ihy, List.append_assoc]
    rfl

theorem isCanonical_of_mem_lexemes {tree : Expr} (h : ∀ n ∈ tree.numerals, n.IsTypable) :
    ∀ t ∈ tree.lexemes, t.IsCanonical := by
  induction tree with
  | number n =>
    exact List.forall_mem_singleton.2 (Lexeme.isCanonical_number (h n (by simp [numerals])))
  | constant c => exact List.forall_mem_singleton.2 (Lexeme.isCanonical_constant c)
  | negate x ih =>
    exact List.forall_mem_cons.2
      ⟨Lexeme.isCanonical_operator .sub, Lexeme.isCanonical_enclosed (ih h)⟩
  | percent x ih =>
    exact List.forall_mem_cons.2
      ⟨Lexeme.isCanonical_callee .percent, Lexeme.isCanonical_enclosed (ih h)⟩
  | factorial x ih =>
    exact List.forall_mem_cons.2
      ⟨Lexeme.isCanonical_callee .factorial, Lexeme.isCanonical_enclosed (ih h)⟩
  | apply f x ih =>
    exact List.forall_mem_cons.2
      ⟨Lexeme.isCanonical_callee (.elementary f), Lexeme.isCanonical_enclosed (ih h)⟩
  | binary op x y ihx ihy =>
    have hx := ihx fun n hn => h n (by simp [numerals, hn])
    have hy := ihy fun n hn => h n (by simp [numerals, hn])
    refine List.forall_mem_append.2 ⟨Lexeme.isCanonical_enclosed hx, ?_⟩
    exact List.forall_mem_cons.2 ⟨Lexeme.isCanonical_operator op, Lexeme.isCanonical_enclosed hy⟩

/-- The canonical text is derived, operand by operand. -/
theorem derives_lexemes {tree : Expr} (h : ∀ n ∈ tree.numerals, n.IsTypable) :
    Derives .expression tree.lexemes tree := by
  induction tree with
  | number n => exact (Derives.number n (h n (by simp [numerals])).isFinite).toExpression
  | constant c => exact (Derives.constant c).toExpression
  | negate x ih => exact (Derives.minus (.ofPower (.ofPrimary (.group (ih h))))).toExpression
  | percent x ih => exact (Derives.call .percent (ih h)).toExpression
  | factorial x ih => exact (Derives.call .factorial (ih h)).toExpression
  | apply f x ih => exact (Derives.call (.elementary f) (ih h)).toExpression
  | binary op x y ihx ihy =>
    exact .operation op (.group (ihx fun n hn => h n (by simp [numerals, hn])))
      (.group (ihy fun n hn => h n (by simp [numerals, hn])))

section

variable {tree : Expr} (h : ∀ n ∈ tree.numerals, n.IsTypable)

include h

theorem clean_written : Keypad.clean tree.written = tree.written := by
  refine Keypad.clean_of_accepted _ fun c hc => ?_
  rw [written_eq] at hc
  rcases List.mem_flatMap.1 hc with ⟨t, ht, hct⟩
  exact (isCanonical_of_mem_lexemes h t ht).accepts c hct

theorem not_shorthand_of_mem_written : ∀ c ∈ tree.written, c ∉ Shorthand.shorthandSigns := by
  intro c hc
  rw [written_eq] at hc
  rcases List.mem_flatMap.1 hc with ⟨t, ht, hct⟩
  exact (isCanonical_of_mem_lexemes h t ht).not_shorthand c hct

/-- Nothing is nested where there is no shorthand, so every limit will do. -/
theorem expandWithin_written (limit : NestingLimit) :
    Formula.expandWithin limit tree.written = .ok tree.written := by
  have hshorthand := not_shorthand_of_mem_written h
  refine Formula.expandWithin_eq_ok.2 ⟨?_, (Shorthand.expand_eq_self hshorthand).symm⟩
  rw [Shorthand.nesting_eq_zero hshorthand, NestingLimit.admits_zero]

/-- The canonical text of an expression denotes it. -/
theorem parse_written : Formula.parse none tree.written = .ok tree := by
  have hderives := derives_lexemes h
  have hwf := fun t ht => (isCanonical_of_mem_lexemes h t ht).wellFormed
  rcases Token.scan_flatMap_text hwf hderives.isChain with ⟨tokens, hscan, htokens⟩
  rw [← written_eq] at hscan
  rw [Formula.parse, hscan]
  exact ofTokens_of_derives (htokens ▸ hderives)

/-- Different expressions are written differently. -/
theorem eq_of_written_eq {other : Expr} (hother : ∀ n ∈ other.numerals, n.IsTypable)
    (heq : tree.written = other.written) : tree = other := by
  have hsame := parse_written h
  rw [heq, parse_written hother] at hsame
  exact (Except.ok.inj hsame).symm

end

end Expr

/-- The numerals of what is derived are among the lexemes, and in range. -/
theorem Grammar.Derives.number_mem {c : Category} {ts : List Lexeme} {x : Expr}
    (h : Derives c ts x) :
    ∀ n ∈ x.numerals, .number n ∈ ts ∧ (Binary64.ofNumeral n).isFinite = true := by
  have hbinary {ts us : List Lexeme} {op : BinaryOp} {x y : Expr} {n : Numeral}
      (hn : n ∈ x.numerals ++ y.numerals)
      (hx : ∀ n ∈ x.numerals, .number n ∈ ts ∧ (Binary64.ofNumeral n).isFinite = true)
      (hy : ∀ n ∈ y.numerals, .number n ∈ us ∧ (Binary64.ofNumeral n).isFinite = true) :
      .number n ∈ ts ++ .operator op :: us ∧ (Binary64.ofNumeral n).isFinite = true := by
    rcases List.mem_append.1 hn with hn | hn
    · exact ⟨by simp [(hx n hn).1], (hx n hn).2⟩
    · exact ⟨by simp [(hy n hn).1], (hy n hn).2⟩
  induction h with
  | ofTerm _ ih | ofUnary _ ih | ofPower _ ih | ofPrimary _ ih => exact ih
  | sum op _ _ _ ihl ihr => exact fun n hn => hbinary hn ihl ihr
  | product op _ _ _ ihl ihr => exact fun n hn => hbinary hn ihl ihr
  | power _ _ ihl ihr => exact fun n hn => hbinary hn ihl ihr
  | minus _ ih | plus _ ih => exact fun n hn => ⟨List.mem_cons_of_mem _ (ih n hn).1, (ih n hn).2⟩
  | number n hfinite =>
    intro m hm
    obtain rfl : m = n := by simpa [Expr.numerals] using hm
    exact ⟨by simp, hfinite⟩
  | constant c => exact fun n hn => absurd hn (by simp [Expr.numerals])
  | group _ ih => exact fun n hn => ⟨by simp [(ih n hn).1], (ih n hn).2⟩
  | @call _ x f _ ih =>
    intro n hn
    have harg : n ∈ x.numerals := by cases f <;> exact hn
    exact ⟨by simp [(ih n harg).1], (ih n harg).2⟩

/-- The keypad has the ASCII digits only. -/
theorem Keypad.isDigit_of_accepts {c : Char} (h : accepts c = true)
    (hdigit : Text.isDecimalDigit c = true) : c.isDigit = true := by
  have hsigns : ∀ c ∈ signs, Text.isDecimalDigit c = false := forall_mem_of_all (by decide)
  simp only [accepts, Char.isAlphanum, Text.isAlpha_of_isDecimalDigit hdigit, Bool.false_or,
    Bool.or_eq_true, List.contains_iff_mem] at h
  rcases h with h | h
  · exact h
  · exact absurd hdigit (by simp [hsigns c h])

namespace Formula

/-- Every expression can be written and is read back unchanged: cleaning and
    expanding leave its canonical text as it is, under every limit of nesting,
    and what is scanned and read is the expression. -/
theorem read_written (tree : Expr) (h : ∀ n ∈ tree.numerals, n.IsTypable) :
    Keypad.clean tree.written = tree.written ∧
      (∀ limit, expandWithin limit tree.written = .ok tree.written) ∧
      parse none tree.written = .ok tree ∧ read none tree.written = .ok tree := by
  refine ⟨Expr.clean_written h, Expr.expandWithin_written h, Expr.parse_written h, ?_⟩
  rw [read, Expr.clean_written h, Expr.expandWithin_written h]
  exact Expr.parse_written h

/-- The root of a half, raised to the opposite of a product of two calls. -/
def powerOfRoot : Expr :=
  .binary .pow (.apply .sqrt (.number ⟨[], some ['5']⟩))
    (.negate (.binary .mul (.factorial (.number ⟨['3'], some []⟩)) (.percent (.constant .pi))))

/-- Points at either end of a numeral, a minus sign behind a power sign, and
    calls of each kind. -/
theorem read_written_powerOfRoot :
    powerOfRoot.written = "(sqrt(.5))**(-((fact(3.))*(pct(pi))))".toList ∧
      (∀ n ∈ powerOfRoot.numerals, n.IsTypable) ∧
      read none powerOfRoot.written = .ok powerOfRoot := by
  have htypable : ∀ n ∈ powerOfRoot.numerals, n.IsTypable := by
    have hhalf : Numeral.IsTypable ⟨[], some ['5']⟩ :=
      ⟨forall_mem_of_all (by decide), by decide, by decide +kernel⟩
    have hthree : Numeral.IsTypable ⟨['3'], some []⟩ :=
      ⟨forall_mem_of_all (by decide), by decide, by decide +kernel⟩
    simp [powerOfRoot, Expr.numerals, hhalf, hthree]
  exact ⟨by decide, htypable, (read_written powerOfRoot htypable).2.2.2⟩

/-- What is typed is read with numerals that can be typed. -/
theorem isTypable_of_read {typed : List Char} {tree : Expr} (h : read none typed = .ok tree) :
    ∀ n ∈ tree.numerals, n.IsTypable := by
  intro n hn
  rcases exists_of_bind_eq_ok h with ⟨canonical, hexpand, hparse⟩
  rcases exists_of_bind_eq_ok hparse with ⟨tokens, hscan, htokens⟩
  obtain ⟨-, rfl⟩ := expandWithin_eq_ok.1 hexpand
  rcases Token.flatMap_text_of_scan Typed.isBlank_of_mem_expand hscan with ⟨htext, hwf⟩
  rcases (Expr.derives_of_ofTokens htokens).number_mem n hn with ⟨hmem, hfinite⟩
  have hwellFormed : n.WellFormed := hwf _ hmem
  -- The digits of the numeral stand in a text of accepted characters.
  have haccepts : ∀ c ∈ Shorthand.expand (Keypad.clean typed), Keypad.accepts c = true :=
    Shorthand.accepts_of_mem_expand fun c hc => (List.mem_filter.1 hc).2
  refine ⟨fun c hc => ?_, hwellFormed.2, hfinite⟩
  refine Keypad.isDigit_of_accepts (haccepts c ?_) (hwellFormed.1 c hc)
  rw [← htext]
  exact List.mem_flatMap.2 ⟨_, hmem, Numeral.mem_text hc⟩

/-- Typing in full what was read changes nothing. -/
theorem read_written_of_read {typed : List Char} {tree : Expr} (h : read none typed = .ok tree) :
    read none tree.written = .ok tree := by
  have htypable := isTypable_of_read h
  rw [read, Expr.clean_written htypable, Expr.expandWithin_written htypable]
  exact Expr.parse_written htypable

end Formula

end Calculator
