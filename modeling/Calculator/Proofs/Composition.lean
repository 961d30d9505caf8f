import Calculator.Proofs.Canonical
import Calculator.Proofs.Insertion
import Calculator.Proofs.Nesting
import Calculator.Proofs.Parentheses

/-!
# Expanding what is in parentheses

Shorthand is expanded along the text, and what becomes of a character depends
on what stands before and behind it: a minus sign may belong to a factorial, a
numeral goes as far as it can, and a root sign looks for the end of a group.
None of this looks past a parenthesis in the wrong direction. The opening one
makes a place like the start of a text, and a closing one ends numerals and
names as the end of the text does. Only the search for the end of a group goes
past closing parentheses, but in balanced text every group ends before one that
was opened outside.

So balanced text in parentheses is expanded to its expansion in parentheses,
whatever else it may be.

## Theorems

* `Shorthand.Mark.expand_enclosed`: Marks in parentheses.
* `Shorthand.rootOperand?_append`: What a root sign in parentheses reaches.
* `Shorthand.expandRoots_enclosed`: Root signs in parentheses.
* `Formula.expand_compositional`: Expanding goes from the operands to a formula.
-/

namespace Calculator

section

variable {p : Char → Bool} {x : Char} (hx : p x = false)

include hx

theorem takeWhile_append_stop (text rest : List Char) :
    (text ++ x :: rest).takeWhile p = text.takeWhile p := by
  induction text with
  | nil => simp [hx]
  | cons c text ih =>
    rw [List.cons_append, List.takeWhile_cons, List.takeWhile_cons, ih]

theorem dropWhile_append_stop (text rest : List Char) :
    (text ++ x :: rest).dropWhile p = text.dropWhile p ++ x :: rest := by
  induction text with
  | nil => simp [hx]
  | cons c text ih =>
    rw [List.cons_append, List.dropWhile_cons, List.dropWhile_cons, ih]
    split <;> rfl

end

namespace Numeral

/-- The digits at the start of a text are a numeral if no point follows. -/
theorem scan?_of_ne_point {text : List Char}
    (h : (text.dropWhile Text.isDecimalDigit).head? ≠ some '.') :
    scan? text = if (text.takeWhile Text.isDecimalDigit).isEmpty then none
      else some (⟨text.takeWhile Text.isDecimalDigit, none⟩,
        text.dropWhile Text.isDecimalDigit) := by
  simp only [scan?]
  split
  · rename_i heq
    exact absurd (by rw [heq]; rfl) h
  · rfl

/-- A numeral is scanned alike if another character follows the text. -/
theorem scan?_append {x : Char} (hx : isPart x = false) (text rest : List Char) :
    scan? (text ++ x :: rest) = (scan? text).map fun split => (split.1, split.2 ++ x :: rest) := by
  obtain ⟨hdigit, hpoint⟩ : Text.isDecimalDigit x = false ∧ x ≠ '.' := by simpa [isPart] using hx
  have hdrop := dropWhile_append_stop hdigit text rest
  by_cases h : (text.dropWhile Text.isDecimalDigit).head? = some '.'
  · -- The digits behind the point end before the other character as well.
    obtain ⟨behind, hbehind⟩ := List.head?_eq_some_iff.1 h
    rw [hbehind, List.cons_append] at hdrop
    simp only [scan?, hdrop, hbehind, takeWhile_append_stop hdigit, dropWhile_append_stop hdigit]
    split <;> rfl
  · have hhead : ((text ++ x :: rest).dropWhile Text.isDecimalDigit).head? ≠ some '.' := by
      rw [hdrop]
      cases htext : text.dropWhile Text.isDecimalDigit with
      | nil => simpa using hpoint
      | cons c behind => simpa [htext] using h
    rw [scan?_of_ne_point hhead, scan?_of_ne_point h, takeWhile_append_stop hdigit, hdrop]
    split <;> rfl

end Numeral

theorem Formula.enclosed_append (text rest : List Char) :
    enclosed text ++ rest = '(' :: (text ++ ')' :: rest) := by
  simp [enclosed]

namespace Shorthand

/-! ### Marks -/

namespace Mark

variable {m : Mark}

/-- Only whether a minus sign would be unary is seen of what stands before. -/
theorem expand_congr {before other : Option Char}
    (h : isUnaryPlace before = isUnaryPlace other) (text : List Char) :
    m.expand before text = m.expand other text := by
  have hoperand : m.operand? before text = m.operand? other text := by
    unfold operand?
    rw [h]
  cases hsplit : m.operand? other text with
  | some split => rw [expand_of_some (hoperand.trans hsplit), expand_of_some hsplit]
  | none =>
    cases text with
    | nil => rw [expand_nil, expand_nil]
    | cons c text => rw [expand_of_none (hoperand.trans hsplit), expand_of_none hsplit]

/-- A parenthesis behind the text is no mark and ends all numerals. -/
theorem marked?_append (hm : m.sign ≠ ')') (text rest : List Char) :
    m.marked? (text ++ ')' :: rest) =
      (m.marked? text).map fun split => (split.1, split.2 ++ ')' :: rest) := by
  rw [marked?, marked?, Numeral.scan?_append (by decide)]
  cases Numeral.scan? text with
  | none => rfl
  | some split =>
    obtain ⟨n, behind⟩ := split
    cases behind with
    | nil => simp [Ne.symm hm]
    | cons c behind =>
      simp only [Option.map_some, List.cons_append]
      split <;> rfl

/-- No operand of a mark starts with another character than a minus sign, a
    digit or a point. -/
theorem operand?_of_stop {c : Char} (hminus : c ≠ '-') (hpart : Numeral.isPart c = false)
    (before : Option Char) (text : List Char) : m.operand? before (c :: text) = none := by
  rw [operand?_of_ne_minus m before hminus, marked?_cons_of_not_isPart m hpart]

theorem operand?_append (hm : m.sign ≠ ')') (before : Option Char) (text rest : List Char) :
    m.operand? before (text ++ ')' :: rest) =
      (m.operand? before text).map fun split => (split.1, split.2 ++ ')' :: rest) := by
  cases text with
  | nil =>
    rw [List.nil_append, operand?_of_stop (by decide) (by decide)]
    rfl
  | cons c text =>
    by_cases hc : c = '-'
    · subst hc
      simp only [List.cons_append, operand?, marked?_append hm]
      split
      · cases m.marked? text <;> rfl
      · rfl
    · rw [List.cons_append, operand?_of_ne_minus m before hc, operand?_of_ne_minus m before hc,
        ← List.cons_append, marked?_append hm]

/-- What stands before a closing parenthesis is expanded as before the end. -/
theorem expand_append (hm : m.sign ≠ ')') (before : Option Char) (text rest : List Char) :
    m.expand before (text ++ ')' :: rest) =
      m.expand before text ++ ')' :: m.expand (some ')') rest := by
  fun_induction expand m before text with
  | case1 before text operand behind hoperand ih =>
    have hsplit := operand?_append hm before text rest
    rw [hoperand, Option.map_some] at hsplit
    rw [expand_of_some hsplit, ih, List.append_assoc]
  | case2 => exact expand_of_none (operand?_of_stop (by decide) (by decide) _ _)
  | case3 before c text hnone ih =>
    have hsplit := operand?_append hm before (c :: text) rest
    rw [hnone, Option.map_none, List.cons_append] at hsplit
    rw [List.cons_append, expand_of_none hsplit, ih]
    rfl

theorem marked?_front {front : List Char} (h : ∀ c ∈ front, Numeral.isPart c = false)
    (rest : List Char) : m.marked? (front ++ '(' :: rest) = none := by
  cases front with
  | nil => exact marked?_cons_of_not_isPart m (by decide) rest
  | cons c front => exact marked?_cons_of_not_isPart m (h c (by simp)) _

/-- Characters that are no part of a numeral are copied before a parenthesis,
    minus signs among them. -/
theorem expand_front {front : List Char} (h : ∀ c ∈ front, Numeral.isPart c = false)
    (before : Option Char) (rest : List Char) :
    m.expand before (front ++ '(' :: rest) = front ++ '(' :: m.expand (some '(') rest := by
  induction front generalizing before with
  | nil => exact expand_of_none (operand?_of_stop (by decide) (by decide) _ _)
  | cons c front ih =>
    have hfront : ∀ d ∈ front, Numeral.isPart d = false := fun d hd => h d (by simp [hd])
    rw [List.cons_append, List.cons_append, expand_of_none, ih hfront]
    by_cases hc : c = '-'
    · subst hc
      rw [operand?, marked?_front hfront]
      split <;> rfl
    · exact operand?_of_stop hc (h c (by simp)) _ _

/-- Marks in parentheses, with what stands before them and behind them: inside
    they are expanded as in a text of their own. -/
theorem expand_enclosed (hm : m.sign ≠ ')') (front : List Char)
    (hfront : ∀ c ∈ front, Numeral.isPart c = false) (before : Option Char)
    (text rest : List Char) :
    m.expand before (front ++ Formula.enclosed text ++ rest) =
      front ++ Formula.enclosed (m.expand none text) ++ m.expand (some ')') rest := by
  have hstart : isUnaryPlace (some '(') = isUnaryPlace none := by decide
  have hinside := expand_append hm (some '(') text rest
  rw [expand_congr hstart text] at hinside
  rw [List.append_assoc, Formula.enclosed_append, expand_front hfront, hinside, List.append_assoc,
    Formula.enclosed_append]

end Mark

theorem expandMarks_enclosed (front : List Char) (hfront : ∀ c ∈ front, Numeral.isPart c = false)
    (text : List Char) :
    expandMarks (front ++ Formula.enclosed text) =
      front ++ Formula.enclosed (expandMarks text) := by
  have hpass {m : Mark} (hm : m.sign ≠ ')') (text : List Char) :
      m.expand none (front ++ Formula.enclosed text) =
        front ++ Formula.enclosed (m.expand none text) := by
    have := Mark.expand_enclosed hm front hfront none text []
    rwa [List.append_nil, Mark.expand_nil, List.append_nil] at this
  simp only [expandMarks, Mark.calls_eq]
  rw [hpass (by decide), hpass (by decide)]

/-- Two texts in parentheses with the sign of an operation between them. -/
theorem expandMarks_operation {c : Char} (hc : Numeral.isPart c = false)
    (left right : List Char) :
    expandMarks (Formula.enclosed left ++ c :: Formula.enclosed right) =
      Formula.enclosed (expandMarks left) ++ c :: Formula.enclosed (expandMarks right) := by
  have hpass {m : Mark} (hm : m.sign ≠ ')') (left right : List Char) :
      m.expand none (Formula.enclosed left ++ c :: Formula.enclosed right) =
        Formula.enclosed (m.expand none left) ++ c :: Formula.enclosed (m.expand none right) := by
    have hright := Mark.expand_enclosed hm [c] (by simpa using hc) (some ')') right []
    have hleft := Mark.expand_enclosed hm [] (by simp) none left (c :: Formula.enclosed right)
    rw [List.append_nil, Mark.expand_nil, List.append_nil] at hright
    rw [List.nil_append] at hleft
    rw [hleft]
    exact congrArg _ hright
  simp only [expandMarks, Mark.calls_eq]
  rw [hpass (by decide), hpass (by decide)]

/-! ### Root signs -/

/-- A name in parentheses, and the group behind it. -/
theorem named?_append_close {text : List Char} (h : Text.Closing text) (rest : List Char) :
    named? (text ++ ')' :: rest) =
      (named? text).map fun split => (split.1, split.2 ++ ')' :: rest) := by
  have hclose : Text.isLetter ')' = false := by decide
  have hbehind : Text.Closing (text.dropWhile Text.isLetter) :=
    h.of_suffix (List.dropWhile_suffix _)
  have hhead : (text.dropWhile Text.isLetter ++ ')' :: rest).head? = some '(' ↔
      (text.dropWhile Text.isLetter).head? = some '(' := by
    cases text.dropWhile Text.isLetter <;> simp
  simp only [named?, takeWhile_append_stop hclose, dropWhile_append_stop hclose, hhead]
  split
  · rw [group?_append hbehind]
    cases group? (text.dropWhile Text.isLetter) <;> rfl
  · split <;> rfl

/-- What a root sign in parentheses reaches ends in them, if they close all
    that is open: a root sign never looks for the end of their own group. -/
theorem rootOperand?_append {text : List Char} (h : Text.Closing text) (rest : List Char) :
    rootOperand? (text ++ ')' :: rest) =
      (rootOperand? text).map fun split => (split.1, split.2 ++ ')' :: rest) := by
  induction text with
  | nil =>
    rw [List.nil_append, rootOperand?_of_name (by decide) (by decide) (by decide)]
    exact named?_append_close h rest
  | cons c text ih =>
    rw [List.cons_append, rootOperand?, rootOperand?]
    split
    · rw [ih h.tail]
      cases rootOperand? text <;> rfl
    · split
      · rw [← List.cons_append, Numeral.scan?_append (by decide)]
        cases Numeral.scan? (c :: text) <;> rfl
      · rw [← List.cons_append, named?_append_close h]

/-- Root signs before a closing parenthesis are expanded as before the end. -/
theorem expandRoots_append_close {text : List Char} (h : Text.Closing text) (rest : List Char) :
    expandRoots (text ++ ')' :: rest) = expandRoots text ++ ')' :: expandRoots rest := by
  fun_induction expandRoots text with
  | case1 =>
    rw [List.nil_append, expandRoots, if_neg (by decide)]
    rfl
  | case2 text operand tail hsplit _ ih =>
    have hoperand := rootOperand?_append h.tail rest
    rw [hsplit, Option.map_some] at hoperand
    have htail : Text.Closing tail :=
      h.tail.of_suffix ⟨operand, append_of_rootOperand? hsplit⟩
    rw [List.cons_append, expandRoots_root hoperand, ih htail, List.append_assoc]
  | case3 text hnone ih =>
    have hoperand := rootOperand?_append h.tail rest
    rw [hnone, Option.map_none] at hoperand
    rw [List.cons_append, expandRoots_bare hoperand, ih h.tail, List.append_assoc]
  | case4 c text hc ih =>
    rw [List.cons_append, expandRoots, if_neg hc, ih h.tail]
    rfl

/-- Root signs in parentheses are expanded in them. -/
theorem expandRoots_enclosed {text : List Char} (h : Text.Closing text) (rest : List Char) :
    expandRoots (Formula.enclosed text ++ rest) =
      Formula.enclosed (expandRoots text) ++ expandRoots rest := by
  have hinside := expandRoots_append_close h rest
  rw [Formula.enclosed_append, expandRoots, if_neg (by decide), hinside, Formula.enclosed_append]

theorem rootRun_append_close (text rest : List Char) :
    rootRun (text ++ ')' :: rest) = rootRun text := by
  rw [rootRun, takeWhile_append_stop (by decide), rootRun]

/-- Root signs before a closing parenthesis are nested as before the end. -/
theorem rootDepth_append_close {text : List Char} (h : Text.Closing text) (rest : List Char) :
    rootDepth (text ++ ')' :: rest) = max (rootDepth text) (rootDepth rest) := by
  fun_induction rootDepth text with
  | case1 => rw [List.nil_append, rootDepth, if_neg (by decide), Nat.zero_max]
  | case2 text operand tail hsplit _ ih =>
    have hoperand := rootOperand?_append h.tail rest
    rw [hsplit, Option.map_some] at hoperand
    have htail : Text.Closing tail :=
      h.tail.of_suffix ⟨operand, append_of_rootOperand? hsplit⟩
    rw [List.cons_append, rootDepth_operand hoperand, ih htail, rootRun_append_close,
      rootRun_cons, if_pos rfl, Nat.max_assoc, Nat.max_assoc]
  | case3 text hnone ih =>
    have hoperand := rootOperand?_append h.tail rest
    rw [hnone, Option.map_none] at hoperand
    rw [List.cons_append, rootDepth_bare hoperand, ih h.tail, rootRun_append_close, rootRun_cons,
      if_pos rfl, Nat.max_assoc]
  | case4 c text hc ih => rw [List.cons_append, rootDepth, if_neg hc, ih h.tail]

theorem rootDepth_append {front : List Char} (h : ∀ c ∈ front, c ≠ '√') (rest : List Char) :
    rootDepth (front ++ rest) = rootDepth rest := by
  induction front with
  | nil => rfl
  | cons c front ih =>
    rw [List.cons_append, rootDepth, if_neg (h c (by simp)), ih fun d hd => h d (by simp [hd])]

/-- Root signs in parentheses are nested as in a text of their own. -/
theorem rootDepth_enclosed {text : List Char} (h : Text.Closing text) (rest : List Char) :
    rootDepth (Formula.enclosed text ++ rest) = max (rootDepth text) (rootDepth rest) := by
  rw [Formula.enclosed_append, rootDepth, if_neg (by decide), rootDepth_append_close h]

/-- A balanced text in parentheses is what a root sign in front of it reaches. -/
theorem rootOperand?_enclosed {text : List Char} (h : Text.Balanced text) :
    rootOperand? (Formula.enclosed text) = some (Formula.enclosed text, []) := by
  have hclose := closeFrom?_balanced (Text.balanced_iff.1 h) [')']
  rw [Formula.enclosed, Typed.rootOperand?_group, group?, hclose]
  rfl

theorem respell_cons (c : Char) (text : List Char) :
    respell (c :: text) = respelled c ++ respell text := rfl

theorem respell_enclosed (text : List Char) :
    respell (Formula.enclosed text) = Formula.enclosed (respell text) := by
  simp [Formula.enclosed, respell, respelled]

/-! ### All passes -/

/-- Marks leave a balanced text balanced. -/
theorem balanced_expandMarks {text : List Char} (h : Text.Balanced text) :
    Text.Balanced (expandMarks text) := by
  rw [Text.balanced_iff, depth?_expandMarks]
  exact Text.balanced_iff.1 h

theorem ne_respelled_of_isAlpha {letters : List Char} (h : ∀ c ∈ letters, c.isAlpha = true) :
    ∀ c ∈ letters, c ≠ '√' ∧ c ≠ '^' ∧ c ≠ 'π' := by
  have hno : ∀ d ∈ ['√', '^', 'π'], d.isAlpha = false := forall_mem_of_all (by decide)
  have hne {c d : Char} (hc : c ∈ letters) (hd : d ∈ ['√', '^', 'π']) : c ≠ d := by
    rintro rfl
    exact absurd (h c hc) (by simp [hno c hd])
  exact fun c hc => ⟨hne hc (by simp), hne hc (by simp), hne hc (by simp)⟩

theorem expandMarks_root (text : List Char) :
    expandMarks ('√' :: Formula.enclosed text) = '√' :: Formula.enclosed (expandMarks text) :=
  expandMarks_enclosed ['√'] (forall_mem_of_all (by decide)) text

theorem expandMarks_call {letters : List Char} (h : ∀ c ∈ letters, c.isAlpha = true)
    (text : List Char) :
    expandMarks (letters ++ Formula.enclosed text) =
      letters ++ Formula.enclosed (expandMarks text) :=
  expandMarks_enclosed letters (fun c hc => Numeral.isPart_of_isAlpha (h c hc)) text

section

variable {text : List Char} (h : Text.Balanced text)

include h

theorem expandRoots_marks_enclosed :
    expandRoots (Formula.enclosed (expandMarks text)) =
      Formula.enclosed (expandRoots (expandMarks text)) := by
  have := expandRoots_enclosed (balanced_expandMarks h).closing []
  rwa [List.append_nil, expandRoots, List.append_nil] at this

theorem rootDepth_marks_enclosed :
    rootDepth (Formula.enclosed (expandMarks text)) = nesting text := by
  have := rootDepth_enclosed (balanced_expandMarks h).closing []
  rwa [List.append_nil, rootDepth, Nat.max_zero, ← nesting] at this

/-- A balanced text in parentheses behind letters, or behind none. -/
theorem expand_call {letters : List Char} (hletters : ∀ c ∈ letters, c.isAlpha = true) :
    expand (letters ++ Formula.enclosed text) = letters ++ Formula.enclosed (expand text) := by
  have hne := ne_respelled_of_isAlpha hletters
  rw [expand, expandMarks_call hletters, expandRoots_append fun c hc => (hne c hc).1,
    respell_append, respell_eq fun c hc => (hne c hc).2, expandRoots_marks_enclosed h,
    respell_enclosed, ← expand]

theorem nesting_call {letters : List Char} (hletters : ∀ c ∈ letters, c.isAlpha = true) :
    nesting (letters ++ Formula.enclosed text) = nesting text := by
  rw [nesting, expandMarks_call hletters,
    rootDepth_append fun c hc => (ne_respelled_of_isAlpha hletters c hc).1,
    rootDepth_marks_enclosed h]

/-- A root sign in front of a balanced text in parentheses. -/
theorem expand_root :
    expand ('√' :: Formula.enclosed text) =
      rootWord ++ Formula.enclosed (Formula.enclosed (expand text)) := by
  have hcall (argument : List Char) :
      call rootWord argument = rootWord ++ Formula.enclosed argument := rfl
  have hspell : respell rootWord = rootWord := by decide
  rw [expand, expandMarks_root, expandRoots_root (rootOperand?_enclosed (balanced_expandMarks h)),
    expandRoots_marks_enclosed h, expandRoots, List.append_nil, hcall, respell_append, hspell,
    respell_enclosed, respell_enclosed, ← expand]

/-- The operand is one level further down. -/
theorem nesting_root : nesting ('√' :: Formula.enclosed text) = nesting text + 1 := by
  have hrun : rootRun (Formula.enclosed (expandMarks text)) = 0 := rfl
  rw [nesting, expandMarks_root, rootDepth_operand (rootOperand?_enclosed (balanced_expandMarks h)),
    rootDepth_marks_enclosed h, hrun, rootDepth]
  omega

/-- An operation between balanced texts in parentheses. -/
theorem expand_operation {right : List Char} (hright : Text.Balanced right) (op : BinaryOp) :
    expand (Formula.enclosed text ++ op.key :: Formula.enclosed right) =
      Formula.enclosed (expand text) ++ op.symbol ++ Formula.enclosed (expand right) := by
  have hpart : Numeral.isPart op.key = false := by cases op <;> decide
  have hroot : op.key ≠ '√' := by cases op <;> decide
  have hkey : respelled op.key = op.symbol := by cases op <;> decide
  rw [expand, expandMarks_operation hpart, expandRoots_enclosed (balanced_expandMarks h).closing,
    expandRoots, if_neg hroot, expandRoots_marks_enclosed hright, respell_append, respell_enclosed,
    respell_cons, hkey, respell_enclosed, ← expand, ← expand, List.append_assoc]

theorem nesting_operation {right : List Char} (hright : Text.Balanced right) (op : BinaryOp) :
    nesting (Formula.enclosed text ++ op.key :: Formula.enclosed right) =
      max (nesting text) (nesting right) := by
  have hpart : Numeral.isPart op.key = false := by cases op <;> decide
  have hroot : op.key ≠ '√' := by cases op <;> decide
  rw [nesting, expandMarks_operation hpart, rootDepth_enclosed (balanced_expandMarks h).closing,
    rootDepth, if_neg hroot, rootDepth_marks_enclosed hright, ← nesting]

end

end Shorthand

namespace Formula

/-- Expanding is compositional over balanced texts. What an operation, a root
    sign or a name is applied to in parentheses is expanded as it is alone, and
    it is admitted as it is alone, except that the operand of a root sign is
    one level further down. -/
theorem expand_compositional {limit : NestingLimit} {left right canonical other : List Char}
    (hleft : Text.Balanced left) (hright : Text.Balanced right)
    (hcanonical : expandWithin limit left = .ok canonical)
    (hother : expandWithin limit right = .ok other) :
    (∀ op : BinaryOp, expandWithin limit (enclosed left ++ op.key :: enclosed right) =
      .ok (enclosed canonical ++ op.symbol ++ enclosed other)) ∧
    (∀ outer : NestingLimit, outer.inner = some limit →
      expandWithin outer ('√' :: enclosed left) =
        .ok (Shorthand.rootWord ++ enclosed (enclosed canonical))) ∧
    ∀ letters : List Char, (∀ c ∈ letters, c.isAlpha = true) →
      expandWithin limit (letters ++ enclosed left) = .ok (letters ++ enclosed canonical) := by
  obtain ⟨hadmits, rfl⟩ := expandWithin_eq_ok.1 hcanonical
  obtain ⟨hadmitsOther, rfl⟩ := expandWithin_eq_ok.1 hother
  refine ⟨fun op => ?_, fun outer houter => ?_, fun letters hletters => ?_⟩
  · refine expandWithin_eq_ok.2 ⟨?_, (Shorthand.expand_operation hleft hright op).symm⟩
    rw [Shorthand.nesting_operation hleft hright, NestingLimit.admits_max, hadmits, hadmitsOther]
    rfl
  · refine expandWithin_eq_ok.2 ⟨?_, (Shorthand.expand_root hleft).symm⟩
    rw [Shorthand.nesting_root hleft, NestingLimit.admits_succ, houter]
    exact hadmits
  · refine expandWithin_eq_ok.2 ⟨?_, (Shorthand.expand_call hleft hletters).symm⟩
    rw [Shorthand.nesting_call hleft hletters]
    exact hadmits

/-- A signed factorial and a text that is no formula, a root with a percentage
    right behind it. -/
theorem expand_compositional_power :
    Text.Balanced "-3!".toList ∧ Text.Balanced "√(9)50%".toList ∧
      expandWithin (some 1) "-3!".toList = .ok "fact(-3)".toList ∧
      expandWithin (some 1) "√(9)50%".toList = .ok "sqrt((9))pct(50)".toList ∧
      expandWithin (some 1) "(-3!)^(√(9)50%)".toList =
        .ok "(fact(-3))**(sqrt((9))pct(50))".toList ∧
      expandWithin (some 2) "√(-3!)".toList = .ok "sqrt((fact(-3)))".toList ∧
      expandWithin (some 1) "sin(-3!)".toList = .ok "sin(fact(-3))".toList := by
  have hleft : Text.Balanced "-3!".toList := Text.balanced_iff.2 (by decide)
  have hright : Text.Balanced "√(9)50%".toList := Text.balanced_iff.2 (by decide)
  have hfactorial : expandWithin (some 1) "-3!".toList = .ok "fact(-3)".toList :=
    expandWithin_eq_ok.2 ⟨by decide +kernel, by decide +kernel⟩
  have hroot : expandWithin (some 1) "√(9)50%".toList = .ok "sqrt((9))pct(50)".toList :=
    expandWithin_eq_ok.2 ⟨by decide +kernel, by decide +kernel⟩
  obtain ⟨hoperation, houter, hcall⟩ := expand_compositional hleft hright hfactorial hroot
  exact ⟨hleft, hright, hfactorial, hroot, hoperation .pow, houter (some 2) rfl,
    hcall ['s', 'i', 'n'] (forall_mem_of_all (by decide))⟩

end Formula

end Calculator
