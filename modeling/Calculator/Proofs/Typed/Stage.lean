import Calculator.Proofs.Typed.Roots

/-!
# Stages of reading typed formulas

Whether a text can be a formula is watched here character by character, with
no lexemes or pieces, but with parentheses ignored. What is watched is weak
enough to be kept by every pass of the expansion of shorthand, backwards: if
what a pass leaves can be a formula then the text before the pass can be. In
particular a pass does not run characters together that stood apart, since the
words it brings in are no parts of other words.

The power sign and the circle constant are read as they are respelled, so that
respelling changes nothing that is watched.

## Main definitions

* `Typed.Stage`: What has just been read.
* `Typed.Stage.step?`: Reading one more character.
* `Typed.Accepts`: A text that can be read to the end of a formula.

## Theorems

* `Typed.accepts_of_closed`: What stands behind an operand stands there behind
  every operand.
* `Typed.accepts_of_expandRoots`: The pass of root signs, backwards.
* `Typed.accepts_of_mark`: The passes of marks, backwards.
* `Typed.accepts_of_expand`: All passes, backwards.
-/

namespace Calculator

namespace Typed

open Shorthand (respell respelled expandRoots rootOperand? Mark)

/-- What has just been read. -/
inductive Stage
  /-- Something that an operand must follow. -/
  | operand
  /-- One asterisk, of which there may be two. -/
  | star
  /-- A root sign. -/
  | root
  /-- An operand that is complete. -/
  | closed
  /-- Digits before the point. -/
  | whole
  /-- Digits with a point among or behind them. -/
  | fraction
  /-- A point without digits. -/
  | bare
  /-- Letters with which a name starts: the first one, and those behind it. -/
  | word (first : Char) (letters : List Char)
deriving DecidableEq, Repr

namespace Stage

/-- All names. -/
def names : List (List Char) :=
  [Constant.pi, Constant.e].map Constant.name ++ Callee.all.map Callee.name

/-- Letters with which a name starts. -/
def isKnown (letters : List Char) : Bool :=
  names.any fun name => letters.isPrefixOf name

/-- The stage after a character behind an operand. -/
def behind? (c : Char) : Option Stage :=
  if c = '*' then some star
  else if c = '+' ∨ c = '-' ∨ c = '/' then some operand
  else if c = ')' then some closed
  else none

/-- The stage after a character with which an atom starts. -/
def atom? (c : Char) : Option Stage :=
  if Text.isDecimalDigit c then some whole
  else if c = '.' then some bare
  else if c = '(' then some operand
  else if c = '√' then some root
  else if isKnown [c] then some (word c [])
  else none

/-- The stage after a character with which an operand starts. -/
def operand? (c : Char) : Option Stage :=
  if c = '+' ∨ c = '-' then some operand else atom? c

/-- The stage after one more character. -/
def step? : Stage → Char → Option Stage
  | operand, c => operand? c
  | star, c => if c = '*' then some operand else operand? c
  | root, c => atom? c
  | closed, c => behind? c
  | whole, c =>
    if Text.isDecimalDigit c then some whole
    else if c = '.' then some fraction
    else if c = '!' ∨ c = '%' then some closed
    else behind? c
  | fraction, c =>
    if Text.isDecimalDigit c then some fraction
    else if c = '!' ∨ c = '%' then some closed
    else behind? c
  | bare, c => if Text.isDecimalDigit c then some fraction else none
  | word first letters, c =>
    if isKnown (first :: letters ++ [c]) then some (word first (letters ++ [c]))
    else if (Constant.ofName? (first :: letters)).isSome then behind? c
    else if (Callee.ofName? (first :: letters)).isSome ∧ c = '(' then some operand
    else none

/-- The stage after some characters. -/
def run? : Stage → List Char → Option Stage
  | q, [] => some q
  | q, c :: text => (q.step? c).bind fun r => run? r text

/-- An operand has been read, perhaps not all of it. -/
def IsFinal : Stage → Prop
  | closed | whole | fraction => True
  | word first letters => (Constant.ofName? (first :: letters)).isSome = true
  | _ => False

/-- Behind this stage an atom may start. -/
def IsOpen (q : Stage) : Prop :=
  q = operand ∨ q = star ∨ q = root

theorem run?_append (q : Stage) (s t : List Char) :
    run? q (s ++ t) = (run? q s).bind fun r => run? r t := by
  induction s generalizing q with
  | nil => rfl
  | cons c s ih =>
      rw [List.cons_append, run?, run?]
      cases q.step? c with
      | none => rfl
      | some r => exact ih r

theorem length_le_of_isKnown {letters : List Char} (h : isKnown letters = true) :
    letters.length ≤ 4 := by
  -- The longest names have four letters.
  have hnames : ∀ name ∈ names, name.length ≤ 4 := by decide
  rcases List.any_eq_true.1 h with ⟨name, hname, hp⟩
  have := (List.isPrefixOf_iff_prefix.1 hp).length_le
  have := hnames name hname
  omega

/-- Names consist of letters. -/
theorem isAlpha_of_isKnown {letters : List Char} (h : isKnown letters = true) :
    ∀ c ∈ letters, c.isAlpha = true := by
  have hnames : ∀ name ∈ names, name.all Char.isAlpha = true := by decide
  rcases List.any_eq_true.1 h with ⟨name, hname, hp⟩
  exact fun c hc =>
    List.all_eq_true.1 (hnames name hname) c ((List.isPrefixOf_iff_prefix.1 hp).subset hc)

theorem not_isKnown_append {letters : List Char} {c : Char} (hc : c.isAlpha = false) :
    isKnown (letters ++ [c]) = false := by
  rw [Bool.eq_false_iff]
  intro h
  rw [isAlpha_of_isKnown h c (by simp)] at hc
  exact absurd hc (by simp)

/-- The characters behind an operand. -/
theorem behind?_eq_some {c : Char} {q : Stage} (h : behind? c = some q) :
    c ∈ ['*', '+', '-', '/', ')'] := by
  unfold behind? at h
  split at h
  · simp [*]
  · split at h
    · rename_i hc
      rcases hc with rfl | rfl | rfl <;> simp
    · split at h
      · simp [*]
      · exact absurd h (by simp)

/-- What follows a complete operand follows every operand. -/
theorem step?_of_closed {q r : Stage} {c : Char} (hq : q.IsFinal) (h : behind? c = some r) :
    q.step? c = some r := by
  have hc := behind?_eq_some h
  -- None of them goes on with a numeral or a name, and none is a mark.
  have hclass : ∀ d ∈ ['*', '+', '-', '/', ')'], Text.isDecimalDigit d = false ∧
      d.isAlpha = false ∧ d ≠ '.' ∧ d ≠ '!' ∧ d ≠ '%' := forall_mem_of_all (by decide)
  rcases hclass c hc with ⟨hdigit, halpha, hpoint, hfactorial, hpercent⟩
  cases q with
  | closed => exact h
  | whole => simp [step?, hdigit, hpoint, hfactorial, hpercent, h]
  | fraction => simp [step?, hdigit, hfactorial, hpercent, h]
  | word first letters =>
      have hconstant : (Constant.ofName? (first :: letters)).isSome = true := hq
      rw [step?, not_isKnown_append halpha, hconstant, if_neg (by simp), if_pos rfl, h]
  | _ => exact absurd hq (by simp [IsFinal])

theorem run?_of_closed {q r : Stage} {c : Char} {s : List Char} (hq : q.IsFinal)
    (h : run? closed (c :: s) = some r) : run? q (c :: s) = some r := by
  rcases Option.bind_eq_some_iff.1 h with ⟨t, ht, hrun⟩
  rw [run?, step?_of_closed hq ht]
  exact hrun

/-- An operand is what a closing parenthesis can stand behind. -/
theorem isFinal_of_close {q r : Stage} (h : q.step? ')' = some r) : q.IsFinal ∧ r = closed := by
  have hdigit : Text.isDecimalDigit ')' = false := by decide
  have hatom : atom? ')' = none := by decide
  cases q with
  | closed => simpa [step?, behind?, IsFinal, eq_comm] using h
  | whole => simpa [step?, hdigit, behind?, IsFinal, eq_comm] using h
  | fraction => simpa [step?, hdigit, behind?, IsFinal, eq_comm] using h
  -- A parenthesis goes on with no name, so the name must be complete.
  | word first letters =>
      rw [step?, not_isKnown_append (by decide)] at h
      by_cases hc : (Constant.ofName? (first :: letters)).isSome = true
      · refine ⟨hc, ?_⟩
        simpa [hc, behind?, eq_comm] using h
      · simp [hc] at h
  | bare => simp [step?, hdigit] at h
  | _ => simp [step?, operand?, hatom] at h

/-- Letters behind letters have to continue the name. -/
theorem run?_letters {first : Char} {letters s : List Char} {r : Stage}
    (hs : ∀ c ∈ s, c.isAlpha = true) (h : run? (word first letters) s = some r) :
    r = word first (letters ++ s) ∧ (s ≠ [] → isKnown (first :: letters ++ s) = true) := by
  induction s generalizing letters with
  | nil =>
      rcases (by simpa [run?] using h : _ = r)
      simp
  | cons c s ih =>
      have hc := hs c (by simp)
      -- A letter is none of the signs that a name can be followed by.
      have hne : ∀ d ∈ ['*', '+', '-', '/', ')', '('], c ≠ d := by
        rintro d hd rfl
        have hsigns : ∀ d ∈ ['*', '+', '-', '/', ')', '('], d.isAlpha = false :=
          forall_mem_of_all (by decide)
        rw [hsigns c hd] at hc
        exact absurd hc (by simp)
      rcases Option.bind_eq_some_iff.1 h with ⟨q, hq, hrun⟩
      rw [step?] at hq
      split at hq
      · rename_i hknown
        rcases (by simpa using hq : _ = q)
        rcases ih (fun d hd => hs d (by simp [hd])) hrun with ⟨rfl, hlast⟩
        refine ⟨by simp, fun _ => ?_⟩
        by_cases hnil : s = []
        · rw [hnil]
          exact hknown
        · have := hlast hnil
          simpa using this
      · split at hq
        · exact absurd rfl (hne c (by have := behind?_eq_some hq; simp at this ⊢; tauto))
        · split at hq
          · rename_i hparen
            exact absurd hparen.2 (hne '(' (by simp))
          · exact absurd hq (by simp)

/-- The words that are brought in for shorthand. -/
def callWords : List (List Char) :=
  [Shorthand.rootWord, Mark.factorial.word, Mark.percent.word]

/-- The words that are brought in for shorthand are not the ends of names. -/
theorem not_isKnown_callWord {word : List Char} (hw : word ∈ callWords) (first : Char)
    (letters : List Char) : isKnown (first :: letters ++ word) = false := by
  rw [Bool.eq_false_iff]
  intro h
  have hlen := length_le_of_isKnown h
  rw [List.length_append, List.length_cons] at hlen
  -- A word of four letters is too long behind another one; the shorter word
  -- is tried behind each name.
  have hwords : word.length = 4 ∨ word = Mark.percent.word := by
    have : ∀ word ∈ callWords, word.length = 4 ∨ word = Mark.percent.word := by decide
    exact this word hw
  rcases hwords with hfour | rfl
  · omega
  · have hthree : Mark.percent.word.length = 3 := by decide
    have hnil : letters = [] := List.eq_nil_of_length_eq_zero (by omega)
    subst hnil
    simp [isKnown, names, Mark.percent, Callee.all, Callee.name, Constant.name,
      Elementary.name] at h

/-- A word that is brought in stands where an atom may start. -/
theorem run?_callWord {q r : Stage} {word : List Char} (hw : word ∈ callWords)
    (h : run? q word = some r) : q.IsOpen ∧ run? operand word = some r := by
  have hopen : ∀ word ∈ callWords, run? star word = run? operand word ∧
      run? root word = run? operand word := by decide
  have hshut : ∀ word ∈ callWords, run? closed word = none ∧ run? whole word = none ∧
      run? fraction word = none ∧ run? bare word = none := by decide
  rcases hopen word hw with ⟨h₁, h₂⟩
  rcases hshut word hw with ⟨h₃, h₄, h₅, h₆⟩
  cases q with
  | operand => exact ⟨.inl rfl, h⟩
  | star => exact ⟨.inr (.inl rfl), by rwa [h₁] at h⟩
  | root => exact ⟨.inr (.inr rfl), by rwa [h₂] at h⟩
  | closed =>
      rw [h₃] at h
      exact absurd h (by simp)
  | whole =>
      rw [h₄] at h
      exact absurd h (by simp)
  | fraction =>
      rw [h₅] at h
      exact absurd h (by simp)
  | bare =>
      rw [h₆] at h
      exact absurd h (by simp)
  | word first letters =>
      have hletters : ∀ word ∈ callWords, word ≠ [] ∧ word.all Char.isAlpha = true := by decide
      rcases hletters word hw with ⟨hne, halpha⟩
      have hknown := (run?_letters (List.all_eq_true.1 halpha) h).2 hne
      rw [not_isKnown_callWord hw] at hknown
      exact absurd hknown (by simp)

theorem run?_digits {s : List Char} (hs : ∀ c ∈ s, Text.isDecimalDigit c = true) :
    run? whole s = some whole ∧ run? fraction s = some fraction := by
  induction s with
  | nil => exact ⟨rfl, rfl⟩
  | cons c s ih =>
      have hc := hs c (by simp)
      rcases ih fun d hd => hs d (by simp [hd]) with ⟨hwhole, hfraction⟩
      refine ⟨?_, ?_⟩
      · simp [run?, step?, hc, hwhole]
      · simp [run?, step?, hc, hfraction]

theorem step?_digit {q : Stage} (hq : q.IsOpen) {c : Char} (hc : Text.isDecimalDigit c = true) :
    q.step? c = some whole := by
  -- A digit is none of the characters that are looked for before it.
  have hne {d : Char} (hd : Text.isDecimalDigit d = false) : c ≠ d := by
    rintro rfl
    rw [hc] at hd
    exact absurd hd (by simp)
  have hstar : c ≠ '*' := hne (by decide)
  have hplus : c ≠ '+' := hne (by decide)
  have hminus : c ≠ '-' := hne (by decide)
  rcases hq with rfl | rfl | rfl <;> simp [step?, operand?, atom?, hc, hstar, hplus, hminus]

theorem step?_point {q : Stage} (hq : q.IsOpen) : q.step? '.' = some bare := by
  rcases hq with rfl | rfl | rfl <;> decide

/-- A numeral can be read where an atom may start. -/
theorem run?_numeral {q : Stage} (hq : q.IsOpen) {n : Numeral} (hn : n.WellFormed) :
    run? q n.text = some whole ∨ run? q n.text = some fraction := by
  rcases n with ⟨digits, fraction⟩
  rcases hn with ⟨hdigits, hne⟩
  have hwhole : ∀ c ∈ digits, Text.isDecimalDigit c = true := fun c hc => hdigits c (by simp [hc])
  have hpoint : whole.step? '.' = some .fraction := by decide
  -- With digits in front of the point, or with digits only behind it.
  cases digits with
  | nil =>
      cases fraction with
      | none => exact absurd rfl hne
      | some behind =>
          cases behind with
          | nil => exact absurd rfl hne
          | cons d behind =>
              have hd := hdigits d (by simp)
              have hrun := (run?_digits (s := behind) fun c hc => hdigits c (by simp [hc])).2
              have hbare : bare.step? d = some .fraction := by simp [step?, hd]
              refine .inr ?_
              simp [Numeral.text, run?, step?_point hq, hbare, hrun]
  | cons d digits =>
      have hd := step?_digit hq (hwhole d (by simp))
      have hrun := (run?_digits fun c hc => hwhole c (List.mem_cons_of_mem d hc)).1
      cases fraction with
      | none =>
          refine .inl ?_
          simp [Numeral.text, run?, hd, hrun]
      | some behind =>
          have hbehind := (run?_digits (s := behind) fun c hc => hdigits c (by simp [hc])).2
          refine .inr ?_
          simp [Numeral.text, run?, hd, run?_append, hrun, hpoint, hbehind]

end Stage

/-- A text that can be read to the end of a formula. -/
def Accepts (q : Stage) (text : List Char) : Prop :=
  ∃ r, q.run? (respell text) = some r ∧ r.IsFinal

theorem accepts_append {q : Stage} {s t : List Char} :
    Accepts q (s ++ t) ↔ ∃ r, q.run? (respell s) = some r ∧ Accepts r t := by
  rw [Accepts, Shorthand.respell_append, Stage.run?_append]
  constructor
  · rintro ⟨r, hr, hfinal⟩
    rcases Option.bind_eq_some_iff.1 hr with ⟨u, hu, hrun⟩
    exact ⟨u, hu, r, hrun, hfinal⟩
  · rintro ⟨u, hu, r, hrun, hfinal⟩
    exact ⟨r, by rw [hu]; exact hrun, hfinal⟩

theorem accepts_cons {q : Stage} {c : Char} {t : List Char} :
    Accepts q (c :: t) ↔ ∃ r, q.run? (respelled c) = some r ∧ Accepts r t := by
  have hone : respell [c] = respelled c := by simp [respell]
  rw [← List.singleton_append, accepts_append, hone]

/-- What stands behind an operand stands there behind every operand. -/
theorem accepts_of_closed {q : Stage} {t : List Char} (hq : q.IsFinal)
    (h : Accepts .closed t) : Accepts q t := by
  rcases h with ⟨r, hrun, hfinal⟩
  unfold Accepts
  generalize respell t = u at hrun ⊢
  cases u with
  | nil => exact ⟨q, rfl, hq⟩
  | cons c u => exact ⟨r, Stage.run?_of_closed hq hrun, hfinal⟩

/-- A parenthesis that is closed behind an operand. -/
theorem accepts_close {q : Stage} {t : List Char} (h : Accepts q (')' :: t)) :
    q.IsFinal ∧ Accepts .closed t := by
  rcases accepts_cons.1 h with ⟨r, hr, ht⟩
  rcases Option.bind_eq_some_iff.1 hr with ⟨s, hs, hnil⟩
  rcases Stage.isFinal_of_close hs with ⟨hq, rfl⟩
  rcases (by simpa [Stage.run?] using hnil : Stage.closed = r)
  exact ⟨hq, ht⟩

/-- A call that is brought in stands where an atom may start, and its argument
    where an operand must. -/
theorem accepts_call {q : Stage} {word argument t : List Char} (hw : word ∈ Stage.callWords)
    (h : Accepts q (Shorthand.call word argument ++ t)) :
    q.IsOpen ∧ Accepts .operand argument ∧ Accepts .closed t := by
  have hsplit : Shorthand.call word argument ++ t = word ++ (['('] ++ (argument ++ ')' :: t)) := by
    simp [Shorthand.call]
  have hword : ∀ word ∈ Stage.callWords, respell word = word ∧
      Stage.run? .operand (word ++ respell ['(']) = some .operand := by decide
  rcases hword word hw with ⟨hspell, hopens⟩
  rw [hsplit] at h
  rcases accepts_append.1 h with ⟨r, hr, hrest⟩
  rw [hspell] at hr
  -- The word is read from any such stage as it is from the start.
  rcases Stage.run?_callWord hw hr with ⟨hopen, hoperand⟩
  rcases accepts_append.1 hrest with ⟨u, hu, hrest⟩
  rw [Stage.run?_append, hoperand, Option.bind_some, hu] at hopens
  rcases (by simpa using hopens : u = .operand)
  rcases accepts_append.1 hrest with ⟨v, hv, hclose⟩
  rcases accepts_close hclose with ⟨hfinal, ht⟩
  exact ⟨hopen, ⟨v, hv, hfinal⟩, ht⟩

theorem respelled_eq_cons {c : Char} (hc : c ≠ '+' ∧ c ≠ '-') :
    ∃ d u, respelled c = d :: u ∧ d ≠ '+' ∧ d ≠ '-' := by
  unfold respelled
  split
  · exact ⟨'*', ['*'], rfl, by decide, by decide⟩
  · split
    · exact ⟨'p', ['i'], rfl, by decide, by decide⟩
    · exact ⟨c, [], rfl, hc⟩

/-- Behind a root sign an operand stands that starts with no sign. -/
theorem accepts_root {t : List Char} (ht : ∀ c ∈ t.head?, c ≠ '+' ∧ c ≠ '-')
    (h : Accepts .operand t) : Accepts .root t := by
  cases t with
  | nil =>
      rcases h with ⟨r, hr, hfinal⟩
      rcases (by simpa [respell, Stage.run?] using hr : Stage.operand = r)
      exact absurd hfinal (by simp [Stage.IsFinal])
  | cons c t =>
      have hc := ht c rfl
      rcases accepts_cons.1 h with ⟨r, hr, hrest⟩
      rcases respelled_eq_cons hc with ⟨d, u, hd, hplus, hminus⟩
      -- The two stages differ in the signs only.
      refine accepts_cons.2 ⟨r, ?_, hrest⟩
      rw [hd] at hr ⊢
      simpa [Stage.run?, Stage.step?, Stage.operand?, hplus, hminus] using hr

/-- No operand of a root sign starts with a sign. -/
theorem head?_of_rootOperand? {rest operand tail : List Char}
    (h : rootOperand? rest = some (operand, tail)) :
    ∀ c ∈ operand.head?, c ≠ '+' ∧ c ≠ '-' := by
  have hsign : ∀ c ∈ ['+', '-'], ∀ t, rootOperand? (c :: t) = none := by
    intro c hc t
    have hclass : ∀ c ∈ ['+', '-'], c ≠ '√' ∧ Text.isDigitSign c = false ∧ c ≠ '.' ∧
        Text.isLetter c = false ∧ c ≠ '(' := forall_mem_of_all (by decide)
    rcases hclass c hc with ⟨h₁, h₂, h₃, h₄, h₅⟩
    rw [Shorthand.rootOperand?_of_name h₁ h₂ h₃]
    have hnamed : Shorthand.named? ([] ++ c :: t) = _ :=
      Shorthand.named?_append (by simp) (by simpa using h₄)
    rw [List.nil_append] at hnamed
    rw [hnamed]
    simp [h₅]
  -- The operand is the start of the text that was tried.
  have happ := Shorthand.append_of_rootOperand? h
  intro c hc
  rcases List.head?_eq_some_iff.1 hc with ⟨s, rfl⟩
  rw [← happ, List.cons_append] at h
  refine ⟨?_, ?_⟩
  · rintro rfl
    rw [hsign '+' (by simp)] at h
    exact absurd h (by simp)
  · rintro rfl
    rw [hsign '-' (by simp)] at h
    exact absurd h (by simp)

theorem step?_root {q : Stage} (hq : q.IsOpen) : q.run? (respelled '√') = some .root := by
  rcases hq with rfl | rfl | rfl <;> decide

/-- Behind the bare word of a root sign there is a group. -/
theorem accepts_bare {t : List Char} (h : Accepts (.word 's' ['q', 'r', 't']) t) :
    Accepts .root t := by
  rcases h with ⟨r, hr, hfinal⟩
  refine ⟨r, ?_, hfinal⟩
  generalize respell t = u at hr ⊢
  cases u with
  | nil =>
      rcases (by simpa [Stage.run?] using hr : _ = r)
      exact absurd hfinal (by simp [Stage.IsFinal, Constant.ofName?, Constant.name])
  | cons c u =>
      rcases Option.bind_eq_some_iff.1 hr with ⟨s, hs, hrun⟩
      -- No name is longer, and this one is no constant: a parenthesis follows.
      have hknown : Stage.isKnown ('s' :: ['q', 'r', 't'] ++ [c]) = false := by
        rw [Bool.eq_false_iff]
        intro hk
        exact absurd (Stage.length_le_of_isKnown hk) (by simp)
      have hconstant : (Constant.ofName? ['s', 'q', 'r', 't']).isSome = false := by decide
      rw [Stage.step?, hknown, hconstant, if_neg (by simp), if_neg (by simp)] at hs
      split at hs
      · rename_i hparen
        rw [hparen.2]
        rcases (by simpa using hs : Stage.operand = s)
        have hstep : Stage.root.step? '(' = some .operand := by decide
        rw [Stage.run?, hstep]
        exact hrun
      · exact absurd hs (by simp)

/-- The pass of root signs, backwards. -/
theorem accepts_of_expandRoots {q : Stage} {text : List Char} (h : Accepts q (expandRoots text)) :
    Accepts q text := by
  fun_induction expandRoots text generalizing q with
  | case1 => exact h
  -- What stands behind the call stands behind the operand without it.
  | case2 rest operand tail hsplit iho iht =>
      rcases accepts_call (by simp [Stage.callWords]) h with ⟨hopen, hoperand, htail⟩
      have hroot := accepts_root (head?_of_rootOperand? hsplit) (iho hoperand)
      rcases hroot with ⟨r, hr, hfinal⟩
      rw [← Shorthand.append_of_rootOperand? hsplit]
      exact accepts_cons.2 ⟨.root, step?_root hopen, accepts_append.2
        ⟨r, hr, accepts_of_closed hfinal (iht htail)⟩⟩
  | case3 rest hnone ih =>
      have hword : respell Shorthand.rootWord = Shorthand.rootWord := by decide
      have hsqrt : Stage.run? .operand Shorthand.rootWord = some (.word 's' ['q', 'r', 't']) := by
        decide
      rcases accepts_append.1 h with ⟨r, hr, hrest⟩
      rw [hword] at hr
      rcases Stage.run?_callWord (by simp [Stage.callWords]) hr with ⟨hopen, hoperand⟩
      rw [hsqrt] at hoperand
      rcases (by simpa using hoperand : _ = r)
      exact accepts_cons.2 ⟨.root, step?_root hopen, accepts_bare (ih hrest)⟩
  | case4 c rest hc ih =>
      rcases accepts_cons.1 h with ⟨r, hr, hrest⟩
      exact accepts_cons.2 ⟨r, hr, ih hrest⟩

/-- A root sign is only read where it stands. -/
theorem eq_root_of_step? {q : Stage} {c : Char} (h : q.step? c = some .root) : c = '√' := by
  have hbehind : Stage.behind? c ≠ some .root := by
    unfold Stage.behind?
    repeat' split
    all_goals simp
  have hatom : Stage.atom? c = some .root → c = '√' := by
    unfold Stage.atom?
    repeat' split
    all_goals simp [*]
  -- Every other character leads to a stage of another kind.
  cases q <;> simp only [Stage.step?, Stage.operand?] at h
  all_goals
    repeat' split at h
    all_goals first
      | exact absurd h hbehind
      | exact hatom h
      | exact absurd h (by simp)

theorem eq_root_of_respelled {q : Stage} {c : Char} (h : q.run? (respelled c) = some .root) :
    c = '√' := by
  -- Neither of the two spellings ends with a root sign.
  have hlast {d e : Char} (h : q.run? [d, e] = some .root) : e = '√' := by
    rcases Option.bind_eq_some_iff.1 h with ⟨s, -, hs⟩
    rcases Option.bind_eq_some_iff.1 hs with ⟨t, ht, hnil⟩
    rcases (by simpa [Stage.run?] using hnil : t = .root)
    exact eq_root_of_step? ht
  unfold respelled at h
  split at h
  · exact absurd (hlast h) (by decide)
  · split at h
    · exact absurd (hlast h) (by decide)
    · rcases Option.bind_eq_some_iff.1 h with ⟨t, ht, hnil⟩
      rcases (by simpa [Stage.run?] using hnil : t = .root)
      exact eq_root_of_step? ht

/-- An operand of a mark is a numeral, perhaps with a minus sign. -/
theorem eq_of_marked? {m : Mark} {text operand rest : List Char}
    (h : m.marked? text = some (operand, rest)) :
    ∃ n : Numeral, n.WellFormed ∧ operand = n.text ∧ text = n.text ++ m.sign :: rest := by
  unfold Mark.marked? at h
  split at h
  · rename_i n c tail hscan
    split at h
    · rename_i hsign
      rcases (by simpa using h : (_ ∧ _)) with ⟨rfl, rfl⟩
      refine ⟨n, Numeral.wellFormed_of_scan? hscan, rfl, ?_⟩
      rw [← hsign, Numeral.text_append_of_scan? hscan]
    · exact absurd h (by simp)
  · exact absurd h (by simp)

theorem eq_of_operand? {m : Mark} {before : Option Char} {text operand rest : List Char}
    (h : m.operand? before text = some (operand, rest)) :
    ∃ n : Numeral, n.WellFormed ∧ (operand = n.text ∧ text = n.text ++ m.sign :: rest ∨
      operand = '-' :: n.text ∧ text = '-' :: (n.text ++ m.sign :: rest) ∧
        Shorthand.isUnaryPlace before = true) := by
  unfold Mark.operand? at h
  split at h
  · split at h
    · rename_i hunary
      rcases Option.map_eq_some_iff.1 h with ⟨⟨s, t⟩, hmarked, heq⟩
      rcases (by simpa using heq : (_ ∧ _)) with ⟨rfl, rfl⟩
      rcases eq_of_marked? hmarked with ⟨n, hn, rfl, rfl⟩
      exact ⟨n, hn, .inr ⟨rfl, rfl, (Bool.and_eq_true_iff.1 hunary).2⟩⟩
    · exact absurd h (by simp)
  · rcases eq_of_marked? h with ⟨n, hn, hoperand, htext⟩
    exact ⟨n, hn, .inl ⟨hoperand, htext⟩⟩

/-- A numeral with a mark behind it can be read where an atom may start. -/
theorem accepts_marked {q : Stage} (hq : q.IsOpen) {n : Numeral} (hn : n.WellFormed)
    {sign : Char} (hsign : sign = '!' ∨ sign = '%') {rest : List Char}
    (h : Accepts .closed rest) : Accepts q (n.text ++ sign :: rest) := by
  have hspell : respell n.text = n.text :=
    respell_of_isPart fun c hc => Numeral.isPart_of_mem_text hn hc
  have hmark : Stage.run? .whole (respelled sign) = some .closed ∧
      Stage.run? .fraction (respelled sign) = some .closed := by
    rcases hsign with rfl | rfl <;> decide
  refine accepts_append.2 ?_
  rw [hspell]
  -- With a point or without one, the mark completes the operand.
  rcases Stage.run?_numeral hq hn with hrun | hrun
  · exact ⟨_, hrun, accepts_cons.2 ⟨_, hmark.1, h⟩⟩
  · exact ⟨_, hrun, accepts_cons.2 ⟨_, hmark.2, h⟩⟩

/-- The passes of marks, backwards. Behind a root sign no minus sign can be
    read, and there none is taken along. -/
theorem accepts_of_mark {m : Mark} (hword : m.word ∈ Stage.callWords)
    (hsign : m.sign = '!' ∨ m.sign = '%') {q : Stage} {before : Option Char} {text : List Char}
    (hroot : q = .root → before = some '√') (h : Accepts q (m.expand before text)) :
    Accepts q text := by
  fun_induction Mark.expand m before text generalizing q with
  | case1 before text operand rest hoperand ih =>
      rcases accepts_call hword h with ⟨hopen, -, hrest⟩
      have hclosed := ih (by simp) hrest
      rcases eq_of_operand? hoperand with ⟨n, hn, ⟨-, rfl⟩ | ⟨-, rfl, hunary⟩⟩
      · exact accepts_marked hopen hn hsign hclosed
      · -- The minus sign is read where an operand must stand.
        have hminus : q.run? (respelled '-') = some .operand := by
          rcases hopen with rfl | rfl | rfl
          · decide
          · decide
          · rw [hroot rfl] at hunary
            exact absurd hunary (by decide)
        exact accepts_cons.2 ⟨.operand, hminus, accepts_marked (.inl rfl) hn hsign hclosed⟩
  | case2 => exact h
  | case3 before c rest hnone ih =>
      rcases accepts_cons.1 h with ⟨r, hr, hrest⟩
      refine accepts_cons.2 ⟨r, hr, ih (fun hr' => ?_) hrest⟩
      rw [hr'] at hr
      rw [eq_root_of_respelled hr]

/-- All passes, backwards. -/
theorem accepts_of_expand {text : List Char} {r : Stage}
    (h : Stage.run? .operand (Shorthand.expand text) = some r) (hr : r.IsFinal) :
    Accepts .operand text := by
  have hroots := accepts_of_expandRoots ⟨r, h, hr⟩
  rw [Shorthand.expandMarks, Mark.calls_eq, Mark.calls_eq] at hroots
  have hpercent := accepts_of_mark (by simp [Stage.callWords]) (.inr rfl) (by simp) hroots
  exact accepts_of_mark (by simp [Stage.callWords]) (.inl rfl) (by simp) hpercent

end Typed

end Calculator
