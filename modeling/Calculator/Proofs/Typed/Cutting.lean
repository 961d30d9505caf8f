import Calculator.Proofs.Typed.Stage

/-!
# Cutting typed text into pieces

A text that can be read to the end of a formula is the text of pieces that
follow their places. While the text is read, the pieces that are complete are
kept, and with them the numeral or the word that has been started. A piece is
completed late: only the character behind a numeral shows whether the numeral
carries a mark, and a factorial mark takes back the unary minus sign that has
been kept as a piece of its own.

## Main definitions

* `Typed.Built`: Pieces that lead from the start of a formula to a place.
* `Typed.Held`: What is kept at a stage.

## Theorems

* `Typed.held_step`: One more character of canonical spelling.
* `Typed.held_respelled`: One more character.
* `Typed.exists_pieces`: A text that can be read is cut into pieces.
-/

namespace Calculator

namespace Typed

open Shorthand (respell respelled)

namespace Place

/-- An atom may start here. -/
def IsOpen (p : Place) : Prop :=
  p = operand ∨ p = minus ∨ p = root

theorem next?_of_isOpen {p : Place} (hp : p.IsOpen) {x : Symbol} {q : Place}
    (hx : ofAtom? x = some q) (hfactorial : p = minus → ∀ n, x ≠ .factorial false n) :
    p.next? x = some q := by
  have hoperand : ofOperand? x = some q := by
    cases x with
    | factorial negative n =>
        cases negative with
        | false => exact hx
        | true => exact absurd hx (by simp [ofAtom?])
    | operator op => exact absurd hx (by simp [ofAtom?])
    | _ => exact hx
  -- The three places differ in what they refuse.
  rcases hp with rfl | rfl | rfl
  · exact hoperand
  · cases x with
    | factorial negative n =>
        cases negative with
        | false => exact absurd rfl (hfactorial rfl n)
        | true => exact hoperand
    | _ => exact hoperand
  · exact hx

end Place

/-- Pieces that lead from the start of a formula to a place, and their text. -/
structure Built (p : Place) (text : List Char) (cs : List Symbol) : Prop where
  /-- The pieces can be found in their text. -/
  wellFormed : ∀ x ∈ cs, x.WellFormed
  /-- The pieces lead to the place. -/
  follow : follow? .operand cs = some p
  /-- The text is that of the pieces. -/
  text_eq : text = Typed.text false false cs

theorem Built.snoc {p q : Place} {text : List Char} {cs : List Symbol} (h : Built p text cs)
    {x : Symbol} (hx : x.WellFormed) (hq : p.next? x = some q) :
    Built q (text ++ x.text false false) (cs ++ [x]) := by
  refine ⟨?_, ?_, ?_⟩
  · intro y hy
    rcases List.mem_append.1 hy with hy | hy
    · exact h.wellFormed y hy
    · rcases (by simpa using hy : y = x)
      exact hx
  · -- The places are followed to the end, and one step further.
    rw [follow?_append, h.follow, Option.bind_some, follow?, hq]
    rfl
  · rw [h.text_eq]
    simp [Typed.text]

/-- Behind a unary minus sign the sign can be taken back. -/
theorem Built.takeMinus {text : List Char} {cs : List Symbol} (h : Built .minus text cs) :
    ∃ p before bs, Built p before bs ∧ text = before ++ ['-'] ∧ (p = .operand ∨ p = .minus) := by
  rcases List.eq_nil_or_concat cs with rfl | ⟨bs, x, rfl⟩
  · exact absurd h.follow (by simp [follow?])
  · have hfollow := h.follow
    rw [List.concat_eq_append, follow?_append] at hfollow
    rcases Option.bind_eq_some_iff.1 hfollow with ⟨p, hp, hx⟩
    rcases follow?_cons hx with ⟨q, hq, hnil⟩
    rcases (by simpa [follow?] using hnil : q = .minus)
    -- No other piece leads to this place, and only from where an operand must stand.
    have hminus : x = .operator .sub ∧ (p = .operand ∨ p = .minus) := by
      cases x with
      | operator op =>
          cases p <;> cases op <;> simp_all [Place.next?, Place.ofOperand?, Place.ofAtom?]
      | word letters => rcases ofWord?_of_next? hq with h | h <;> exact absurd h (by simp)
      | number n => exact absurd (closed_of_next? (.inl rfl) hq) (by simp)
      | percent n => exact absurd (closed_of_next? (.inr (.inl rfl)) hq) (by simp)
      | factorial negative n =>
          exact absurd (closed_of_next? (.inr (.inr ⟨negative, rfl⟩)) hq) (by simp)
      | _ => cases p <;> simp_all [Place.next?, Place.ofOperand?, Place.ofAtom?]
    rcases hminus with ⟨rfl, hplace⟩
    refine ⟨p, Typed.text false false bs, bs, ⟨?_, hp, rfl⟩, ?_, hplace⟩
    · exact fun y hy => h.wellFormed y (by simp [hy])
    · rw [h.text_eq]
      simp [Typed.text, Symbol.text, BinaryOp.symbol]

/-- What is kept at a stage: the pieces that are complete, and what has been
    started behind them. -/
def Held : Stage → List Char → Prop
  | .operand, text => ∃ p cs, Built p text cs ∧ (p = .operand ∨ p = .minus)
  | .star, text => ∃ before cs, Built .closed before cs ∧ text = before ++ ['*']
  | .root, text => ∃ cs, Built .root text cs
  | .closed, text => ∃ cs, Built .closed text cs
  | .whole, text => ∃ p before cs, ∃ n : Numeral, Built p before cs ∧ p.IsOpen ∧ n.WellFormed ∧
      n.fraction = none ∧ text = before ++ n.text
  | .fraction, text => ∃ p before cs, ∃ n : Numeral, Built p before cs ∧ p.IsOpen ∧ n.WellFormed ∧
      n.fraction ≠ none ∧ text = before ++ n.text
  | .bare, text => ∃ p before cs, Built p before cs ∧ p.IsOpen ∧ text = before ++ ['.']
  | .word first letters, text => ∃ p before cs typed, Built p before cs ∧ p.IsOpen ∧
      (Symbol.word typed).WellFormed ∧ spelling typed = first :: letters ∧ text = before ++ typed

/-- The pieces where an atom may start. -/
theorem Held.opened {q : Stage} {text : List Char} (h : Held q text) (hq : q.IsOpen) :
    ∃ p cs, Built p text cs ∧ p.IsOpen ∧ (q ≠ .root → p = .operand ∨ p = .minus) := by
  rcases hq with rfl | rfl | rfl
  · rcases h with ⟨p, cs, hcs, hp⟩
    refine ⟨p, cs, hcs, ?_, fun _ => hp⟩
    rcases hp with rfl | rfl
    · exact .inl rfl
    · exact .inr (.inl rfl)
  · -- The asterisk turns out to be a product.
    rcases h with ⟨before, cs, hcs, rfl⟩
    exact ⟨.operand, _, hcs.snoc (x := .operator .mul) trivial rfl, .inl rfl, fun _ => .inl rfl⟩
  · rcases h with ⟨cs, hcs⟩
    exact ⟨.root, cs, hcs, .inr (.inr rfl), fun hne => absurd rfl hne⟩

/-- The pieces behind a complete operand. -/
theorem Held.finished {q : Stage} {text : List Char} (h : Held q text) (hq : q.IsFinal) :
    ∃ cs, Built .closed text cs := by
  cases q with
  | closed => exact h
  | whole =>
      rcases h with ⟨p, before, cs, n, hcs, hp, hn, -, rfl⟩
      exact ⟨_, hcs.snoc (x := .number n) hn (Place.next?_of_isOpen hp rfl (by simp))⟩
  | fraction =>
      rcases h with ⟨p, before, cs, n, hcs, hp, hn, -, rfl⟩
      exact ⟨_, hcs.snoc (x := .number n) hn (Place.next?_of_isOpen hp rfl (by simp))⟩
  | word first letters =>
      rcases h with ⟨p, before, cs, typed, hcs, hp, htyped, hspell, rfl⟩
      have hplace : Place.ofAtom? (.word typed) = some .closed := by
        have hconstant : (Constant.ofName? (first :: letters)).isSome = true := hq
        rw [Place.ofAtom?, Place.ofWord?, hspell, hconstant]
        rfl
      exact ⟨_, hcs.snoc (x := .word typed) htyped (Place.next?_of_isOpen hp hplace (by simp))⟩
  | _ => exact absurd hq (by simp [Stage.IsFinal])

/-- The sign of an operation, or the end of a group. -/
theorem held_behind {text : List Char} {cs : List Symbol} (h : Built .closed text cs) {c : Char}
    {r : Stage} (hr : Stage.behind? c = some r) : Held r (text ++ [c]) := by
  unfold Stage.behind? at hr
  split at hr
  · rename_i hc
    rcases (by simpa using hr : Stage.star = r)
    exact ⟨text, cs, h, by rw [hc]⟩
  · split at hr
    · rename_i hc
      rcases (by simpa using hr : Stage.operand = r)
      rcases hc with rfl | rfl | rfl
      · exact ⟨.operand, _, h.snoc (x := .operator .add) trivial rfl, .inl rfl⟩
      · exact ⟨.operand, _, h.snoc (x := .operator .sub) trivial rfl, .inl rfl⟩
      · exact ⟨.operand, _, h.snoc (x := .operator .div) trivial rfl, .inl rfl⟩
    · split at hr
      · rename_i hc
        rcases (by simpa using hr : Stage.closed = r)
        rw [hc]
        exact ⟨_, h.snoc (x := .rightParen) trivial rfl⟩
      · exact absurd hr (by simp)

/-- An ASCII letter is spelled as it is. -/
theorem spelling_append_alpha (letters : List Char) {c : Char} (hc : c.isAlpha = true) :
    spelling (letters ++ [c]) = spelling letters ++ [c] := by
  have hcaret : c ≠ '^' := ne_of_isLetter (by simp [isLetter, hc]) (by decide)
  have hpi : c ≠ 'π' := by
    rintro rfl
    exact absurd hc (by decide)
  simp [spelling, respell, respelled, hcaret, hpi]

/-- The start of an atom. -/
theorem held_atom {p : Place} {text : List Char} {cs : List Symbol} (h : Built p text cs)
    (hp : p.IsOpen) {c : Char} {r : Stage} (hr : Stage.atom? c = some r) :
    Held r (text ++ [c]) := by
  -- A digit, a point, a parenthesis, a root sign, or a letter of a name.
  unfold Stage.atom? at hr
  split at hr
  · rename_i hdigit
    rcases (by simpa using hr : Stage.whole = r)
    refine ⟨p, text, cs, ⟨[c], none⟩, h, hp, ⟨?_, by simp⟩, rfl, rfl⟩
    simpa using hdigit
  · split at hr
    · rename_i hc
      rcases (by simpa using hr : Stage.bare = r)
      rw [hc]
      exact ⟨p, text, cs, h, hp, rfl⟩
    · split at hr
      · rename_i hc
        rcases (by simpa using hr : Stage.operand = r)
        rw [hc]
        have hplace := Place.next?_of_isOpen hp (x := .leftParen) rfl (by simp)
        exact ⟨.operand, _, h.snoc (x := .leftParen) trivial hplace, .inl rfl⟩
      · split at hr
        · rename_i hc
          rcases (by simpa using hr : Stage.root = r)
          rw [hc]
          have hplace := Place.next?_of_isOpen hp (x := .root) rfl (by simp)
          exact ⟨_, h.snoc (x := .root) trivial hplace⟩
        · split at hr
          · rename_i hknown
            rcases (by simpa using hr : Stage.word c [] = r)
            have halpha := Stage.isAlpha_of_isKnown hknown c (by simp)
            refine ⟨p, text, cs, [c], h, hp, ⟨by simp, ?_⟩, ?_, rfl⟩
            · simp [isLetter, halpha]
            · exact spelling_append_alpha [] halpha
          · exact absurd hr (by simp)

/-- The start of an operand. -/
theorem held_operand {p : Place} {text : List Char} {cs : List Symbol} (h : Built p text cs)
    (hp : p = .operand ∨ p = .minus) {c : Char} {r : Stage} (hr : Stage.operand? c = some r) :
    Held r (text ++ [c]) := by
  have hopen : p.IsOpen := by
    rcases hp with rfl | rfl
    · exact .inl rfl
    · exact .inr (.inl rfl)
  unfold Stage.operand? at hr
  split at hr
  · rename_i hc
    rcases (by simpa using hr : Stage.operand = r)
    rcases hc with rfl | rfl
    · have hplace : p.next? (.operator .add) = some .operand := by
        rcases hp with rfl | rfl <;> rfl
      exact ⟨.operand, _, h.snoc (x := .operator .add) trivial hplace, .inl rfl⟩
    · have hplace : p.next? (.operator .sub) = some .minus := by
        rcases hp with rfl | rfl <;> rfl
      exact ⟨.minus, _, h.snoc (x := .operator .sub) trivial hplace, .inr rfl⟩
  · exact held_atom h hopen hr

/-- A mark behind a numeral. A factorial mark takes a unary minus sign back. -/
theorem built_marked {p : Place} {text : List Char} {cs : List Symbol} (h : Built p text cs)
    (hp : p.IsOpen) {n : Numeral} (hn : n.WellFormed) {c : Char} (hc : c = '!' ∨ c = '%') :
    ∃ bs, Built .closed (text ++ n.text ++ [c]) bs := by
  rcases hc with rfl | rfl
  · by_cases hminus : p = .minus
    · subst hminus
      -- The sign is no longer a piece by itself but a part of this one.
      rcases h.takeMinus with ⟨q, before, bs, hbs, rfl, hq⟩
      have hplace : q.next? (.factorial true n) = some .closed := by
        rcases hq with rfl | rfl <;> rfl
      refine ⟨bs ++ [.factorial true n], ?_⟩
      have hsnoc := hbs.snoc (x := .factorial true n) hn hplace
      simpa [Symbol.text, Symbol.signed] using hsnoc
    · have hplace := Place.next?_of_isOpen hp (x := .factorial false n) rfl
        fun h => absurd h hminus
      refine ⟨cs ++ [.factorial false n], ?_⟩
      have hsnoc := h.snoc (x := .factorial false n) hn hplace
      simpa [Symbol.text, Symbol.signed] using hsnoc
  · have hplace := Place.next?_of_isOpen hp (x := .percent n) rfl (by simp)
    refine ⟨cs ++ [.percent n], ?_⟩
    have hsnoc := h.snoc (x := .percent n) hn hplace
    simpa [Symbol.text] using hsnoc

/-- One more digit in front of the point. -/
theorem held_whole_digit {text : List Char} (h : Held .whole text) {c : Char}
    (hc : Text.isDecimalDigit c = true) : Held .whole (text ++ [c]) := by
  -- The numeral that has been started gets longer.
  rcases h with ⟨p, before, cs, ⟨digits, fraction⟩, hcs, hp, ⟨hdigits, -⟩, hnone, rfl⟩
  have hnone : fraction = none := hnone
  subst hnone
  refine ⟨p, before, cs, ⟨digits ++ [c], none⟩, hcs, hp, ⟨?_, by simp⟩, rfl, ?_⟩
  · intro d hd
    rcases (by simpa using hd : d ∈ digits ∨ d = c) with hd | rfl
    · exact hdigits d (by simpa using hd)
    · exact hc
  · simp [Numeral.text]

/-- The point behind digits. -/
theorem held_whole_point {text : List Char} (h : Held .whole text) :
    Held .fraction (text ++ ['.']) := by
  rcases h with ⟨p, before, cs, ⟨digits, fraction⟩, hcs, hp, hn, hnone, rfl⟩
  have hnone : fraction = none := hnone
  subst hnone
  exact ⟨p, before, cs, ⟨digits, some []⟩, hcs, hp, hn, by simp, by simp [Numeral.text]⟩

/-- One more digit behind the point. -/
theorem held_fraction_digit {text : List Char} (h : Held .fraction text) {c : Char}
    (hc : Text.isDecimalDigit c = true) : Held .fraction (text ++ [c]) := by
  rcases h with ⟨p, before, cs, ⟨digits, fraction⟩, hcs, hp, ⟨hdigits, -⟩, hsome, rfl⟩
  cases fraction with
  | none => exact absurd rfl hsome
  | some behind =>
      refine ⟨p, before, cs, ⟨digits, some (behind ++ [c])⟩, hcs, hp, ⟨?_, by simp⟩, by simp, ?_⟩
      · intro d hd
        rcases (by simpa [or_assoc] using hd : d ∈ digits ∨ d ∈ behind ∨ d = c) with hd | hd | rfl
        · exact hdigits d (by simp [hd])
        · exact hdigits d (by simp [hd])
        · exact hc
      · simp [Numeral.text]

/-- One more character of canonical spelling. -/
theorem held_step {q r : Stage} {text : List Char} {c : Char} (h : Held q text)
    (hr : q.step? c = some r) : Held r (text ++ [c]) := by
  cases q with
  | operand =>
      rcases h with ⟨p, cs, hcs, hp⟩
      exact held_operand hcs hp hr
  -- The asterisk turns out to be the start of a power sign, or a sign by
  -- itself.
  | star =>
      rw [Stage.step?] at hr
      split at hr
      · rename_i hc
        rcases (by simpa using hr : Stage.operand = r)
        rcases h with ⟨before, cs, hcs, rfl⟩
        have hsnoc := hcs.snoc (x := .operator .pow) trivial rfl
        rw [hc]
        exact ⟨.operand, _, by simpa [Symbol.text, BinaryOp.symbol] using hsnoc, .inl rfl⟩
      · rcases h.opened (.inr (.inl rfl)) with ⟨p, cs, hcs, -, hp⟩
        exact held_operand hcs (hp (by simp)) hr
  | root =>
      rcases h.opened (.inr (.inr rfl)) with ⟨p, cs, hcs, hp, -⟩
      exact held_atom hcs hp hr
  | closed =>
      rcases h with ⟨cs, hcs⟩
      exact held_behind hcs hr
  -- A digit, the point, a mark, or what stands behind the numeral.
  | whole =>
      rw [Stage.step?] at hr
      split at hr
      · rcases (by simpa using hr : Stage.whole = r)
        exact held_whole_digit h ‹_›
      · split at hr
        · rename_i hc
          rcases (by simpa using hr : Stage.fraction = r)
          rw [hc]
          exact held_whole_point h
        · split at hr
          · rcases (by simpa using hr : Stage.closed = r)
            rcases h with ⟨p, before, cs, n, hcs, hp, hn, -, rfl⟩
            exact built_marked hcs hp hn ‹_›
          · rcases h.finished trivial with ⟨cs, hcs⟩
            exact held_behind hcs hr
  | fraction =>
      rw [Stage.step?] at hr
      split at hr
      · rcases (by simpa using hr : Stage.fraction = r)
        exact held_fraction_digit h ‹_›
      · split at hr
        · rcases (by simpa using hr : Stage.closed = r)
          rcases h with ⟨p, before, cs, n, hcs, hp, hn, -, rfl⟩
          exact built_marked hcs hp hn ‹_›
        · rcases h.finished trivial with ⟨cs, hcs⟩
          exact held_behind hcs hr
  -- Behind a point with no digit in front of it, only a digit may stand.
  | bare =>
      rw [Stage.step?] at hr
      split at hr
      · rename_i hdigit
        rcases (by simpa using hr : Stage.fraction = r)
        rcases h with ⟨p, before, cs, hcs, hp, rfl⟩
        refine ⟨p, before, cs, ⟨[], some [c]⟩, hcs, hp, ⟨?_, by simp⟩, by simp, ?_⟩
        · simpa using hdigit
        · simp [Numeral.text]
      · exact absurd hr (by simp)
  -- The word goes on, or it is the name of a constant or of a callee.
  | word first letters =>
      rw [Stage.step?] at hr
      split at hr
      · rename_i hknown
        rcases (by simpa using hr : Stage.word first (letters ++ [c]) = r)
        rcases h with ⟨p, before, cs, typed, hcs, hp, ⟨hne, hletters⟩, hspell, rfl⟩
        have halpha := Stage.isAlpha_of_isKnown hknown c (by simp)
        refine ⟨p, before, cs, typed ++ [c], hcs, hp, ⟨by simp, ?_⟩, ?_, by simp⟩
        · intro d hd
          rcases (by simpa using hd : d ∈ typed ∨ d = c) with hd | rfl
          · exact hletters d hd
          · simp [isLetter, halpha]
        · rw [spelling_append_alpha typed halpha, hspell]
          rfl
      · split at hr
        · rename_i hconstant
          rcases h.finished hconstant with ⟨cs, hcs⟩
          exact held_behind hcs hr
        · split at hr
          · rename_i hconstant hcallee
            rcases (by simpa using hr : Stage.operand = r)
            rcases h with ⟨p, before, cs, typed, hcs, hp, htyped, hspell, rfl⟩
            have hatom : Place.ofAtom? (.word typed) = some .callee := by
              rw [Place.ofAtom?, Place.ofWord?, hspell, if_neg hconstant, if_pos hcallee.1]
            have hplace := Place.next?_of_isOpen hp hatom (by simp)
            have hcalled := hcs.snoc (x := .word typed) htyped hplace
            rw [hcallee.2]
            exact ⟨.operand, _, hcalled.snoc (x := .leftParen) trivial rfl, .inl rfl⟩
          · exact absurd hr (by simp)

/-- An asterisk stands behind an operand or behind an asterisk. -/
theorem star_of_step? {q s : Stage} (h : q.step? '*' = some s) :
    s = .operand ∨ q.IsFinal ∧ s = .star := by
  have hdigit : Text.isDecimalDigit '*' = false := by decide
  have hatom : Stage.atom? '*' = none := by decide
  cases q with
  | star => exact .inl (by simpa [Stage.step?, eq_comm] using h)
  | closed => exact .inr ⟨trivial, by simpa [Stage.step?, Stage.behind?, eq_comm] using h⟩
  | whole => exact .inr ⟨trivial, by simpa [Stage.step?, Stage.behind?, hdigit, eq_comm] using h⟩
  | fraction => exact .inr ⟨trivial, by simpa [Stage.step?, Stage.behind?, hdigit, eq_comm] using h⟩
  | word first letters =>
      rw [Stage.step?, Stage.not_isKnown_append (by decide)] at h
      by_cases hc : (Constant.ofName? (first :: letters)).isSome = true
      · refine .inr ⟨hc, ?_⟩
        simpa [hc, Stage.behind?, eq_comm] using h
      · simp [hc] at h
  | bare => simp [Stage.step?, hdigit] at h
  | _ => simp [Stage.step?, Stage.operand?, hatom] at h

/-- The power sign of the keypad. -/
theorem held_caret {q r : Stage} {text : List Char} (h : Held q text)
    (hr : q.run? ['*', '*'] = some r) : Held r (text ++ ['^']) := by
  rcases Option.bind_eq_some_iff.1 hr with ⟨s, hs, hrest⟩
  rcases Option.bind_eq_some_iff.1 hrest with ⟨t, ht, hnil⟩
  rcases (by simpa [Stage.run?] using hnil.symm : r = t)
  have hoperand : Stage.step? .operand '*' = none := by decide
  -- The first asterisk is behind an operand, since two more cannot follow
  -- one.
  rcases star_of_step? hs with rfl | ⟨hfinal, rfl⟩
  · rw [hoperand] at ht
    exact absurd ht (by simp)
  · rcases (by simpa [Stage.step?] using ht : Stage.operand = r)
    rcases h.finished hfinal with ⟨cs, hcs⟩
    exact ⟨.operand, _, hcs.snoc (x := .caret) trivial rfl, .inl rfl⟩

/-- The letter of the circle constant. -/
theorem held_pi {q r : Stage} {text : List Char} (h : Held q text)
    (hr : q.run? ['p', 'i'] = some r) : Held r (text ++ ['π']) := by
  have hword {q : Stage} (hq : q.IsOpen) : q.run? ['p', 'i'] = some (.word 'p' ['i']) := by
    rcases hq with rfl | rfl | rfl <;> decide
  -- Elsewhere no word may start.
  have hnone : ∀ q ∈ [Stage.closed, .whole, .fraction, .bare], q.run? ['p', 'i'] = none := by
    decide
  have hopened (hq : q.IsOpen) : Held r (text ++ ['π']) := by
    rw [hword hq] at hr
    rcases (by simpa using hr : Stage.word 'p' ['i'] = r)
    rcases h.opened hq with ⟨p, cs, hcs, hp, -⟩
    have hletters : ∀ c ∈ ['π'], isLetter c = true := forall_mem_of_all (by decide)
    exact ⟨p, text, cs, ['π'], hcs, hp, ⟨by simp, hletters⟩, by decide, rfl⟩
  cases q with
  | operand => exact hopened (.inl rfl)
  | star => exact hopened (.inr (.inl rfl))
  | root => exact hopened (.inr (.inr rfl))
  | word first letters =>
      -- Inside a word the letter stands for two, which the word goes on with.
      rcases (Stage.run?_letters (forall_mem_of_all (by decide)) hr).1
      rcases h with ⟨p, before, cs, typed, hcs, hp, ⟨hne, hletters⟩, hspell, rfl⟩
      refine ⟨p, before, cs, typed ++ ['π'], hcs, hp, ⟨by simp, ?_⟩, ?_, by simp⟩
      · intro d hd
        rcases (by simpa using hd : d ∈ typed ∨ d = 'π') with hd | rfl
        · exact hletters d hd
        · decide
      · rw [spelling, Shorthand.respell_append, ← spelling, hspell]
        rfl
  | _ =>
      rw [hnone _ (by simp)] at hr
      exact absurd hr (by simp)

/-- One more character. -/
theorem held_respelled {q r : Stage} {text : List Char} {c : Char} (h : Held q text)
    (hr : q.run? (respelled c) = some r) : Held r (text ++ [c]) := by
  unfold respelled at hr
  split at hr
  · rename_i hc
    rw [hc]
    exact held_caret h hr
  · split at hr
    · rename_i hc
      rw [hc]
      exact held_pi h hr
    · rcases Option.bind_eq_some_iff.1 hr with ⟨s, hs, hnil⟩
      rcases (by simpa [Stage.run?] using hnil : s = r)
      exact held_step h hs

theorem held_of_run? {q r : Stage} {before text : List Char} (h : Held q before)
    (hr : q.run? (respell text) = some r) : Held r (before ++ text) := by
  induction text generalizing q before with
  | nil =>
      rcases (by simpa [respell, Stage.run?] using hr : q = r)
      rwa [List.append_nil]
  -- A character is read as what it is respelled as.
  | cons c text ih =>
      rw [respell, List.flatMap_cons, Stage.run?_append] at hr
      rcases Option.bind_eq_some_iff.1 hr with ⟨s, hs, hrest⟩
      rw [List.append_cons]
      exact ih (held_respelled h hs) hrest

/-- A text that can be read to the end of a formula is cut into pieces that
    follow their places. -/
theorem exists_pieces {text : List Char} (h : Accepts .operand text) :
    ∃ cs, (∀ x ∈ cs, x.WellFormed) ∧ follow? .operand cs = some .closed ∧
      text = Typed.text false false cs := by
  rcases h with ⟨r, hr, hfinal⟩
  have hstart : Held .operand [] := ⟨.operand, [], ⟨by simp, rfl, rfl⟩, .inl rfl⟩
  rcases (held_of_run? hstart hr).finished hfinal with ⟨cs, hcs⟩
  exact ⟨cs, hcs.wellFormed, hcs.follow, hcs.text_eq⟩

end Typed

end Calculator
