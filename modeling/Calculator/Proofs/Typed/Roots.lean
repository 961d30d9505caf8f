import Calculator.Shorthand.Canonical
import Calculator.Proofs.Typed.Marks

/-!
# Expanding the root signs of typed formulas

Root signs are expanded when marks have become calls. What a root sign reaches
is found on characters, and on the text of pieces it is the text of what is
found on pieces: parentheses are only written by pieces that are parentheses
or that close what they open, and neither numerals nor words are cut in two.

All pieces that follow their places are covered, whether or not they close
their parentheses. A root sign in front of a group that is never closed has no
operand in either way of looking for one.

## Theorems

* `Typed.closeFrom?_text`: The end of a group is found.
* `Typed.rootOperand?_text`: The operand of a root sign is found.
* `Typed.follow?_of_operand?`: The operand and the rest follow their places.
* `Typed.respell_expandRoots_text`: The text of the canonical lexemes.
* `Typed.expand_text_eq`: Expanding shorthand translates the pieces.
-/

namespace Calculator

namespace Shorthand

/-- Text without parentheses is passed over. -/
theorem closeFrom?_append {depth : Nat} {s : List Char} (hs : ∀ c ∈ s, c ≠ '(' ∧ c ≠ ')')
    (rest : List Char) :
    closeFrom? depth (s ++ rest) =
      (closeFrom? depth rest).map fun split => (s ++ split.1, split.2) := by
  induction s with
  | nil => simp
  | cons c s ih =>
      have hc := hs c (by simp)
      rw [List.cons_append, closeFrom?, if_neg hc.1, if_neg hc.2,
        ih fun d hd => hs d (by simp [hd])]
      cases closeFrom? depth rest <;> rfl

/-- A call without parentheses in its argument is passed over inside a group. -/
theorem closeFrom?_call {depth : Nat} (hd : 1 ≤ depth) {word argument : List Char}
    (hw : ∀ c ∈ word, c ≠ '(' ∧ c ≠ ')') (ha : ∀ c ∈ argument, c ≠ '(' ∧ c ≠ ')')
    (rest : List Char) :
    closeFrom? depth (call word argument ++ rest) =
      (closeFrom? depth rest).map fun split => (call word argument ++ split.1, split.2) := by
  -- The parenthesis of the call closes what the call has opened.
  have hclose : closeFrom? (depth + 1) (')' :: rest) =
      (closeFrom? depth rest).map fun split => (')' :: split.1, split.2) := by
    rw [closeFrom?, if_neg (by decide), if_pos rfl, if_neg (by omega), Nat.add_sub_cancel]
  have htext : call word argument ++ rest = word ++ '(' :: (argument ++ ')' :: rest) := by
    simp [call]
  rw [htext, closeFrom?_append hw, closeFrom?, if_pos rfl, closeFrom?_append ha, hclose]
  cases closeFrom? depth rest <;> simp [call]

theorem mem_call {word argument : List Char} {c : Char} (h : c ∈ call word argument) :
    c ∈ word ∨ c = '(' ∨ c ∈ argument ∨ c = ')' := by
  simpa [call] using h

/-- A name is not cut in two. -/
theorem named?_append {name rest : List Char} (hn : ∀ c ∈ name, Text.isLetter c = true)
    (hr : ∀ c ∈ rest.head?, Text.isLetter c = false) :
    named? (name ++ rest) =
      if rest.head? = some '(' then (group? rest).map fun split => (name ++ split.1, split.2)
      else if name.isEmpty then none else some (name, rest) := by
  simp only [named?, takeWhile_of_stop hn hr, dropWhile_of_stop hn hr]

theorem rootOperand?_of_name {c : Char} (hroot : c ≠ '√') (hdigit : Text.isDigitSign c = false)
    (hpoint : c ≠ '.') (rest : List Char) : rootOperand? (c :: rest) = named? (c :: rest) := by
  rw [rootOperand?, if_neg hroot, if_neg]
  simp [hdigit, hpoint]

/-- Text without root signs is copied. -/
theorem expandRoots_append {s : List Char} (hs : ∀ c ∈ s, c ≠ '√') (rest : List Char) :
    expandRoots (s ++ rest) = s ++ expandRoots rest := by
  induction s with
  | nil => rfl
  | cons c s ih =>
      rw [List.cons_append, expandRoots, if_neg (hs c (by simp)),
        ih fun d hd => hs d (by simp [hd])]
      rfl

theorem expandRoots_root {rest operand tail : List Char}
    (h : rootOperand? rest = some (operand, tail)) :
    expandRoots ('√' :: rest) = call rootWord (expandRoots operand) ++ expandRoots tail := by
  rw [expandRoots, if_pos rfl]
  split
  · rename_i heq
    rw [h] at heq
    rcases (by simpa using heq : (_ ∧ _)) with ⟨rfl, rfl⟩
    rfl
  · rename_i heq
    rw [h] at heq
    exact absurd heq (by simp)

theorem expandRoots_bare {rest : List Char} (h : rootOperand? rest = none) :
    expandRoots ('√' :: rest) = rootWord ++ expandRoots rest := by
  rw [expandRoots, if_pos rfl]
  split
  · rename_i heq
    rw [h] at heq
    exact absurd heq (by simp)
  · rfl

theorem respell_append (as bs : List Char) : respell (as ++ bs) = respell as ++ respell bs := by
  simp [respell]

/-- Text without the power sign and the circle constant is not respelled. -/
theorem respell_eq {s : List Char} (hs : ∀ c ∈ s, c ≠ '^' ∧ c ≠ 'π') : respell s = s := by
  induction s with
  | nil => rfl
  | cons c s ih =>
      have hc := hs c (by simp)
      have hs' := ih fun d hd => hs d (by simp [hd])
      -- Each character stands for itself.
      rw [respell] at hs'
      rw [respell, List.flatMap_cons, hs', respelled, if_neg hc.1, if_neg hc.2]
      rfl

end Shorthand

namespace Text

theorem isDigitSign_of_isAlpha {c : Char} (h : c.isAlpha = true) : isDigitSign c = false := by
  -- No digit sign of any kind lies among the ASCII letters.
  have hdisjoint : ∀ r ∈ signOnlyDigits, r.2 < 65 ∨ 122 < r.1 := by decide
  rw [isDigitSign, Bool.or_eq_false_iff]
  refine ⟨(Bool.or_eq_false_iff.1 (Numeral.isPart_of_isAlpha h)).1, ?_⟩
  rw [inRanges, List.any_eq_false]
  intro r hr
  have := hdisjoint r hr
  have := toNat_of_isAlpha h
  simp only [Bool.and_eq_true, decide_eq_true_eq]
  omega

end Text

namespace Typed

open Shorthand (respell expandRoots rootOperand? Mark)

theorem isLetter_text {c : Char} (h : isLetter c = true) : Text.isLetter c = true := by
  rcases Bool.or_eq_true_iff.1 h with h | h
  · exact Text.isLetter_of_isAlpha c h
  · rw [of_decide_eq_true h]
    decide

theorem isDigitSign_of_isLetter {c : Char} (h : isLetter c = true) :
    Text.isDigitSign c = false := by
  rcases Bool.or_eq_true_iff.1 h with h | h
  · exact Text.isDigitSign_of_isAlpha h
  · rw [of_decide_eq_true h]
    decide

theorem ne_of_isLetter {c d : Char} (h : isLetter c = true) (hd : isLetter d = false) : c ≠ d := by
  rintro rfl
  rw [hd] at h
  exact absurd h (by simp)

theorem ne_of_isPart {c d : Char} (h : Numeral.isPart c = true) (hd : Numeral.isPart d = false) :
    c ≠ d := by
  rintro rfl
  rw [hd] at h
  exact absurd h (by simp)

/-- The text of a signed numeral has only parts of numerals and a minus sign. -/
theorem mem_signed {negative : Bool} {n : Numeral} (hn : n.WellFormed) {c : Char}
    (hc : c ∈ Symbol.signed negative n) : c = '-' ∨ Numeral.isPart c = true := by
  cases negative with
  | false => exact .inr (Numeral.isPart_of_mem_text hn hc)
  | true =>
      rcases (by simpa [Symbol.signed] using hc) with rfl | hc
      · exact .inl rfl
      · exact .inr (Numeral.isPart_of_mem_text hn hc)

theorem not_paren_of_isPart {c : Char} (h : Numeral.isPart c = true) : c ≠ '(' ∧ c ≠ ')' :=
  ⟨ne_of_isPart h (by decide), ne_of_isPart h (by decide)⟩

theorem not_paren_of_mem_signed {negative : Bool} {n : Numeral} (hn : n.WellFormed) {c : Char}
    (hc : c ∈ Symbol.signed negative n) : c ≠ '(' ∧ c ≠ ')' := by
  rcases mem_signed hn hc with rfl | h
  · exact ⟨by decide, by decide⟩
  · exact not_paren_of_isPart h

/-- A piece that is no parenthesis is passed over inside a group. -/
theorem closeFrom?_piece {x : Symbol} (hx : x.WellFormed) (hl : x ≠ .leftParen)
    (hr : x ≠ .rightParen) {depth : Nat} (hd : 1 ≤ depth) (rest : List Char) :
    Shorthand.closeFrom? depth (x.text true true ++ rest) =
      (Shorthand.closeFrom? depth rest).map fun split =>
        (x.text true true ++ split.1, split.2) := by
  cases x with
  | leftParen => exact absurd rfl hl
  | rightParen => exact absurd rfl hr
  | number n =>
      exact Shorthand.closeFrom?_append
        (fun c hc => not_paren_of_isPart (Numeral.isPart_of_mem_text hx hc)) rest
  -- A mark has become a call, which closes its own parenthesis.
  | percent n =>
      exact Shorthand.closeFrom?_call hd (forall_mem_of_all (by decide))
        (fun c hc => not_paren_of_isPart (Numeral.isPart_of_mem_text hx hc)) rest
  | factorial negative n =>
      exact Shorthand.closeFrom?_call hd (forall_mem_of_all (by decide))
        (fun c hc => not_paren_of_mem_signed hx hc) rest
  | word letters =>
      refine Shorthand.closeFrom?_append (fun c hc => ⟨?_, ?_⟩) rest
      · exact ne_of_isLetter (hx.2 c hc) (by decide)
      · exact ne_of_isLetter (hx.2 c hc) (by decide)
  | operator op =>
      exact Shorthand.closeFrom?_append (by cases op <;> simp [Symbol.text, BinaryOp.symbol]) rest
  | _ => exact Shorthand.closeFrom?_append (by simp [Symbol.text]) rest

/-- The end of a group is found on characters where it is found on pieces. -/
theorem closeFrom?_text {cs : List Symbol} (hw : ∀ x ∈ cs, x.WellFormed) {depth : Nat}
    (hd : 1 ≤ depth) :
    Shorthand.closeFrom? depth (text true true cs) =
      (closeFrom? depth cs).map fun split => (text true true split.1, text true true split.2) := by
  fun_induction closeFrom? depth cs with
  | case1 depth => rfl
  -- Both sides count the same parentheses, one piece at a time.
  | case2 depth cs ih =>
      have htext : text true true (.leftParen :: cs) = '(' :: text true true cs := rfl
      rw [htext, Shorthand.closeFrom?, if_pos rfl, ih (fun y hy => hw y (by simp [hy])) (by omega)]
      cases closeFrom? (depth + 1) cs <;> rfl
  | case3 depth cs hle =>
      have htext : text true true (.rightParen :: cs) = ')' :: text true true cs := rfl
      rw [htext, Shorthand.closeFrom?, if_neg (by decide), if_pos rfl, if_pos hle]
      rfl
  | case4 depth cs hle ih =>
      have htext : text true true (.rightParen :: cs) = ')' :: text true true cs := rfl
      rw [htext, Shorthand.closeFrom?, if_neg (by decide), if_pos rfl, if_neg hle,
        ih (fun y hy => hw y (by simp [hy])) (by omega)]
      cases closeFrom? (depth - 1) cs <;> rfl
  | case5 depth x cs hl hr ih =>
      rw [text_cons, closeFrom?_piece (hw x (by simp)) hl hr hd,
        ih (fun y hy => hw y (by simp [hy])) hd]
      cases closeFrom? depth cs <;> rfl

/-- Behind an operand there is no letter and no opening parenthesis. -/
theorem not_letter_of_closed {cs : List Symbol} {q : Place} (h : follow? .closed cs = some q) :
    ∀ c ∈ (text true true cs).head?, Text.isLetter c = false ∧ c ≠ '(' := by
  have hall : ∀ c ∈ closers, Text.isLetter c = false ∧ c ≠ '(' :=
    forall_mem_of_all (by decide)
  exact fun c hc => hall c (head?_text_of_closed h true true c hc)

/-- A call without parentheses in its argument is an operand. -/
theorem rootOperand?_call {c : Char} {word argument : List Char}
    (hw : ∀ d ∈ c :: word, d.isAlpha = true) (ha : ∀ d ∈ argument, d ≠ '(' ∧ d ≠ ')')
    (rest : List Char) :
    rootOperand? (Shorthand.call (c :: word) argument ++ rest) =
      some (Shorthand.call (c :: word) argument, rest) := by
  have hc := hw c (by simp)
  have htext : Shorthand.call (c :: word) argument ++ rest =
      (c :: word) ++ '(' :: (argument ++ ')' :: rest) := by simp [Shorthand.call]
  have hletters : ∀ d ∈ c :: word, Text.isLetter d = true := fun d hd =>
    Text.isLetter_of_isAlpha d (hw d hd)
  -- The argument has no parentheses, so the first one closes the group.
  have hgroup : Shorthand.group? ('(' :: (argument ++ ')' :: rest)) =
      some ('(' :: (argument ++ [')']), rest) := by
    rw [Shorthand.group?, Shorthand.closeFrom?_append ha]
    rfl
  have hnamed : Shorthand.named? ((c :: word) ++ '(' :: (argument ++ ')' :: rest)) = _ :=
    Shorthand.named?_append hletters (by simp; decide)
  have hroot : c ≠ '√' := ne_of_isLetter (by simp [isLetter, hc]) (by decide)
  have hpoint : c ≠ '.' := ne_of_isLetter (by simp [isLetter, hc]) (by decide)
  rw [htext, List.cons_append, Shorthand.rootOperand?_of_name hroot
    (Text.isDigitSign_of_isAlpha hc) hpoint, ← List.cons_append, hnamed, List.head?_cons,
    if_pos rfl, hgroup]
  rfl

/-- A numeral is an operand. -/
theorem rootOperand?_numeral {n : Numeral} (hn : n.WellFormed) {rest : List Char}
    (hr : ∀ c ∈ rest.head?, Numeral.isPart c = false) :
    rootOperand? (n.text ++ rest) = some (n.text, rest) := by
  rcases List.exists_cons_of_ne_nil (Numeral.text_ne_nil hn) with ⟨c, s, htext⟩
  have hpart : Numeral.isPart c = true := Numeral.isPart_of_mem_text hn (by simp [htext])
  have hdigits : (Text.isDigitSign c || decide (c = '.')) = true := by
    rw [Bool.or_eq_true, Text.isDigitSign, Bool.or_eq_true]
    rcases Bool.or_eq_true_iff.1 hpart with h | h
    · exact .inl (.inl h)
    · exact .inr h
  -- Behind the numeral there is neither a digit nor a point.
  have hscan := Numeral.scan?_text_append hn
    (fun d hd => (Bool.or_eq_false_iff.1 (hr d hd)).1)
    (fun _ hpoint => absurd (hr '.' hpoint) (by decide))
  rw [htext, List.cons_append] at hscan ⊢
  rw [rootOperand?, if_neg (ne_of_isPart hpart (by decide)), if_pos hdigits, hscan,
    Option.map_some, htext]

/-- A name is an operand, with the group behind it if there is one. -/
theorem rootOperand?_word {letters : List Char} (hw : (Symbol.word letters).WellFormed)
    {rest : List Char} (hr : ∀ c ∈ rest.head?, Text.isLetter c = false) :
    rootOperand? (letters ++ rest) =
      if rest.head? = some '(' then
        (Shorthand.group? rest).map fun split => (letters ++ split.1, split.2)
      else some (letters, rest) := by
  have hnamed := Shorthand.named?_append (fun c hc => isLetter_text (hw.2 c hc)) hr
  rw [List.isEmpty_eq_false_iff.2 hw.1] at hnamed
  rcases List.exists_cons_of_ne_nil hw.1 with ⟨c, s, rfl⟩
  have hc := hw.2 c (by simp)
  rw [List.cons_append] at hnamed ⊢
  rw [Shorthand.rootOperand?_of_name (ne_of_isLetter hc (by decide)) (isDigitSign_of_isLetter hc)
    (ne_of_isLetter hc (by decide)), hnamed]
  simp

/-- A group is an operand. -/
theorem rootOperand?_group (rest : List Char) :
    rootOperand? ('(' :: rest) = Shorthand.group? ('(' :: rest) := by
  rw [Shorthand.rootOperand?_of_name (by decide) (by decide) (by decide)]
  have hnamed : Shorthand.named? ([] ++ '(' :: rest) = _ :=
    Shorthand.named?_append (by simp) (by simp; decide)
  rw [List.nil_append] at hnamed
  rw [hnamed, List.head?_cons, if_pos rfl]
  simp

/-- The operand of a root sign is found on characters where it is found on
    pieces. -/
theorem rootOperand?_text {cs : List Symbol} (h : follow? .root cs = some .closed)
    (hw : ∀ x ∈ cs, x.WellFormed) :
    rootOperand? (text true true cs) =
      (operand? cs).map fun split => (text true true split.1, text true true split.2) := by
  induction cs with
  | nil => rfl
  | cons x cs ih =>
      have hx := hw x (by simp)
      have hcs : ∀ y ∈ cs, y.WellFormed := fun y hy => hw y (by simp [hy])
      rcases follow?_cons h with ⟨q, hq, hfollow⟩
      rw [text_cons]
      cases x with
      -- A numeral with no mark left behind it.
      | number n =>
          rcases closed_of_next? (.inl rfl) hq
          have hstop := not_isPart_of_closed hfollow true true '!' (by decide)
          rw [Symbol.text, rootOperand?_numeral hx fun c hc => (hstop c hc).1]
          simp [operand?, text, Symbol.text]
      | percent n =>
          rw [Symbol.text, if_pos rfl]
          refine (rootOperand?_call (forall_mem_of_all (by decide)) (fun d hd => ?_) _).trans ?_
          · exact not_paren_of_isPart (Numeral.isPart_of_mem_text hx hd)
          · simp [operand?, text, Symbol.text, Mark.percent]
      | factorial negative n =>
          cases negative with
          | true => exact absurd hq (by simp [Place.next?, Place.ofAtom?])
          | false =>
              rw [Symbol.text, if_pos rfl]
              refine (rootOperand?_call (forall_mem_of_all (by decide)) (fun d hd => ?_) _).trans ?_
              · exact not_paren_of_mem_signed hx hd
              · simp [operand?, text, Symbol.text, Mark.factorial]
      -- The reach is that of the next root sign.
      | root =>
          rcases (by simpa [Place.next?, Place.ofAtom?] using hq : Place.root = q)
          have htext : Symbol.root.text true true ++ text true true cs =
            '√' :: text true true cs := rfl
          rw [htext, rootOperand?, if_pos rfl, ih hfollow hcs, operand?]
          cases operand? cs <;> rfl
      | leftParen =>
          have htext : Symbol.leftParen.text true true ++ text true true cs =
            '(' :: text true true cs := rfl
          rw [htext, rootOperand?_group, Shorthand.group?, closeFrom?_text hcs (Nat.le_refl 1),
            operand?]
          cases closeFrom? 1 cs <;> rfl
      | word letters =>
          rw [Symbol.text]
          rcases ofWord?_of_next? hq with rfl | rfl
          · -- Behind a constant there is an operation or the end of a group.
            have hstop := not_letter_of_closed hfollow
            have hdetached : Detached cs := by
              intro hhead
              rcases List.head?_eq_some_iff.1 hhead with ⟨rest, rfl⟩
              exact absurd hfollow (by simp [follow?, Place.next?])
            rw [rootOperand?_word hx fun c hc => (hstop c hc).1, if_neg, operand?_word hdetached]
            · simp [text, Symbol.text]
            · exact fun hparen => (hstop '(' hparen).2 rfl
          · -- Behind a callee there is a parenthesis.
            cases cs with
            | nil => exact absurd hfollow (by simp [follow?])
            | cons y cs =>
                rcases follow?_cons hfollow with ⟨r, hr, -⟩
                cases y with
                | leftParen =>
                    have htext : text true true (.leftParen :: cs) = '(' :: text true true cs := rfl
                    rw [htext, rootOperand?_word hx (by simp; decide), List.head?_cons,
                      if_pos rfl, Shorthand.group?,
                      closeFrom?_text (fun z hz => hcs z (by simp [hz])) (Nat.le_refl 1), operand?]
                    cases closeFrom? 1 cs <;> rfl
                | _ => exact absurd hr (by simp [Place.next?])
      | _ => exact absurd hq (by simp [Place.next?, Place.ofAtom?])

/-- The end of a group is behind an operand, wherever the group stands. -/
theorem follow?_of_closeFrom? {depth : Nat} {cs group rest : List Symbol} {p q : Place}
    (hsplit : closeFrom? depth cs = some (group, rest)) (h : follow? p cs = some q) :
    follow? p group = some .closed ∧ follow? .closed rest = some q := by
  have happ := append_of_closeFrom? hsplit
  rw [← happ, follow?_append] at h
  rcases Option.bind_eq_some_iff.1 h with ⟨r, hgroup, hrest⟩
  -- A closing parenthesis leads to no other place.
  have hclosed : r = .closed := by
    clear h happ hrest
    fun_induction closeFrom? depth cs generalizing group p with
    | case1 => exact absurd hsplit (by simp)
    | case3 depth cs hle =>
        rcases (by simpa using hsplit : (_ ∧ _)) with ⟨rfl, rfl⟩
        rcases follow?_cons hgroup with ⟨s, hs, hnil⟩
        have hs : s = .closed := by
          cases p <;> simp_all [Place.next?, Place.ofOperand?, Place.ofAtom?]
        rcases (by simpa [follow?] using hnil : s = r)
        exact hs
    | _ =>
        rename_i ih
        rcases split_of_map [_] hsplit with ⟨g, hg, rfl⟩
        rcases follow?_cons hgroup with ⟨s, -, hs⟩
        exact ih hg hs
  subst hclosed
  exact ⟨hgroup, hrest⟩

/-- An atom follows its places, and so does what is behind it. -/
theorem follow?_of_operand? {cs atom rest : List Symbol} {q : Place}
    (hsplit : operand? cs = some (atom, rest)) (h : follow? .root cs = some q)
    (hq : q = .closed) : follow? .root atom = some .closed ∧ follow? .closed rest = some q := by
  fun_induction operand? cs generalizing atom with
  | case1 cs ih =>
      rcases split_of_map [_] hsplit with ⟨a, ha, rfl⟩
      have hatom := ih ha h
      exact hatom
  -- The group behind a callee ends behind an operand.
  | case5 letters cs =>
      rcases split_of_map [_, _] hsplit with ⟨a, ha, rfl⟩
      rcases follow?_cons h with ⟨p, hp, hfollow⟩
      rcases follow?_cons hfollow with ⟨s, hs, hgroup⟩
      have hatom := follow?_of_closeFrom? ha hgroup
      refine ⟨?_, hatom.2⟩
      rw [List.cons_append, List.singleton_append, follow?, hp, Option.bind_some, follow?, hs]
      exact hatom.1
  | case7 cs =>
      rcases split_of_map [_] hsplit with ⟨a, ha, rfl⟩
      rcases follow?_cons h with ⟨p, hp, hgroup⟩
      have hatom := follow?_of_closeFrom? ha hgroup
      refine ⟨?_, hatom.2⟩
      rw [List.singleton_append, follow?, hp]
      exact hatom.1
  | case8 => exact absurd hsplit (by simp)
  | case6 letters cs hparen =>
      rcases (by simpa using hsplit : (_ ∧ _)) with ⟨rfl, rfl⟩
      rcases follow?_cons h with ⟨p, hp, hfollow⟩
      rcases ofWord?_of_next? hp with rfl | rfl
      · refine ⟨?_, hfollow⟩
        rw [follow?, hp]
        rfl
      · -- A callee without a group does not lead to the end of a formula.
        subst hq
        cases cs with
        | nil => exact absurd hfollow (by simp [follow?])
        | cons y cs =>
            rcases follow?_cons hfollow with ⟨r, hr, -⟩
            cases y with
            | leftParen => exact absurd rfl (hparen cs)
            | _ => exact absurd hr (by simp [Place.next?])
  | _ =>
      rcases (by simpa using hsplit : (_ ∧ _)) with ⟨rfl, rfl⟩
      exact ⟨rfl, h⟩

/-- The text of a piece that is no root sign has none. -/
theorem not_root_of_mem_text {x : Symbol} (hx : x.WellFormed) (hroot : x ≠ .root) :
    ∀ c ∈ x.text true true, c ≠ '√' := by
  have hpart {c : Char} (hc : Numeral.isPart c = true) : c ≠ '√' := ne_of_isPart hc (by decide)
  cases x with
  | root => exact absurd rfl hroot
  | number n => exact fun c hc => hpart (Numeral.isPart_of_mem_text hx hc)
  | percent n =>
      intro c hc
      rcases Shorthand.mem_call hc with hc | rfl | hc | rfl
      · exact (forall_mem_of_all (by decide) : ∀ c ∈ Mark.percent.word, c ≠ '√') c hc
      · decide
      · exact hpart (Numeral.isPart_of_mem_text hx hc)
      · decide
  | factorial negative n =>
      intro c hc
      rcases Shorthand.mem_call hc with hc | rfl | hc | rfl
      · exact (forall_mem_of_all (by decide) : ∀ c ∈ Mark.factorial.word, c ≠ '√') c hc
      · decide
      · rcases mem_signed hx hc with rfl | hc
        · decide
        · exact hpart hc
      · decide
  | word letters => exact fun c hc => ne_of_isLetter (hx.2 c hc) (by decide)
  | operator op => cases op <;> simp [Symbol.text, BinaryOp.symbol]
  | _ => simp [Symbol.text]

theorem respell_of_isPart {s : List Char} (hs : ∀ c ∈ s, Numeral.isPart c = true) :
    respell s = s :=
  Shorthand.respell_eq fun c hc =>
    ⟨ne_of_isPart (hs c hc) (by decide), ne_of_isPart (hs c hc) (by decide)⟩

/-- The text of a piece that is no root sign, respelled, is the text of its
    canonical lexemes. -/
theorem respell_text {x : Symbol} (hx : x.WellFormed) (hroot : x ≠ .root) :
    respell (x.text true true) = x.canonical.flatMap Calculator.Lexeme.text := by
  have hnumeral {n : Numeral} (hn : n.WellFormed) : respell n.text = n.text :=
    respell_of_isPart fun c hc => Numeral.isPart_of_mem_text hn hc
  cases x with
  | root => exact absurd rfl hroot
  | number n =>
      rw [Symbol.text, hnumeral hx]
      simp [Symbol.canonical, Calculator.Lexeme.text]
  | percent n =>
      have hword : respell Mark.percent.word = Callee.percent.name := by decide
      rw [Symbol.text, if_pos rfl, Shorthand.call, Shorthand.respell_append, hword,
        ← List.singleton_append, Shorthand.respell_append, Shorthand.respell_append, hnumeral hx]
      simp [Symbol.canonical, Calculator.Lexeme.text, respell, Shorthand.respelled]
  -- The word of the mark is the name of the callee, as it is spelled.
  | factorial negative n =>
      have hword : respell Mark.factorial.word = Callee.factorial.name := by decide
      have hsigned : respell (Symbol.signed negative n) = Symbol.signed negative n := by
        cases negative with
        | false => exact hnumeral hx
        | true =>
            rw [Symbol.signed, if_pos rfl, ← List.singleton_append, Shorthand.respell_append,
              hnumeral hx]
            rfl
      rw [Symbol.text, if_pos rfl, Shorthand.call, Shorthand.respell_append, hword,
        ← List.singleton_append, Shorthand.respell_append, Shorthand.respell_append, hsigned]
      cases negative <;>
        simp [Symbol.canonical, Symbol.signed, Calculator.Lexeme.text, respell, Shorthand.respelled,
          BinaryOp.symbol]
  | word letters => simp [Symbol.text, Symbol.canonical, Calculator.Lexeme.text, spelling]
  | operator op => cases op <;> decide
  | _ => decide

/-- The text of the canonical lexemes. -/
theorem respell_expandRoots_text {cs : List Symbol} {p : Place} (h : follow? p cs = some .closed)
    (hw : ∀ x ∈ cs, x.WellFormed) :
    respell (expandRoots (text true true cs)) =
      (canonical cs).flatMap Calculator.Lexeme.text := by
  have hroot {cs : List Symbol} {p : Place} (h : follow? p (.root :: cs) = some .closed) :
      follow? .root cs = some .closed := by
    rcases follow?_cons h with ⟨q, hq, hfollow⟩
    rwa [← root_of_next? hq] at hfollow
  have hword : respell Shorthand.rootWord = (Callee.elementary .sqrt).name := by decide
  fun_induction canonical cs generalizing p with
  | case1 =>
      rw [text, List.flatMap_nil, expandRoots]
      rfl
  -- Inside the call and behind it the pieces are expanded in turn.
  | case2 cs atom rest hsplit iha ihr =>
      have hcs := hroot h
      have hw' : ∀ x ∈ cs, x.WellFormed := fun y hy => hw y (by simp [hy])
      have hoperand := rootOperand?_text hcs hw'
      rw [hsplit, Option.map_some] at hoperand
      have hfollow := follow?_of_operand? hsplit hcs rfl
      have happ := append_of_operand? hsplit
      have htext : text true true (.root :: cs) = '√' :: text true true cs := rfl
      rw [htext, Shorthand.expandRoots_root hoperand, Shorthand.respell_append, Shorthand.call,
        Shorthand.respell_append, hword, ← List.singleton_append, Shorthand.respell_append,
        Shorthand.respell_append, iha hfollow.1 fun x hx => hw' x (by simp [← happ, hx]),
        ihr hfollow.2 fun x hx => hw' x (by simp [← happ, hx])]
      simp [Calculator.Lexeme.text, respell, Shorthand.respelled]
  -- No operand on pieces is no operand on characters.
  | case3 cs hnone ih =>
      have hcs := hroot h
      have hw' : ∀ x ∈ cs, x.WellFormed := fun y hy => hw y (by simp [hy])
      have hoperand := rootOperand?_text hcs hw'
      rw [hnone, Option.map_none] at hoperand
      have htext : text true true (.root :: cs) = '√' :: text true true cs := rfl
      rw [htext, Shorthand.expandRoots_bare hoperand, Shorthand.respell_append, hword,
        ih hcs hw']
      simp [Symbol.canonical, Calculator.Lexeme.text]
  | case4 x cs hx ih =>
      rcases follow?_cons h with ⟨q, -, hfollow⟩
      have hwx := hw x (by simp)
      rw [text_cons, Shorthand.expandRoots_append (not_root_of_mem_text hwx hx),
        Shorthand.respell_append, respell_text hwx hx, ih hfollow fun y hy => hw y (by simp [hy]),
        List.flatMap_append]

/-- Expanding shorthand translates the pieces. -/
theorem expand_text_eq {cs : List Symbol} (h : follow? .operand cs = some .closed)
    (hw : ∀ x ∈ cs, x.WellFormed) :
    Shorthand.expand (text false false cs) = (canonical cs).flatMap Calculator.Lexeme.text := by
  rw [Shorthand.expand, expandMarks_text h hw, respell_expandRoots_text h hw]

end Typed

end Calculator
