import Calculator.Proofs.Composition
import Calculator.Proofs.Coverage
import Calculator.Proofs.Text.Letter

/-!
# Operands of root signs

What a root sign reaches can be said without scanning: root signs, none or
some, and then an atom. An atom is a numeral that is as long as it can be, a
name that neither a letter nor an opening parenthesis follows, or a balanced
text in parentheses with letters in front of it or none. The matching
parenthesis is the one that the inside, being balanced, does not reach.

Nothing behind an operand is looked at but the one character that ends it, and
the roots inside of an operand do not get to see even that: their own operands
end at a parenthesis, or with the operand itself. So a root in a slice that was
cut out as an operand has the operand that it has in the whole text.

## Main definitions

* `Shorthand.Atom`: An atom, in front of the text that follows it.
* `Shorthand.operandEnd?`: Where the operand that starts at an index ends.

## Theorems

* `Shorthand.group?_eq_some_iff`: A group is a balanced text in parentheses.
* `Shorthand.rootOperand?_eq_some_iff`: An operand is root signs and an atom.
* `Shorthand.rootOperand?_inside`: Roots inside of an operand.
* `Shorthand.operandEnd?_exact`: Both, by index.
-/

namespace Calculator

namespace Text

theorem not_isLetter_paren : isLetter '(' = false ∧ isLetter ')' = false := by decide

theorem ne_of_isLetter {c d : Char} (h : isLetter c = true) (hd : isLetter d = false) : c ≠ d := by
  rintro rfl
  rw [hd] at h
  cases h

/-- After a balanced text as many parentheses are open as before it. -/
theorem Balanced.depth? {text : List Char} (h : Balanced text) (d : Nat) :
    Typed.depth? d text = some d := by
  refine Typed.depth?_eq_some_iff.2 ⟨fun s hs => ?_, by rw [h.total]⟩
  exact (h.prefix_le s hs).trans (Nat.le_add_left _ d)

end Text

/-- What is scanned is the longest numeral. -/
theorem Numeral.length_le_of_scan? {text rest : List Char} {n : Numeral}
    (h : scan? text = some (n, rest)) {m : Numeral} (hm : m.WellFormed) (hpre : m.text <+: text) :
    m.text.length ≤ n.text.length := by
  have hscan : Lexeme.scan? text = some (.number n, rest) := by
    rw [Lexeme.scan?, Lexeme.number?, h]
    rfl
  exact Lexeme.length_le_of_scan? hscan (u := .number m) hm hpre

namespace Shorthand

open Typed (depth?)

/-! ### Groups -/

/-- The parenthesis that closes a group is the first one that its inside, as
    far as it goes, does not close itself. -/
theorem closeFrom?_eq_some_iff {d : Nat} {text group rest : List Char} :
    closeFrom? (d + 1) text = some (group, rest) ↔
      ∃ inside, depth? d inside = some 0 ∧ group = inside ++ [')'] ∧
        text = inside ++ ')' :: rest := by
  constructor
  · intro h
    induction text generalizing d group with
    | nil => cases h
    | cons c text ih =>
      rw [closeFrom?] at h
      split at h
      · rename_i hopen
        obtain ⟨⟨g, r⟩, hg, heq⟩ := Option.map_eq_some_iff.1 h
        obtain ⟨rfl, rfl⟩ := by simpa using heq
        obtain ⟨inside, hinside, rfl, rfl⟩ := ih hg
        exact ⟨'(' :: inside, by simpa using hinside, by simp [hopen], by simp [hopen]⟩
      · split at h
        · rename_i hclose
          subst hclose
          split at h
          · -- The group is closed here, with nothing open inside.
            obtain rfl : d = 0 := by omega
            obtain ⟨rfl, rfl⟩ := by simpa using h
            exact ⟨[], rfl, rfl, rfl⟩
          · obtain ⟨e, rfl⟩ : ∃ e, d = e + 1 := ⟨d - 1, by omega⟩
            obtain ⟨⟨g, r⟩, hg, heq⟩ := Option.map_eq_some_iff.1 h
            obtain ⟨rfl, rfl⟩ := by simpa using heq
            obtain ⟨inside, hinside, rfl, rfl⟩ := ih hg
            exact ⟨')' :: inside, by simpa using hinside, rfl, rfl⟩
        · rename_i hopen hclose
          obtain ⟨⟨g, r⟩, hg, heq⟩ := Option.map_eq_some_iff.1 h
          obtain ⟨rfl, rfl⟩ := by simpa using heq
          obtain ⟨inside, hinside, rfl, rfl⟩ := ih hg
          refine ⟨c :: inside, ?_, rfl, rfl⟩
          rwa [Typed.depth?_cons ⟨hopen, hclose⟩]
  · rintro ⟨inside, hinside, rfl, rfl⟩
    rw [closeFrom?_balanced hinside]
    rfl

/-- A group is a balanced text in parentheses. -/
theorem group?_eq_some_iff {text group rest : List Char} :
    group? text = some (group, rest) ↔
      ∃ inside, Text.Balanced inside ∧ group = Formula.enclosed inside ∧ text = group ++ rest := by
  constructor
  · intro h
    unfold group? at h
    split at h
    · obtain ⟨⟨g, r⟩, hg, heq⟩ := Option.map_eq_some_iff.1 h
      obtain ⟨rfl, rfl⟩ := by simpa using heq
      obtain ⟨inside, hinside, rfl, rfl⟩ := closeFrom?_eq_some_iff.1 hg
      exact ⟨inside, Text.balanced_iff.2 hinside, rfl, by simp⟩
    · cases h
  · rintro ⟨inside, hinside, rfl, rfl⟩
    have hclose : closeFrom? 1 (inside ++ ')' :: rest) = some (inside ++ [')'], rest) :=
      closeFrom?_eq_some_iff.2 ⟨inside, Text.balanced_iff.1 hinside, rfl, rfl⟩
    rw [Formula.enclosed_append, group?, hclose]
    rfl

/-! ### Atoms -/

/-- What may be the operand of a root sign and is no root itself, in front of
    the text that follows it. -/
inductive Atom (rest : List Char) : List Char → Prop
  /-- A numeral, as long as it can be. -/
  | numeral (n : Numeral) (wellFormed : n.WellFormed)
      (longest : ∀ m : Numeral, m.WellFormed → m.text <+: n.text ++ rest →
        m.text.length ≤ n.text.length) : Atom rest n.text
  /-- A name, with neither a letter nor a group behind it. -/
  | name (letters : List Char) (ne_nil : letters ≠ [])
      (letter : ∀ c ∈ letters, Text.isLetter c = true)
      (stop : ∀ c ∈ rest.head?, Text.isLetter c = false ∧ c ≠ '(') : Atom rest letters
  /-- A group that closes, with a name in front of it or none. -/
  | group (letters inside : List Char) (letter : ∀ c ∈ letters, Text.isLetter c = true)
      (balanced : Text.Balanced inside) : Atom rest (letters ++ Formula.enclosed inside)

/-- What is found as a name, with the group behind it, is an atom. -/
theorem atom_of_named? {text operand rest : List Char}
    (h : named? text = some (operand, rest)) : Atom rest operand := by
  have hletters : ∀ c ∈ text.takeWhile Text.isLetter, Text.isLetter c = true :=
    List.all_eq_true.1 List.all_takeWhile
  simp only [named?] at h
  split at h
  · obtain ⟨⟨g, r⟩, hg, heq⟩ := Option.map_eq_some_iff.1 h
    obtain ⟨rfl, rfl⟩ := by simpa using heq
    obtain ⟨inside, hinside, rfl, -⟩ := group?_eq_some_iff.1 hg
    exact .group _ inside hletters hinside
  · rename_i hparen
    split at h
    · cases h
    · rename_i hne
      obtain ⟨rfl, rfl⟩ := by simpa using h
      refine .name _ (by simpa using hne) hletters fun c hc => ⟨Lexeme.head?_dropWhile c hc, ?_⟩
      rintro rfl
      exact hparen hc

/-- What is found is root signs and an atom. -/
theorem exists_atom_of_rootOperand? {text operand rest : List Char}
    (h : rootOperand? text = some (operand, rest)) :
    ∃ signs atom, (∀ c ∈ signs, c = '√') ∧ Atom rest atom ∧ operand = signs ++ atom := by
  induction text generalizing operand with
  | nil => cases h
  | cons c text ih =>
    rw [rootOperand?] at h
    split at h
    · rename_i hroot
      obtain ⟨⟨a, r⟩, ha, heq⟩ := Option.map_eq_some_iff.1 h
      obtain ⟨rfl, rfl⟩ := by simpa using heq
      obtain ⟨signs, atom, hsigns, hatom, rfl⟩ := ih ha
      exact ⟨c :: signs, atom, List.forall_mem_cons.2 ⟨hroot, hsigns⟩, hatom, rfl⟩
    · split at h
      · obtain ⟨⟨n, r⟩, hn, heq⟩ := Option.map_eq_some_iff.1 h
        obtain ⟨rfl, rfl⟩ := by simpa using heq
        refine ⟨[], n.text, by simp, .numeral n (Numeral.wellFormed_of_scan? hn) ?_, rfl⟩
        rw [Numeral.text_append_of_scan? hn]
        exact fun m hm hpre => Numeral.length_le_of_scan? hn hm hpre
      · exact ⟨[], operand, by simp, atom_of_named? h, rfl⟩

/-- A character that may start a numeral asks for one. -/
theorem rootOperand?_of_isPart {c : Char} (hc : Numeral.isPart c = true) (text : List Char) :
    rootOperand? (c :: text) =
      (Numeral.scan? (c :: text)).map fun split => (split.1.text, split.2) := by
  have hdigits : (Text.isDigitSign c || decide (c = '.')) = true := by
    rw [Bool.or_eq_true, Text.isDigitSign, Bool.or_eq_true]
    rcases Bool.or_eq_true_iff.1 hc with h | h
    · exact .inl (.inl h)
    · exact .inr h
  rw [rootOperand?, if_neg (Typed.ne_of_isPart hc (by decide)), if_pos hdigits]

/-- Letters, or a group without any, ask for a name. -/
theorem rootOperand?_of_letters {letters rest : List Char}
    (hletter : ∀ c ∈ letters, Text.isLetter c = true)
    (hne : letters = [] → rest.head? = some '(') :
    rootOperand? (letters ++ rest) = named? (letters ++ rest) := by
  cases letters with
  | nil =>
    obtain ⟨behind, rfl⟩ := List.head?_eq_some_iff.1 (hne rfl)
    exact rootOperand?_of_name (by decide) (by decide) (by decide) behind
  | cons c letters =>
    have hc := hletter c List.mem_cons_self
    exact rootOperand?_of_name (Text.ne_of_isLetter hc (by decide +kernel))
      (Text.isDigitSign_of_isLetter hc) (Text.ne_of_isLetter hc (by decide)) _

/-- An atom is found where it stands. -/
theorem Atom.rootOperand? {atom rest : List Char} (h : Atom rest atom) :
    rootOperand? (atom ++ rest) = some (atom, rest) := by
  cases h with
  | numeral n hn longest =>
    obtain ⟨⟨m, behind⟩, hm⟩ :=
      Option.ne_none_iff_exists'.1 (Numeral.scan?_text_append_ne_none hn rest)
    have happ := Numeral.text_append_of_scan? hm
    have hle := longest m (Numeral.wellFormed_of_scan? hm) ⟨behind, happ⟩
    have hge := Numeral.length_le_of_scan? hm hn (List.prefix_append n.text rest)
    -- Each is as long as the other, so they are the same.
    obtain ⟨hsame, rfl⟩ := List.append_inj happ (le_antisymm hle hge)
    obtain ⟨c, tail, htext⟩ := List.exists_cons_of_ne_nil (Numeral.text_ne_nil hn)
    have hpart : Numeral.isPart c = true := Numeral.isPart_of_mem_text hn (by simp [htext])
    rw [htext, List.cons_append] at hm ⊢
    rw [rootOperand?_of_isPart hpart, hm, Option.map_some, hsame, htext]
  | name _ hne hletter hstop =>
    have hparen : rest.head? ≠ some '(' := fun hhead => (hstop '(' hhead).2 rfl
    rw [rootOperand?_of_letters hletter fun hnil => absurd hnil hne,
      named?_append hletter fun c hc => (hstop c hc).1, if_neg hparen, if_neg (by simpa using hne)]
  | group letters inside hletter hinside =>
    have hgroup : group? (Formula.enclosed inside ++ rest) = some (Formula.enclosed inside, rest) :=
      group?_eq_some_iff.2 ⟨inside, hinside, rfl, rfl⟩
    have hhead : (Formula.enclosed inside ++ rest).head? = some '(' := rfl
    rw [List.append_assoc, rootOperand?_of_letters hletter fun _ => hhead,
      named?_append hletter (by rw [hhead]; simpa using Text.not_isLetter_paren.1), if_pos hhead,
      hgroup]
    rfl

/-- An operand is root signs and an atom, and what follows it follows the
    atom. -/
theorem rootOperand?_eq_some_iff {text operand rest : List Char} :
    rootOperand? text = some (operand, rest) ↔
      ∃ signs atom, (∀ c ∈ signs, c = '√') ∧ Atom rest atom ∧ operand = signs ++ atom ∧
        text = operand ++ rest := by
  constructor
  · intro h
    obtain ⟨signs, atom, hsigns, hatom, hoperand⟩ := exists_atom_of_rootOperand? h
    exact ⟨signs, atom, hsigns, hatom, hoperand, (append_of_rootOperand? h).symm⟩
  · rintro ⟨signs, atom, hsigns, hatom, rfl, rfl⟩
    induction signs with
    | nil => exact hatom.rootOperand?
    | cons c signs ih =>
      rw [List.cons_append, List.cons_append, rootOperand?, if_pos (hsigns c List.mem_cons_self),
        ih fun d hd => hsigns d (List.mem_cons_of_mem c hd)]
      rfl

/-! ### Balance -/

theorem balanced_of_not_paren {text : List Char} (h : ∀ c ∈ text, c ≠ '(' ∧ c ≠ ')') :
    Text.Balanced text :=
  Text.balanced_iff.2 (depth?_of_not_paren h 0)

theorem not_paren_of_isLetter {text : List Char} (h : ∀ c ∈ text, Text.isLetter c = true) :
    ∀ c ∈ text, c ≠ '(' ∧ c ≠ ')' := fun c hc =>
  ⟨Text.ne_of_isLetter (h c hc) Text.not_isLetter_paren.1,
    Text.ne_of_isLetter (h c hc) Text.not_isLetter_paren.2⟩

/-- An atom closes what it opens. -/
theorem Atom.balanced {atom rest : List Char} (h : Atom rest atom) : Text.Balanced atom := by
  cases h with
  | numeral n hn longest =>
    exact balanced_of_not_paren fun c hc =>
      Typed.not_paren_of_isPart (Numeral.isPart_of_mem_text hn hc)
  | name _ hne hletter hstop => exact balanced_of_not_paren (not_paren_of_isLetter hletter)
  | group letters inside hletter hinside =>
    have hparen := not_paren_of_isLetter hletter
    rw [Text.balanced_iff, Typed.depth?_append_of_not_paren hparen, Formula.enclosed,
      Typed.depth?_open, Typed.depth?_append, hinside.depth?]
    rfl

/-- So does an operand. -/
theorem balanced_of_rootOperand? {text operand rest : List Char}
    (h : rootOperand? text = some (operand, rest)) : Text.Balanced operand := by
  obtain ⟨signs, atom, hsigns, hatom, rfl, -⟩ := rootOperand?_eq_some_iff.1 h
  have hparen : ∀ c ∈ signs, c ≠ '(' ∧ c ≠ ')' := fun c hc => by
    rw [hsigns c hc]
    decide
  rw [Text.balanced_iff, Typed.depth?_append_of_not_paren hparen]
  exact Text.balanced_iff.1 hatom.balanced

/-! ### Roots inside of an operand -/

/-- What follows an atom may be left away. -/
theorem Atom.alone {atom rest : List Char} (h : Atom rest atom) : Atom [] atom := by
  cases h with
  | numeral n hn longest =>
    refine .numeral n hn fun m hm hpre => longest m hm ?_
    rw [List.append_nil] at hpre
    exact hpre.trans (List.prefix_append n.text rest)
  | name _ hne hletter hstop => exact .name _ hne hletter (by simp)
  | group letters inside hletter hinside => exact .group letters inside hletter hinside

/-- A root sign in an atom stands in a group, and what follows it there closes
    all that is open but for the group itself. -/
theorem Atom.exists_closing {atom rest front inner : List Char} (h : Atom rest atom)
    (hsplit : atom = front ++ '√' :: inner) :
    ∃ body, inner = body ++ [')'] ∧ Text.Closing body := by
  have hletter : Text.isLetter '√' = false := by decide +kernel
  have hmem : '√' ∈ atom := by simp [hsplit]
  cases h with
  | numeral n hn longest => exact absurd (Numeral.isPart_of_mem_text hn hmem) (by decide)
  | name _ hne hletters hstop => exact absurd (hletters '√' hmem) (by simp [hletter])
  | group letters inside hletters hinside =>
    rcases List.append_eq_append_iff.1 hsplit with ⟨before, -, hgroup⟩ | ⟨more, rfl, hmore⟩
    · obtain ⟨before, rfl⟩ : ∃ a, before = '(' :: a := by
        cases before with
        | nil => cases hgroup
        | cons c a => exact ⟨a, by rw [(List.cons.inj hgroup).1]⟩
      have hbehind : inside ++ [')'] = before ++ '√' :: inner := (List.cons.inj hgroup).2
      -- The parenthesis at the end of the group is not the root.
      rcases List.append_eq_append_iff.1 hbehind with ⟨more, -, hend⟩ | ⟨more, rfl, hend⟩
      · cases more <;> simp at hend
      · cases more with
        | nil => simp at hend
        | cons c body =>
          have hbody : inner = body ++ [')'] := (List.cons.inj hend).2
          exact ⟨body, hbody, hinside.closing.of_suffix ⟨before ++ [c], by simp⟩⟩
    · -- Nor is it one of the letters in front.
      cases more with
      | nil => cases hmore
      | cons c more =>
        have hc : '√' = c := (List.cons.inj hmore).1
        exact absurd (hletters c (by simp)) (by simp [← hc, hletter])

/-- A root in an atom does not look beyond it. -/
theorem Atom.rootOperand?_inside {atom rest front inner : List Char} (h : Atom rest atom)
    (hsplit : atom = front ++ '√' :: inner) :
    Shorthand.rootOperand? (inner ++ rest) =
      (Shorthand.rootOperand? inner).map fun split => (split.1, split.2 ++ rest) := by
  obtain ⟨body, rfl, hbody⟩ := h.exists_closing hsplit
  -- The parenthesis behind the body ends all that the root reaches.
  rw [List.append_assoc, List.singleton_append, rootOperand?_append hbody,
    rootOperand?_append hbody]
  cases Shorthand.rootOperand? body <;> simp

/-- Nor does a root in an operand. -/
theorem rootOperand?_inside {text operand rest front inner : List Char}
    (h : rootOperand? text = some (operand, rest)) (hsplit : operand = front ++ '√' :: inner) :
    rootOperand? (inner ++ rest) =
      (rootOperand? inner).map fun split => (split.1, split.2 ++ rest) := by
  obtain ⟨signs, atom, hsigns, hatom, rfl, -⟩ := rootOperand?_eq_some_iff.1 h
  rcases List.append_eq_append_iff.1 hsplit with ⟨before, -, hinside⟩ | ⟨more, rfl, hmore⟩
  · exact hatom.rootOperand?_inside hinside
  · cases more with
    | nil =>
      have hfront : atom = [] ++ '√' :: inner := hmore.symm
      exact hatom.rootOperand?_inside hfront
    | cons c more =>
      -- The root is one of those in front, and all behind it is its operand.
      have hinner : inner = more ++ atom := (List.cons.inj hmore).2
      have hroots : ∀ d ∈ more, d = '√' := fun d hd => hsigns d (by simp [hd])
      rw [rootOperand?_eq_some_iff.2 ⟨more, atom, hroots, hatom, hinner, rfl⟩,
        rootOperand?_eq_some_iff.2
          ⟨more, atom, hroots, hatom.alone, hinner, (List.append_nil _).symm⟩]
      rfl

/-! ### By index -/

/-- Where the operand that starts at an index ends, if there is one. -/
def operandEnd? (text : List Char) (start : Nat) : Option Nat :=
  (rootOperand? (text.drop start)).map fun split => start + split.1.length

/-- The operand that ends at an index is the slice before it. -/
theorem operandEnd?_eq_some_iff {text : List Char} {start stop : Nat} :
    operandEnd? text start = some stop ↔
      start < stop ∧ stop ≤ text.length ∧
        rootOperand? (text.drop start) = some (text.extract start stop, text.drop stop) := by
  constructor
  · intro h
    obtain ⟨⟨operand, rest⟩, hoperand, rfl⟩ := Option.map_eq_some_iff.1 h
    have happ := append_of_rootOperand? hoperand
    have hpos := List.length_pos_iff.2 (rootOperand?_ne_nil hoperand)
    have hlength := congrArg List.length happ
    rw [List.length_append, List.length_drop] at hlength
    have hslice : text.extract start (start + operand.length) = operand := by
      rw [List.extract_eq_take_drop, Nat.add_sub_cancel_left, ← happ, List.take_left]
    have hbehind : text.drop (start + operand.length) = rest := by
      rw [← List.drop_drop, ← happ, List.drop_left]
    refine ⟨by simp only; omega, by simp only; omega, ?_⟩
    rw [hslice, hbehind, hoperand]
  · rintro ⟨hlt, hle, hoperand⟩
    refine Option.map_eq_some_iff.2 ⟨_, hoperand, ?_⟩
    simp only [List.extract_eq_take_drop, List.length_take, List.length_drop]
    omega

variable {text : List Char} {start stop : Nat}

/-- An operand by index is root signs and an atom. -/
theorem operandEnd?_eq_some_iff_exists_atom :
    operandEnd? text start = some stop ↔
      ∃ signs atom rest, text.drop start = signs ++ atom ++ rest ∧ (∀ c ∈ signs, c = '√') ∧
        Atom rest atom ∧ stop = start + (signs ++ atom).length := by
  rw [operandEnd?, Option.map_eq_some_iff]
  constructor
  · rintro ⟨⟨operand, rest⟩, hoperand, rfl⟩
    obtain ⟨signs, atom, hsigns, hatom, rfl, htext⟩ := rootOperand?_eq_some_iff.1 hoperand
    exact ⟨signs, atom, rest, htext, hsigns, hatom, rfl⟩
  · rintro ⟨signs, atom, rest, htext, hsigns, hatom, rfl⟩
    exact ⟨_, rootOperand?_eq_some_iff.2 ⟨signs, atom, hsigns, hatom, rfl, htext⟩, rfl⟩

/-- A root in an operand has its own operand in the slice. -/
theorem operandEnd?_slice (h : operandEnd? text start = some stop) {j : Nat} (hfirst : start ≤ j)
    (hlast : j < stop) (hroot : text[j]? = some '√') :
    operandEnd? text (j + 1) =
      (operandEnd? (text.extract start stop) (j + 1 - start)).map (start + ·) := by
  obtain ⟨-, hle, hoperand⟩ := operandEnd?_eq_some_iff.1 h
  obtain ⟨k, rfl⟩ := Nat.exists_eq_add_of_le hfirst
  generalize hslice : text.extract start stop = operand at *
  generalize text.drop stop = rest at *
  have happ := append_of_rootOperand? hoperand
  have hlength : operand.length = stop - start := by
    rw [← hslice, List.extract_eq_take_drop, List.length_take, List.length_drop]
    omega
  have hk : k < operand.length := by omega
  have hget : operand[k]? = some '√' := by
    have hwhole : (operand ++ rest)[k]? = some '√' := by rwa [happ, List.getElem?_drop]
    rwa [List.getElem?_append_left hk] at hwhole
  have hsplit : operand = operand.take k ++ '√' :: operand.drop (k + 1) := by
    rw [← (List.getElem?_eq_some_iff.1 hget).2, List.getElem_cons_drop, List.take_append_drop]
  have hbehind : text.drop (start + k + 1) = operand.drop (k + 1) ++ rest := by
    rw [Nat.add_assoc, ← List.drop_drop, ← happ, List.drop_append_of_le_length hk]
  rw [operandEnd?, operandEnd?, hbehind, rootOperand?_inside hoperand hsplit,
    show start + k + 1 - start = k + 1 by omega, Option.map_map, Option.map_map]
  congr 1
  funext split
  exact Nat.add_assoc start (k + 1) split.1.length

/-- An operand is found by index exactly where root signs, none or some, and an
    atom behind them start, and it ends where they end. It is not empty, and it
    closes what it opens. A root in it has the same operand in the slice as in
    the whole text. -/
theorem operandEnd?_exact (text : List Char) (start : Nat) :
    (∀ stop, operandEnd? text start = some stop ↔
      ∃ signs atom rest, text.drop start = signs ++ atom ++ rest ∧ (∀ c ∈ signs, c = '√') ∧
        Atom rest atom ∧ stop = start + (signs ++ atom).length) ∧
    ∀ stop, operandEnd? text start = some stop →
      start < stop ∧ stop ≤ text.length ∧
      (∃ signs atom, text.extract start stop = signs ++ atom ∧ (∀ c ∈ signs, c = '√') ∧
        Atom (text.drop stop) atom) ∧
      Text.Balanced (text.extract start stop) ∧
      ∀ j, start ≤ j → j < stop → text[j]? = some '√' →
        operandEnd? text (j + 1) =
          (operandEnd? (text.extract start stop) (j + 1 - start)).map (start + ·) := by
  refine ⟨fun stop => operandEnd?_eq_some_iff_exists_atom, fun stop h => ?_⟩
  obtain ⟨hlt, hle, hoperand⟩ := operandEnd?_eq_some_iff.1 h
  obtain ⟨signs, atom, hsigns, hatom, hslice, -⟩ := rootOperand?_eq_some_iff.1 hoperand
  exact ⟨hlt, hle, ⟨signs, atom, hslice, hsigns, hatom⟩, balanced_of_rootOperand? hoperand,
    fun j => operandEnd?_slice h⟩

/-- Two roots before a group with another root in it, and a digit right behind
    the group. -/
theorem operandEnd?_exact_nested :
    operandEnd? "1√√sin(√4)2".toList 2 = some 10 ∧ "1√√sin(√4)2".toList[7]? = some '√' ∧
      operandEnd? "√sin(√4)".toList 6 = some 7 ∧ operandEnd? "1√√sin(√4)2".toList 8 = some 9 := by
  have hwhole : operandEnd? "1√√sin(√4)2".toList 2 = some 10 := by decide +kernel
  have hinner : operandEnd? "√sin(√4)".toList 6 = some 7 := by decide +kernel
  have hroot : "1√√sin(√4)2".toList[7]? = some '√' := by decide
  have hslice : "1√√sin(√4)2".toList.extract 2 10 = "√sin(√4)".toList := by decide
  have hplace := ((operandEnd?_exact "1√√sin(√4)2".toList 2).2 10 hwhole).2.2.2.2 7
    (by decide) (by decide) hroot
  rw [hslice, hinner] at hplace
  exact ⟨hwhole, hroot, hinner, hplace⟩

end Shorthand

end Calculator
