import Calculator.Proofs.Typed

/-!
# Symbols of typed formulas

Typed formulas cut into the pieces that expanding shorthand treats as one: a
numeral together with its mark and, for a factorial in front of which a minus
sign is unary, with that sign. Everything else is a piece by itself.

Every piece knows its lexemes, as the grammar of typed formulas sees it, and
its text in each stage of the expansion of marks. A list of pieces knows the
canonical lexemes into which it is translated: all pieces are translated one
by one but the root signs, which reach over the atom behind them.

Which pieces may follow each other is a matter of three places: where an
operand must stand, behind a callee, and behind an operand. Behind a root sign
and behind a unary minus sign an operand must stand as well, but not every
one, so these are places of their own. Formulas follow the places, and texts
that do are cut into pieces in one way only.

## Main definitions

* `Typed.Symbol`: The pieces.
* `Typed.Symbol.lexemes`, `Typed.Symbol.text`: What a piece consists of.
* `Typed.Place`, `Typed.follow?`: Which pieces may follow each other.
* `Typed.operand?`: The atom that a root sign reaches.
* `Typed.Detached`: Pieces that a name in front of them does not take along.
* `Typed.canonical`: The canonical lexemes of some pieces.

## Theorems

* `Typed.follow?_append`: Places are followed piece by piece.
* `Typed.append_of_operand?`: The atom is the start of the pieces.
* `Typed.canonical_root`, `Typed.canonical_bare`: Root signs with and without
  an atom behind them.
-/

namespace Calculator

namespace Typed

/-- A piece of a typed formula. -/
inductive Symbol
  | number (numeral : Numeral)
  /-- A numeral with a factorial mark, and the minus sign that belongs to it. -/
  | factorial (negative : Bool) (numeral : Numeral)
  /-- A numeral with a percent mark. -/
  | percent (numeral : Numeral)
  | word (letters : List Char)
  | operator (op : BinaryOp)
  | caret
  | root
  | leftParen
  | rightParen
deriving DecidableEq, Repr

namespace Symbol

/-- The lexemes of a piece. -/
def lexemes : Symbol → List Lexeme
  | number n => [.number n]
  | factorial negative n =>
    if negative then [.operator .sub, .number n, .exclamation] else [.number n, .exclamation]
  | percent n => [.number n, .percentMark]
  | word letters => [.word letters]
  | operator op => [.operator op]
  | caret => [.caret]
  | root => [.root]
  | leftParen => [.leftParen]
  | rightParen => [.rightParen]

/-- A numeral with a minus sign in front of it, or without one. -/
def signed (negative : Bool) (n : Numeral) : List Char :=
  if negative then '-' :: n.text else n.text

/-- The text of a piece, given which of the two marks have been expanded. -/
def text (factorials percents : Bool) : Symbol → List Char
  | number n => n.text
  | factorial negative n =>
    if factorials then Shorthand.call Shorthand.Mark.factorial.word (signed negative n)
    else signed negative n ++ ['!']
  | percent n =>
    if percents then Shorthand.call Shorthand.Mark.percent.word n.text else n.text ++ ['%']
  | word letters => letters
  | operator op => op.symbol
  | caret => ['^']
  | root => ['√']
  | leftParen => ['(']
  | rightParen => [')']

/-- The canonical lexemes of a piece that is no root sign; of a root sign, its
    bare word. -/
def canonical : Symbol → List Calculator.Lexeme
  | number n => [.number n]
  | factorial negative n =>
    .word Callee.factorial.name :: .leftParen ::
      ((if negative then [.operator .sub, .number n] else [.number n]) ++ [.rightParen])
  | percent n => [.word Callee.percent.name, .leftParen, .number n, .rightParen]
  | word letters => [.word (spelling letters)]
  | operator op => [.operator op]
  | caret => [.operator .pow]
  | root => [.word (Callee.elementary .sqrt).name]
  | leftParen => [.leftParen]
  | rightParen => [.rightParen]

/-- A piece whose numeral is one, or whose letters are letters. -/
def WellFormed : Symbol → Prop
  | number n | factorial _ n | percent n => n.WellFormed
  | word letters => letters ≠ [] ∧ ∀ c ∈ letters, isLetter c = true
  | _ => True

end Symbol

/-- The lexemes of some pieces. -/
def lexemes (cs : List Symbol) : List Lexeme :=
  cs.flatMap Symbol.lexemes

/-- The text of some pieces, given which of the two marks have been expanded. -/
def text (factorials percents : Bool) (cs : List Symbol) : List Char :=
  cs.flatMap (Symbol.text factorials percents)

theorem lexemes_append (as bs : List Symbol) : lexemes (as ++ bs) = lexemes as ++ lexemes bs := by
  simp [lexemes]

theorem lexemes_cons (x : Symbol) (cs : List Symbol) :
    lexemes (x :: cs) = x.lexemes ++ lexemes cs := rfl

/-- Where the next piece of a formula stands. -/
inductive Place
  /-- Where an operand must stand. -/
  | operand
  /-- Behind a unary minus sign: a numeral with a factorial mark would have
      taken the sign along. -/
  | minus
  /-- Behind a root sign: an atom must stand here. -/
  | root
  /-- Behind a callee: a parenthesis must open here. -/
  | callee
  /-- Behind an operand. -/
  | closed
deriving DecidableEq, Repr

namespace Place

/-- The place behind a word. -/
def ofWord? (letters : List Char) : Option Place :=
  if (Constant.ofName? (spelling letters)).isSome then some closed
  else if (Callee.ofName? (spelling letters)).isSome then some callee
  else none

/-- A word that has a place behind it is a constant or a callee. -/
theorem ofWord?_eq_some {letters : List Char} {q : Place} (h : ofWord? letters = some q) :
    (∃ c : Constant, spelling letters = c.name ∧ q = closed) ∨
      ∃ f : Callee, spelling letters = f.name ∧ q = callee := by
  rw [ofWord?] at h
  split at h
  · rename_i hc
    rcases Option.isSome_iff_exists.1 hc with ⟨c, hc⟩
    have hname : c.name = spelling letters := by simpa using List.find?_some hc
    exact .inl ⟨c, hname.symm, (Option.some.inj h).symm⟩
  · split at h
    · rename_i hf
      rcases Option.isSome_iff_exists.1 hf with ⟨f, hf⟩
      have hname : f.name = spelling letters := by simpa using List.find?_some hf
      exact .inr ⟨f, hname.symm, (Option.some.inj h).symm⟩
    · exact absurd h (by simp)

/-- The place behind a piece with which an atom starts. -/
def ofAtom? : Symbol → Option Place
  | .number _ | .percent _ | .factorial false _ => some closed
  | .word letters => ofWord? letters
  | .leftParen => some operand
  | .root => some root
  | _ => none

/-- The place behind a piece with which an operand starts. -/
def ofOperand? : Symbol → Option Place
  | .factorial true _ => some closed
  | .operator .add => some operand
  | .operator .sub => some minus
  | x => ofAtom? x

/-- The place behind a piece, if it may stand where it stands. -/
def next? : Place → Symbol → Option Place
  | operand, x => ofOperand? x
  | minus, .factorial false _ => none
  | minus, x => ofOperand? x
  | root, x => ofAtom? x
  | callee, .leftParen => some operand
  | callee, _ => none
  | closed, .operator _ => some operand
  | closed, .caret => some operand
  | closed, .rightParen => some closed
  | closed, _ => none

end Place

/-- The place behind some pieces, if they may follow each other. -/
def follow? : Place → List Symbol → Option Place
  | p, [] => some p
  | p, x :: cs => (p.next? x).bind fun q => follow? q cs

theorem follow?_append (p : Place) (as bs : List Symbol) :
    follow? p (as ++ bs) = (follow? p as).bind fun q => follow? q bs := by
  induction as generalizing p with
  | nil => rfl
  | cons x as ih =>
      simp only [List.cons_append, follow?]
      -- A piece that may not stand here stops both sides.
      cases p.next? x with
      | none => rfl
      | some q => exact ih q

/-- The pieces up to the parenthesis that brings the number of open ones down
    to zero, and the rest, given how many are open before them. -/
def closeFrom? (depth : Nat) : List Symbol → Option (List Symbol × List Symbol)
  | [] => none
  | .leftParen :: cs =>
    (closeFrom? (depth + 1) cs).map fun split => (.leftParen :: split.1, split.2)
  | .rightParen :: cs =>
    if depth ≤ 1 then some ([.rightParen], cs)
    else (closeFrom? (depth - 1) cs).map fun split => (.rightParen :: split.1, split.2)
  | x :: cs => (closeFrom? depth cs).map fun split => (x :: split.1, split.2)

/-- The atom at the start of some pieces, and the rest. -/
def operand? : List Symbol → Option (List Symbol × List Symbol)
  | .root :: cs => (operand? cs).map fun split => (.root :: split.1, split.2)
  | .number n :: cs => some ([.number n], cs)
  | .factorial false n :: cs => some ([.factorial false n], cs)
  | .percent n :: cs => some ([.percent n], cs)
  | .word letters :: .leftParen :: cs =>
    (closeFrom? 1 cs).map fun split => (.word letters :: .leftParen :: split.1, split.2)
  | .word letters :: cs => some ([.word letters], cs)
  | .leftParen :: cs => (closeFrom? 1 cs).map fun split => (.leftParen :: split.1, split.2)
  | _ => none

/-- Pieces that a name in front of them does not take along as its group. -/
def Detached (rest : List Symbol) : Prop :=
  rest.head? ≠ some .leftParen

theorem detached_nil : Detached [] := by simp [Detached]

theorem detached_cons {x : Symbol} (hx : x ≠ .leftParen) (rest : List Symbol) :
    Detached (x :: rest) := by simpa [Detached] using hx

/-- A name without a group is an atom if no group follows it. -/
theorem operand?_word {letters : List Char} {rest : List Symbol} (h : Detached rest) :
    operand? (.word letters :: rest) = some ([.word letters], rest) := by
  cases rest with
  | nil => rfl
  | cons x rest =>
      rw [operand?]
      rintro cs heq
      rcases (by simpa using heq : (_ ∧ _)) with ⟨rfl, -⟩
      exact h rfl

/-- What is found behind some pieces is found there without them. -/
theorem split_of_map (front : List Symbol) {found : Option (List Symbol × List Symbol)}
    {group rest : List Symbol}
    (h : (found.map fun split => (front ++ split.1, split.2)) = some (group, rest)) :
    ∃ g, found = some (g, rest) ∧ front ++ g = group := by
  rcases Option.map_eq_some_iff.1 h with ⟨⟨g, r⟩, hfound, heq⟩
  rcases (by simpa using heq : (_ ∧ _)) with ⟨hgroup, rfl⟩
  exact ⟨g, hfound, hgroup⟩

theorem append_of_closeFrom? {depth : Nat} {cs group rest : List Symbol}
    (h : closeFrom? depth cs = some (group, rest)) : group ++ rest = cs := by
  fun_induction closeFrom? depth cs generalizing group with
  | case1 => exact absurd h (by simp)
  -- The parenthesis that closes the group is the last piece of it.
  | case3 depth cs hle =>
      rcases (by simpa using h : (_ ∧ _)) with ⟨rfl, rfl⟩
      rfl
  -- Any other piece is in front of a group that the rest begins with.
  | _ =>
      rename_i ih
      rcases split_of_map [_] h with ⟨g, hg, rfl⟩
      simp [ih hg]

theorem append_of_operand? {cs atom rest : List Symbol}
    (h : operand? cs = some (atom, rest)) : atom ++ rest = cs := by
  fun_induction operand? cs generalizing atom with
  -- The root signs are taken along one by one.
  | case1 cs ih =>
      rcases split_of_map [_] h with ⟨a, ha, rfl⟩
      simp [ih ha]
  -- A group ends a call and an atom in parentheses.
  | case5 letters cs =>
      rcases split_of_map [_, _] h with ⟨a, ha, rfl⟩
      simp [append_of_closeFrom? ha]
  | case7 cs =>
      rcases split_of_map [_] h with ⟨a, ha, rfl⟩
      simp [append_of_closeFrom? ha]
  | case8 => exact absurd h (by simp)
  | _ =>
      rcases (by simpa using h : (_ ∧ _)) with ⟨rfl, rfl⟩
      rfl

theorem length_le_of_operand? {cs atom rest : List Symbol}
    (h : operand? cs = some (atom, rest)) :
    atom.length ≤ cs.length ∧ rest.length ≤ cs.length := by
  have hlen := congrArg List.length (append_of_operand? h)
  rw [List.length_append] at hlen
  omega

/-- The canonical lexemes of some pieces. A root sign becomes a call of what
    it reaches, or the bare word if it reaches nothing. -/
def canonical (cs : List Symbol) : List Calculator.Lexeme :=
  match cs with
  | [] => []
  | x :: cs =>
    if x = .root then
      match _h : operand? cs with
      | some (atom, rest) =>
        .word (Callee.elementary .sqrt).name :: .leftParen ::
          (canonical atom ++ .rightParen :: canonical rest)
      | none => x.canonical ++ canonical cs
    else x.canonical ++ canonical cs
termination_by cs.length
decreasing_by
  · have := length_le_of_operand? _h
    simp only [List.length_cons]
    omega
  · have := length_le_of_operand? _h
    simp only [List.length_cons]
    omega
  · simp
  · simp

theorem canonical_nil : canonical [] = [] := by rw [canonical]

theorem canonical_cons {x : Symbol} (hx : x ≠ .root) (cs : List Symbol) :
    canonical (x :: cs) = x.canonical ++ canonical cs := by
  rw [canonical, if_neg hx]

theorem canonical_root {cs atom rest : List Symbol} (h : operand? cs = some (atom, rest)) :
    canonical (.root :: cs) = .word (Callee.elementary .sqrt).name :: .leftParen ::
      (canonical atom ++ .rightParen :: canonical rest) := by
  rw [canonical, if_pos rfl]
  -- The split that was found is the only one.
  split
  · rename_i a r hsome
    rw [hsome] at h
    rcases (by simpa using h : (_ ∧ _)) with ⟨rfl, rfl⟩
    rfl
  · rename_i hnone
    rw [hnone] at h
    exact absurd h (by simp)

theorem canonical_bare {cs : List Symbol} (h : operand? cs = none) :
    canonical (.root :: cs) = .word (Callee.elementary .sqrt).name :: canonical cs := by
  rw [canonical, if_pos rfl]
  split
  · rename_i a r hsome
    rw [hsome] at h
    exact absurd h (by simp)
  · rfl

end Typed

end Calculator
