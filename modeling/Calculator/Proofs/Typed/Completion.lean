import Calculator.Proofs.Typed.Group

/-!
# Which typed formulas have a meaning

Pieces that follow their places and close their parentheses are a formula:
the grammar of typed formulas refuses nothing else but numerals out of range.
A derivation is built from the right. In front of a derived sum any sign and
any operand with its operation can be put, and the derivation is changed at
its left end only, at the product or the power that stands there.

## Main definitions

* `Typed.Symbol.InRange`: A piece whose numeral is a finite double.
* `Typed.Fits`: Pieces that can stand at a place.
* `Typed.Ends`: What may stand behind a sum.
* `Typed.Complete`: Pieces that start with a sum.

## Theorems

* `Typed.prepend_unary`, `Typed.prepend_product`, `Typed.prepend_sum`: What can
  be put in front of a sum.
* `Typed.atom_of_fits`: An atom starts where one must stand.
* `Typed.exists_derives`: Pieces that fit are a formula.
-/

namespace Calculator

namespace Typed

open Grammar (depth?)

/-- What can be put in front of a term can be put in front of a sum. The
    condition `P` on the lexemes is one that their starts inherit. -/
theorem prepend_expression (front : List Lexeme) {P : List Lexeme → Prop}
    (hP : ∀ ts us, P (ts ++ us) → P ts)
    (hterm : ∀ ts x, P ts → Derives .term ts x → ∃ y, Derives .expression (front ++ ts) y)
    {ts : List Lexeme} {x : Expr} (hts : P ts) (h : Derives .expression ts x) :
    ∃ y, Derives .expression (front ++ ts) y := by
  generalize hc : Category.expression = c at h
  -- Only the leftmost term changes, so the induction is on the left side.
  induction h with
  | ofTerm h _ => exact hterm _ _ hts h
  | sum op hop _ hr ih _ =>
      rcases ih (hP _ _ hts) hc with ⟨y, hy⟩
      exact ⟨_, by rw [← List.append_assoc]; exact .sum op hop hy hr⟩
  | _ => exact absurd hc (by simp)

/-- What can be put in front of an operand can be put in front of a term. -/
theorem prepend_term (front : List Lexeme) {P : List Lexeme → Prop}
    (hP : ∀ ts us, P (ts ++ us) → P ts)
    (hunary : ∀ ts x, P ts → Derives .unary ts x → ∃ y, Derives .term (front ++ ts) y)
    {ts : List Lexeme} {x : Expr} (hts : P ts) (h : Derives .term ts x) :
    ∃ y, Derives .term (front ++ ts) y := by
  generalize hc : Category.term = c at h
  induction h with
  | ofUnary h _ => exact hunary _ _ hts h
  | product op hop _ hr ih _ =>
      rcases ih (hP _ _ hts) hc with ⟨y, hy⟩
      exact ⟨_, by rw [← List.append_assoc]; exact .product op hop hy hr⟩
  | _ => exact absurd hc (by simp)

/-- What makes an operand with another operand behind it, such as a sign, can
    be put in front of a sum. -/
theorem prepend_unary (front : List Lexeme) {P : List Lexeme → Prop}
    (hP : ∀ ts us, P (ts ++ us) → P ts)
    (hunary : ∀ ts x, P ts → Derives .unary ts x → ∃ y, Derives .unary (front ++ ts) y)
    {ts : List Lexeme} {x : Expr} (hts : P ts) (h : Derives .expression ts x) :
    ∃ y, Derives .expression (front ++ ts) y := by
  refine prepend_expression front hP (fun ts x hts h => ?_) hts h
  -- An operand with something in front is an operand, so a term, so a sum.
  have hterm := prepend_term front hP
    (fun us z hus hz => (hunary us z hus hz).imp fun _ hy => .ofUnary hy) hts h
  exact hterm.imp fun _ hy => .ofTerm hy

theorem prepend_minus {ts : List Lexeme} {x : Expr} (hts : ¬ StartsMarked ts)
    (h : Derives .expression ts x) : ∃ y, Derives .expression (.operator .sub :: ts) y := by
  refine prepend_unary [.operator .sub] (P := fun ts => ¬ StartsMarked ts)
    (fun ts us hn => ?_) (fun ts x hn h => ⟨_, .minus h hn⟩) hts h
  -- A numeral with its mark would stand at the start of the longer one too.
  rintro ⟨n, vs, rfl⟩
  exact hn ⟨n, vs ++ us, rfl⟩

theorem prepend_plus {ts : List Lexeme} {x : Expr} (h : Derives .expression ts x) :
    ∃ y, Derives .expression (.operator .add :: ts) y :=
  prepend_unary [.operator .add] (P := fun _ => True) (fun _ _ _ => trivial)
    (fun _ _ _ h => ⟨_, .plus h⟩) trivial h

theorem prepend_power {as ts : List Lexeme} {x y : Expr} {s : Lexeme}
    (hs : s = .caret ∨ s = .operator .pow) (hbase : Derives .base as x)
    (h : Derives .expression ts y) : ∃ z, Derives .expression (as ++ s :: ts) z := by
  rw [List.append_cons]
  exact prepend_unary _ (P := fun _ => True) (fun _ _ _ => trivial)
    (fun _ _ _ h => ⟨_, by rw [← List.append_cons]; exact .ofPower (.power s hs hbase h)⟩)
    trivial h

theorem prepend_product {as ts : List Lexeme} {x y : Expr} {op : BinaryOp}
    (hop : op = .mul ∨ op = .div) (hbase : Derives .base as x) (h : Derives .expression ts y) :
    ∃ z, Derives .expression (as ++ .operator op :: ts) z := by
  rw [List.append_cons]
  have hunary (us : List Lexeme) (z : Expr) (hz : Derives .unary us z) :
      Derives .term (as ++ [.operator op] ++ us) (.binary op x z) := by
    rw [← List.append_cons]
    exact .product op hop (.ofUnary (.ofPower (.ofBase hbase))) hz
  refine prepend_expression _ (P := fun _ => True) (fun _ _ _ => trivial)
    (fun ts y _ h => ?_) trivial h
  have hterm := prepend_term (as ++ [.operator op]) (P := fun _ => True)
    (fun _ _ _ => trivial) (fun us z _ hz => ⟨_, hunary us z hz⟩) trivial h
  exact hterm.imp fun _ hz => .ofTerm hz

theorem prepend_sum {as ts : List Lexeme} {x y : Expr} {op : BinaryOp}
    (hop : op = .add ∨ op = .sub) (hbase : Derives .base as x) (h : Derives .expression ts y) :
    ∃ z, Derives .expression (as ++ .operator op :: ts) z := by
  rw [List.append_cons]
  have hterm (us : List Lexeme) (z : Expr) (hz : Derives .term us z) :
      Derives .expression (as ++ [.operator op] ++ us) (.binary op x z) := by
    rw [← List.append_cons]
    exact .sum op hop (.ofTerm (.ofUnary (.ofPower (.ofBase hbase)))) hz
  exact prepend_expression _ (P := fun _ => True) (fun _ _ _ => trivial)
    (fun us z _ hz => ⟨_, hterm us z hz⟩) trivial h

/-- An operand with the sign of an operation can be put in front of a sum. -/
theorem prepend_operator {as ts : List Lexeme} {x y : Expr} (op : BinaryOp)
    (hbase : Derives .base as x) (h : Derives .expression ts y) :
    ∃ z, Derives .expression (as ++ .operator op :: ts) z := by
  cases op with
  | add => exact prepend_sum (.inl rfl) hbase h
  | sub => exact prepend_sum (.inr rfl) hbase h
  | mul => exact prepend_product (.inl rfl) hbase h
  | div => exact prepend_product (.inr rfl) hbase h
  | pow => exact prepend_power (.inr rfl) hbase h

namespace Symbol

/-- A piece whose numeral, if it has one, is a finite double. -/
def InRange : Symbol → Prop
  | number n | factorial _ n | percent n => (Binary64.ofNumeral n).isFinite = true
  | _ => True

end Symbol

/-- Pieces that can stand at a place, with some parentheses open before them,
    and that end a formula. -/
structure Fits (p : Place) (d : Nat) (cs : List Symbol) : Prop where
  /-- The places are followed, and the last one is behind an operand. -/
  follow : follow? p cs = some .closed
  /-- All parentheses are closed. -/
  depth : depth? d (pieces cs) = some 0
  /-- All numerals are finite doubles. -/
  inRange : ∀ x ∈ cs, x.InRange

/-- What may stand behind a sum: a closing parenthesis, if one is open, and
    else nothing. -/
def Ends (d : Nat) (cs : List Symbol) : Prop :=
  (d = 0 ∧ cs = []) ∨ ∃ e rest, d = e + 1 ∧ cs = .rightParen :: rest ∧ Fits .closed e rest

/-- Pieces that start with a sum, and what they end with. -/
def Complete (d : Nat) (cs : List Symbol) : Prop :=
  ∃ as bs x, cs = as ++ bs ∧ Derives .expression (lexemes as) x ∧ Ends d bs

/-- What follows a piece that is no parenthesis. -/
theorem Fits.tail {p q : Place} {d : Nat} {x : Symbol} {cs : List Symbol}
    (h : Fits p d (x :: cs)) (hl : x ≠ .leftParen) (hr : x ≠ .rightParen)
    (hq : p.next? x = some q) : Fits q d cs := by
  refine ⟨?_, ?_, fun y hy => h.inRange y (by simp [hy])⟩
  · have hfollow := h.follow
    rwa [follow?, hq] at hfollow
  · have hdepth := h.depth
    rwa [depth?_pieces_cons hl hr] at hdepth

theorem Fits.next?_eq {p : Place} {d : Nat} {x : Symbol} {cs : List Symbol}
    (h : Fits p d (x :: cs)) : ∃ q, p.next? x = some q := by
  have hfollow := h.follow
  rw [follow?] at hfollow
  rcases Option.bind_eq_some_iff.1 hfollow with ⟨q, hq, -⟩
  exact ⟨q, hq⟩

/-- What follows an opening parenthesis. -/
theorem Fits.open {p : Place} {d : Nat} {cs : List Symbol} (h : Fits p d (.leftParen :: cs))
    (hp : p ≠ .closed) : Fits .operand (d + 1) cs := by
  refine ⟨?_, ?_, fun y hy => h.inRange y (by simp [hy])⟩
  · have hfollow := h.follow
    cases p with
    | closed => exact absurd rfl hp
    | _ => exact hfollow
  · have hdepth := h.depth
    exact hdepth

/-- Behind an operand there is nothing, or the end of a group, or the sign of
    an operation. -/
theorem ends_or_operator {d : Nat} {cs : List Symbol} (h : Fits .closed d cs) :
    Ends d cs ∨ (∃ rest, cs = .caret :: rest ∧ Fits .operand d rest) ∨
      ∃ op rest, cs = .operator op :: rest ∧ Fits .operand d rest := by
  cases cs with
  -- At the end no parenthesis is open.
  | nil =>
      have hdepth := h.depth
      rcases (by simpa [pieces, depth?] using hdepth : d = 0)
      exact .inl (.inl ⟨rfl, rfl⟩)
  | cons x cs =>
      rcases h.next?_eq with ⟨q, hq⟩
      cases x with
      | caret => exact .inr (.inl ⟨cs, rfl, h.tail (by simp) (by simp) rfl⟩)
      | operator op => exact .inr (.inr ⟨op, cs, rfl, h.tail (by simp) (by simp) rfl⟩)
      | rightParen =>
          have hdepth := h.depth
          cases d with
          -- A parenthesis that is closed must have been open.
          | zero => exact absurd hdepth (by simp [pieces, Symbol.canonical, depth?])
          | succ e =>
              refine .inl (.inr ⟨e, cs, rfl, rfl, ?_, ?_, fun y hy => h.inRange y (by simp [hy])⟩)
              · exact h.follow
              · exact hdepth
      | _ => exact absurd hq (by simp [Place.next?])

/-- An operand makes a sum with what follows it, if sums start wherever an
    operand must stand in what follows. -/
theorem complete_of_base {d : Nat} {as cs : List Symbol} {x : Expr}
    (hbase : Derives .base (lexemes as) x) (h : Fits .closed d cs)
    (ih : ∀ rest, rest.length < cs.length → Fits .operand d rest → Complete d rest) :
    Complete d (as ++ cs) := by
  rcases ends_or_operator h with hend | ⟨rest, rfl, hrest⟩ | ⟨op, rest, rfl, hrest⟩
  · -- The operand is the whole sum, or the left side of an operation.
    exact ⟨as, cs, x, rfl, .ofTerm (.ofUnary (.ofPower (.ofBase hbase))), hend⟩
  · rcases ih rest (by simp) hrest with ⟨bs, es, y, rfl, hy, hend⟩
    rcases prepend_power (.inl rfl) hbase hy with ⟨z, hz⟩
    refine ⟨as ++ .caret :: bs, es, z, by simp, ?_, hend⟩
    rw [lexemes_append]
    exact hz
  · rcases ih rest (by simp) hrest with ⟨bs, es, y, rfl, hy, hend⟩
    rcases prepend_operator op hbase hy with ⟨z, hz⟩
    refine ⟨as ++ .operator op :: bs, es, z, by simp, ?_, hend⟩
    rw [lexemes_append]
    exact hz

/-- A sum behind an open parenthesis ends where the parenthesis is closed. -/
theorem group_of_complete {d : Nat} {cs : List Symbol} (h : Complete (d + 1) cs) :
    ∃ as bs x, cs = as ++ .rightParen :: bs ∧ Derives .expression (lexemes as) x ∧
      Fits .closed d bs := by
  rcases h with ⟨as, bs, x, rfl, hx, ⟨hd, -⟩ | ⟨e, rest, he, rfl, hrest⟩⟩
  · exact absurd hd (by simp)
  · rcases (by simpa using he : d = e)
    exact ⟨as, rest, x, rfl, hx, hrest⟩

/-- Behind a callee stands a group, if sums start wherever an operand must
    stand in what follows. -/
theorem group_of_callee {d : Nat} {cs : List Symbol} (h : Fits .callee d cs)
    (ih : ∀ e rest, rest.length < cs.length → Fits .operand e rest → Complete e rest) :
    ∃ as bs x, cs = .leftParen :: (as ++ .rightParen :: bs) ∧
      Derives .expression (lexemes as) x ∧ Fits .closed d bs := by
  cases cs with
  | nil => exact absurd h.follow (by simp [follow?])
  | cons y cs =>
      rcases h.next?_eq with ⟨r, hr⟩
      cases y with
      | leftParen =>
          rcases group_of_complete (ih _ cs (by simp) (h.open (by simp))) with
            ⟨as, bs, x, rfl, hx, hbs⟩
          exact ⟨as, bs, x, rfl, hx, hbs⟩
      | _ => exact absurd hr (by simp [Place.next?])

/-- An atom starts where one must stand, if sums start wherever an operand
    must stand in what follows. -/
theorem atom_of_fits {d : Nat} {cs : List Symbol} (h : Fits .root d cs)
    (ih : ∀ e rest, rest.length < cs.length → Fits .operand e rest → Complete e rest) :
    ∃ as bs x, cs = as ++ bs ∧ as ≠ [] ∧ Derives .primary (lexemes as) x ∧
      Fits .closed d bs := by
  induction cs with
  | nil => exact absurd h.follow (by simp [follow?])
  | cons x cs ihroot =>
      rcases h.next?_eq with ⟨q, hq⟩
      have hrange := h.inRange x (by simp)
      cases x with
      | number n =>
          refine ⟨[.number n], cs, _, rfl, by simp, .number n hrange, ?_⟩
          exact h.tail (by simp) (by simp) rfl
      | percent n =>
          refine ⟨[.percent n], cs, _, rfl, by simp, .percent n hrange, ?_⟩
          exact h.tail (by simp) (by simp) rfl
      | factorial negative n =>
          cases negative with
          | true => exact absurd hq (by simp [Place.next?, Place.ofAtom?])
          | false =>
              refine ⟨[.factorial false n], cs, _, rfl, by simp, .factorial n hrange, ?_⟩
              exact h.tail (by simp) (by simp) rfl
      -- A root sign and the atom behind it are an atom.
      | root =>
          have htail : Fits .root d cs := h.tail (by simp) (by simp) rfl
          rcases ihroot htail fun e rest hlt => ih e rest (by rw [List.length_cons]; omega) with
            ⟨as, bs, y, rfl, -, hy, hbs⟩
          exact ⟨.root :: as, bs, _, rfl, by simp, .root hy, hbs⟩
      | leftParen =>
          rcases group_of_complete (ih _ cs (by simp) (h.open (by simp))) with
            ⟨as, bs, y, rfl, hy, hbs⟩
          refine ⟨.leftParen :: (as ++ [.rightParen]), bs, y, by simp, by simp, ?_, hbs⟩
          rw [lexemes_cons, lexemes_append]
          exact .group hy
      | word letters =>
          rcases Place.ofWord?_eq_some hq with ⟨c, hname, rfl⟩ | ⟨f, hname, rfl⟩
          · refine ⟨[.word letters], cs, .constant c, rfl, by simp, .constant c letters hname, ?_⟩
            exact h.tail (by simp) (by simp) hq
          · rcases group_of_callee (h.tail (by simp) (by simp) hq)
              fun e rest hlt => ih e rest (Nat.lt_trans hlt (Nat.lt_succ_self _)) with
              ⟨as, bs, z, rfl, hz, hbs⟩
            refine ⟨.word letters :: .leftParen :: (as ++ [.rightParen]), bs, f.node z,
              by simp, by simp, ?_, hbs⟩
            rw [lexemes_cons, lexemes_cons, lexemes_append]
            exact .call f letters hname hz
      | _ => exact absurd hq (by simp [Place.next?, Place.ofAtom?])

/-- Behind a unary minus sign no numeral with a factorial mark can stand. -/
theorem not_startsMarked {d : Nat} {cs : List Symbol} (h : Fits .minus d cs) :
    ¬ StartsMarked (lexemes cs) := by
  rintro ⟨n, us, heq⟩
  cases cs with
  | nil => exact absurd heq (by simp [lexemes])
  | cons x cs =>
      rcases h.next?_eq with ⟨q, hq⟩
      cases x with
      | number m =>
          have htail : Fits .closed d cs := h.tail (by simp) (by simp) rfl
          rcases (by simpa [lexemes_cons, Symbol.lexemes] using heq : (_ ∧ _)) with ⟨-, heq⟩
          -- Whatever stands behind a numeral, it is no lone mark.
          rcases ends_or_operator htail with (⟨-, rfl⟩ | ⟨-, rest, -, rfl, -⟩) | ⟨rest, rfl, -⟩ |
            ⟨op, rest, rfl, -⟩
          all_goals exact absurd heq (by simp [lexemes, Symbol.lexemes])
      | factorial negative m =>
          cases negative with
          | true => exact absurd heq (by simp [lexemes_cons, Symbol.lexemes])
          | false => exact absurd hq (by simp [Place.next?])
      | _ => exact absurd heq (by simp [lexemes_cons, Symbol.lexemes])

/-- Behind a unary minus sign, a sum takes the sign. -/
theorem complete_minus {d : Nat} {cs : List Symbol} (hfits : Fits .minus d cs)
    (h : Complete d cs) : Complete d (.operator .sub :: cs) := by
  have hmarked := not_startsMarked hfits
  rcases h with ⟨as, bs, x, rfl, hx, hend⟩
  -- The sum is the start of the pieces, so it starts as they do.
  have has : ¬ StartsMarked (lexemes as) := by
    rintro ⟨n, us, hus⟩
    refine hmarked ⟨n, us ++ lexemes bs, ?_⟩
    rw [lexemes_append, hus]
    rfl
  rcases prepend_minus has hx with ⟨y, hy⟩
  exact ⟨.operator .sub :: as, bs, y, rfl, hy, hend⟩

/-- An operand that starts with an atom. -/
theorem Fits.atom {p q : Place} {d : Nat} {x : Symbol} {cs : List Symbol}
    (h : Fits p d (x :: cs)) (hq : p.next? x = some q) (hroot : Place.ofAtom? x = some q) :
    Fits .root d (x :: cs) := by
  refine ⟨?_, h.depth, h.inRange⟩
  have hfollow := h.follow
  rw [follow?, hq] at hfollow
  rw [follow?, Place.next?, hroot]
  exact hfollow

/-- Where an operand must stand, an operand starts. -/
theorem ofOperand?_of_next? {p q : Place} {x : Symbol} (hp : p = .operand ∨ p = .minus)
    (hq : p.next? x = some q) : Place.ofOperand? x = some q := by
  rcases hp with rfl | rfl
  · exact hq
  · cases x with
    | factorial negative n =>
        cases negative with
        | false => exact absurd hq (by simp [Place.next?])
        | true => exact hq
    | _ => exact hq

/-- A sum starts wherever an operand must stand. -/
theorem complete_of_fits {p : Place} {d : Nat} {cs : List Symbol}
    (hp : p = .operand ∨ p = .minus) (h : Fits p d cs) : Complete d cs := by
  generalize hlen : cs.length = n
  induction n using Nat.strongRecOn generalizing p d cs with
  | _ n ih =>
      subst hlen
      -- The rest of a formula is shorter, wherever it starts.
      have ihrest (e : Nat) (rest : List Symbol) (hlt : rest.length < cs.length)
          (hrest : Fits .operand e rest) : Complete e rest := ih _ hlt (.inl rfl) hrest rfl
      cases cs with
      | nil =>
          rcases hp with rfl | rfl
          · exact absurd h.follow (by simp [follow?])
          · exact absurd h.follow (by simp [follow?])
      | cons x cs =>
          rcases h.next?_eq with ⟨q, hq⟩
          have hoperand := ofOperand?_of_next? hp hq
          -- With an atom the base is found; else a sign stands here, or a factorial
          -- that has taken one.
          by_cases hatom : Place.ofAtom? x = some q
          · rcases atom_of_fits (h.atom hq hatom) ihrest with ⟨as, bs, y, happ, hne, hy, hbs⟩
            have hlt : bs.length < (x :: cs).length := by
              have := List.length_pos_iff.2 hne
              rw [happ, List.length_append]
              omega
            rw [happ]
            exact complete_of_base (.ofPrimary hy) hbs fun rest hrlt => ihrest d rest (by omega)
          · cases x with
            | factorial negative n =>
                cases negative with
                | false => exact absurd hoperand hatom
                | true =>
                    rcases (by simpa [Place.ofOperand?] using hoperand : Place.closed = q)
                    have htail := h.tail (by simp) (by simp) hq
                    have hrange := h.inRange (.factorial true n) (by simp)
                    have hbase : Derives .base (lexemes [.factorial true n]) _ :=
                      .negativeFactorial n hrange
                    exact complete_of_base hbase htail fun rest hrlt =>
                      ihrest d rest (by rw [List.length_cons]; omega)
            | operator op =>
                cases op with
                | add =>
                    rcases (by simpa [Place.ofOperand?] using hoperand : Place.operand = q)
                    rcases ihrest d cs (by simp) (h.tail (by simp) (by simp) hq) with
                      ⟨as, bs, y, rfl, hy, hend⟩
                    rcases prepend_plus hy with ⟨z, hz⟩
                    exact ⟨.operator .add :: as, bs, z, rfl, hz, hend⟩
                | sub =>
                    rcases (by simpa [Place.ofOperand?] using hoperand : Place.minus = q)
                    have htail := h.tail (by simp) (by simp) hq
                    exact complete_minus htail (ih _ (by simp) (.inr rfl) htail rfl)
                | _ => exact absurd hoperand hatom
            | _ => exact absurd hoperand hatom

/-- Pieces that fit where a formula starts are a formula. -/
theorem exists_derives {cs : List Symbol} (h : Fits .operand 0 cs) :
    ∃ x, Derives .expression (lexemes cs) x := by
  rcases complete_of_fits (.inl rfl) h with ⟨as, bs, x, rfl, hx, ⟨-, rfl⟩ | ⟨e, rest, he, -, -⟩⟩
  · exact ⟨x, by rwa [List.append_nil]⟩
  · exact absurd he (by simp)

end Typed

end Calculator
