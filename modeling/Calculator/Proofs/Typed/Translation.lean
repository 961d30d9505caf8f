import Calculator.Proofs.Reading
import Calculator.Proofs.Typed.Group

/-!
# Canonical lexemes of typed formulas

Every derivation in the grammar of typed formulas comes with pieces: the minus
sign of a factorial belongs to its numeral, and the rest stands for itself.
The pieces follow their places, and their canonical lexemes are derived in the
grammar of canonical formulas, with the same expression.

Root signs are what needs care, since they reach over pieces behind them. A
root sign is translated together with its atom, and the atom is found whatever
stands behind it, unless that is an opening parenthesis. So are translations
put together: each says what it contributes in front of other pieces.

## Main definitions

* `Typed.Category.canonical`: The category of the canonical lexemes.
* `Typed.Translates`: Pieces, and the expression of their canonical lexemes.
* `Typed.IsAtom`: Pieces that a root sign reaches over.

## Theorems

* `Typed.exists_translates`: Derivations come with pieces.
* `Typed.derives_canonical`: The canonical lexemes of a formula.
-/

namespace Calculator

namespace Typed

/-- The category of the canonical lexemes. An operand has no signs in it but
    inside of the call of a factorial. -/
def Category.canonical : Category → Grammar.Category
  | expression => .expression
  | term => .term
  | unary => .unary
  | power => .power
  | base | primary => .primary

/-- Pieces that stand where an operand must stand, and what they contribute to
    the canonical lexemes. -/
structure Translates (c : Category) (cs : List Symbol) (x : Expr) : Prop where
  /-- The places are followed. -/
  follow : follow? .operand cs = some .closed
  /-- What is contributed is derived and denotes the expression. -/
  derives : ∃ us, Grammar.Derives c.canonical us x ∧
    ∀ rest, Detached rest → canonical (cs ++ rest) = us ++ canonical rest

/-- Pieces that stand where an atom must stand and that a root sign reaches
    over, no matter what follows them. -/
structure IsAtom (cs : List Symbol) : Prop where
  /-- The places are followed. -/
  follow : follow? .root cs = some .closed
  /-- A root sign reaches over these pieces and no further. -/
  operand : ∀ rest, Detached rest → operand? (cs ++ rest) = some (cs, rest)

theorem Translates.derives_canonical {c : Category} {cs : List Symbol} {x : Expr}
    (h : Translates c cs x) : Grammar.Derives c.canonical (canonical cs) x := by
  rcases h.derives with ⟨us, hus, happ⟩
  have hcs := happ [] detached_nil
  rw [List.append_nil, canonical_nil, List.append_nil] at hcs
  rwa [hcs]

theorem Translates.depth?_eq {c : Category} {cs : List Symbol} {x : Expr}
    (h : Translates c cs x) (d : Nat) : Grammar.depth? d (pieces cs) = some d := by
  -- Depths are those of the canonical lexemes, which are derived.
  rw [← depth?_canonical]
  exact h.derives_canonical.depth?_eq d

/-- What is contributed may be derived in another category as well. -/
theorem Translates.imp {c d : Category} {cs : List Symbol} {x : Expr} (h : Translates c cs x)
    (hrule : ∀ us, Grammar.Derives c.canonical us x → Grammar.Derives d.canonical us x) :
    Translates d cs x := by
  rcases h.derives with ⟨us, hus, happ⟩
  exact ⟨h.follow, us, hrule us hus, happ⟩

/-- A group is closed by the parenthesis behind it. -/
theorem Translates.closeFrom?_eq {c : Category} {cs : List Symbol} {x : Expr}
    (h : Translates c cs x) (rest : List Symbol) :
    closeFrom? 1 (cs ++ .rightParen :: rest) = some (cs ++ [.rightParen], rest) := by
  rw [closeFrom?_append (h.depth?_eq 0)]
  rfl

/-- Two operands with the sign of an operation between them. -/
theorem Translates.binary {c d e : Category} {as bs : List Symbol} {x y z : Expr} {s : Symbol}
    {op : BinaryOp} (hl : Translates c as x) (hr : Translates d bs y)
    (hs : s = .operator op ∨ s = .caret ∧ op = .pow)
    (hrule : ∀ us vs, Grammar.Derives c.canonical us x → Grammar.Derives d.canonical vs y →
      Grammar.Derives e.canonical (us ++ .operator op :: vs) z) :
    Translates e (as ++ s :: bs) z := by
  have hplace : Place.next? .closed s = some .operand := by
    rcases hs with rfl | ⟨rfl, -⟩ <;> rfl
  have hcanonical : s.canonical = [.operator op] := by
    rcases hs with rfl | ⟨rfl, rfl⟩ <;> rfl
  have hroot : s ≠ .root := by
    rcases hs with rfl | ⟨rfl, -⟩ <;> simp
  have hopen : s ≠ .leftParen := by
    rcases hs with rfl | ⟨rfl, -⟩ <;> simp
  -- The sign detaches the left operand from what stands behind it.
  rcases hl.derives with ⟨us, hus, happl⟩
  rcases hr.derives with ⟨vs, hvs, happr⟩
  refine ⟨?_, us ++ .operator op :: vs, hrule us vs hus hvs, fun rest hrest => ?_⟩
  · rw [follow?_append, hl.follow, Option.bind_some, follow?, hplace]
    exact hr.follow
  · rw [List.append_assoc, List.cons_append, happl _ (detached_cons hopen _),
      canonical_cons hroot, happr rest hrest, hcanonical]
    simp

/-- A piece that stands alone and is no root sign. -/
theorem Translates.single {c : Category} {s : Symbol} {x : Expr} (hroot : s ≠ .root)
    (hplace : Place.next? .operand s = some .closed)
    (h : Grammar.Derives c.canonical s.canonical x) : Translates c [s] x := by
  refine ⟨?_, s.canonical, h, fun rest _ => ?_⟩
  · rw [follow?, hplace]
    rfl
  · rw [List.cons_append, canonical_cons hroot]
    rfl

/-- A sign in front of an operand. -/
theorem Translates.sign {cs : List Symbol} {x y : Expr} {op : BinaryOp} {p : Place}
    (h : Translates .unary cs x) (hplace : Place.next? .operand (.operator op) = some p)
    (hp : follow? p cs = some .closed)
    (hrule : ∀ us, Grammar.Derives .unary us x → Grammar.Derives .unary (.operator op :: us) y) :
    Translates .unary (.operator op :: cs) y := by
  rcases h.derives with ⟨us, hus, happ⟩
  refine ⟨?_, .operator op :: us, hrule us hus, fun rest hrest => ?_⟩
  · rw [follow?, hplace]
    exact hp
  · rw [List.cons_append, canonical_cons (by simp), happ rest hrest]
    rfl

/-- Behind a unary minus sign an operand stands as elsewhere, unless it is a
    numeral with a factorial mark. -/
theorem follow?_minus {cs : List Symbol} (h : follow? .operand cs = some .closed)
    (hm : ¬ StartsMarked (lexemes cs)) : follow? .minus cs = some .closed := by
  cases cs with
  | nil => exact absurd h (by simp [follow?])
  | cons x cs =>
      cases x with
      -- Only this piece may not stand behind a unary minus sign.
      | factorial negative n =>
          cases negative with
          | false => exact absurd ⟨n, lexemes cs, rfl⟩ hm
          | true => exact h
      | _ => exact h

theorem ofWord?_constant {letters : List Char} {c : Constant} (h : spelling letters = c.name) :
    Place.ofWord? letters = some .closed := by
  rw [Place.ofWord?, h, Constant.ofName?_name]
  rfl

theorem ofWord?_callee {letters : List Char} {f : Callee} (h : spelling letters = f.name) :
    Place.ofWord? letters = some .callee := by
  rw [Place.ofWord?, h, Callee.not_constant, Callee.ofName?_name]
  rfl

theorem isAtom_single {s : Symbol} (hplace : Place.ofAtom? s = some .closed)
    (hoperand : ∀ rest, Detached rest → operand? (s :: rest) = some ([s], rest)) :
    IsAtom [s] := by
  refine ⟨?_, hoperand⟩
  rw [follow?, Place.next?, hplace]
  rfl

theorem follow?_group {cs : List Symbol} (h : follow? .operand cs = some .closed) :
    follow? .operand (cs ++ [.rightParen]) = some .closed := by
  rw [follow?_append, h]
  rfl

theorem canonical_group {us : List Calculator.Lexeme} {cs : List Symbol}
    (h : ∀ rest, Detached rest → canonical (cs ++ rest) = us ++ canonical rest)
    (rest : List Symbol) :
    canonical (.leftParen :: (cs ++ .rightParen :: rest)) =
      .leftParen :: (us ++ .rightParen :: canonical rest) := by
  rw [canonical_cons (by simp), h _ (detached_cons (by simp) _), canonical_cons (by simp)]
  rfl

/-- A group is an atom. -/
theorem Translates.group {cs : List Symbol} {x : Expr} (h : Translates .expression cs x) :
    Translates .primary (.leftParen :: (cs ++ [.rightParen])) x ∧
      IsAtom (.leftParen :: (cs ++ [.rightParen])) := by
  rcases h.derives with ⟨us, hus, happ⟩
  refine ⟨⟨follow?_group h.follow, _, .group hus, fun rest _ => ?_⟩,
    ⟨follow?_group h.follow, fun rest _ => ?_⟩⟩
  · have hgroup := canonical_group happ rest
    simpa using hgroup
  · -- The parenthesis that is found is the one behind the body.
    have hclose := h.closeFrom?_eq rest
    simp [operand?, hclose]

/-- A call is an atom. -/
theorem Translates.call {cs : List Symbol} {x : Expr} {f : Callee} {letters : List Char}
    (hf : spelling letters = f.name) (h : Translates .expression cs x) :
    Translates .primary (.word letters :: .leftParen :: (cs ++ [.rightParen])) (f.node x) ∧
      IsAtom (.word letters :: .leftParen :: (cs ++ [.rightParen])) := by
  rcases h.derives with ⟨us, hus, happ⟩
  have hfollow : follow? .callee (.leftParen :: (cs ++ [.rightParen])) = some .closed :=
    follow?_group h.follow
  refine ⟨⟨?_, _, .call f hus, fun rest _ => ?_⟩, ⟨?_, fun rest _ => ?_⟩⟩
  · rw [follow?, Place.next?, Place.ofOperand?, Place.ofAtom?, ofWord?_callee hf]
    · exact hfollow
    all_goals simp
  · have hgroup := canonical_group happ rest
    rw [List.cons_append, canonical_cons (by simp), Symbol.canonical, hf]
    simpa using hgroup
  · rw [follow?, Place.next?, Place.ofAtom?, ofWord?_callee hf]
    exact hfollow
  · have hclose := h.closeFrom?_eq rest
    simp [operand?, hclose]

/-- A root sign with an atom is an atom. -/
theorem Translates.root {cs : List Symbol} {x : Expr} (h : Translates .primary cs x)
    (ha : IsAtom cs) :
    Translates .primary (.root :: cs) (.apply .sqrt x) ∧ IsAtom (.root :: cs) := by
  rcases h.derives with ⟨us, hus, happ⟩
  have hnil := happ [] detached_nil
  rw [List.append_nil, canonical_nil, List.append_nil] at hnil
  -- The call encloses the lexemes of the atom as an expression.
  have hexpression : Grammar.Derives .expression us x :=
    .ofTerm (.ofUnary (.ofPower (.ofPrimary hus)))
  refine ⟨⟨ha.follow, _, .call (.elementary .sqrt) hexpression, fun rest hrest => ?_⟩,
    ⟨ha.follow, fun rest hrest => ?_⟩⟩
  · rw [List.cons_append, canonical_root (ha.operand rest hrest), hnil]
    simp
  · rw [List.cons_append, operand?, ha.operand rest hrest]
    rfl

/-- Derivations come with pieces, and those of atoms with atoms. -/
theorem exists_translates {c : Category} {ts : List Lexeme} {x : Expr} (h : Derives c ts x) :
    ∃ cs, lexemes cs = ts ∧ Translates c cs x ∧ (c = .primary → IsAtom cs) := by
  -- The induction is on the derivation; a category that is one of the next
  -- keeps its pieces.
  induction h with
  | ofTerm _ ih =>
      rcases ih with ⟨cs, hcs, h, -⟩
      exact ⟨cs, hcs, h.imp fun us hus => .ofTerm hus, by simp⟩
  | ofUnary _ ih =>
      rcases ih with ⟨cs, hcs, h, -⟩
      exact ⟨cs, hcs, h.imp fun us hus => .ofUnary hus, by simp⟩
  | ofPower _ ih =>
      rcases ih with ⟨cs, hcs, h, -⟩
      exact ⟨cs, hcs, h.imp fun us hus => .ofPower hus, by simp⟩
  | ofBase _ ih =>
      rcases ih with ⟨cs, hcs, h, -⟩
      exact ⟨cs, hcs, h.imp fun us hus => .ofPrimary hus, by simp⟩
  | ofPrimary _ ih =>
      rcases ih with ⟨cs, hcs, h, -⟩
      exact ⟨cs, hcs, h.imp fun us hus => hus, by simp⟩
  | sum op hop _ _ ihl ihr =>
      rcases ihl with ⟨as, rfl, hl, -⟩
      rcases ihr with ⟨bs, rfl, hr, -⟩
      refine ⟨as ++ .operator op :: bs, lexemes_append _ _, ?_, by simp⟩
      exact hl.binary hr (.inl rfl) fun us vs hus hvs => .sum op hop hus hvs
  | product op hop _ _ ihl ihr =>
      rcases ihl with ⟨as, rfl, hl, -⟩
      rcases ihr with ⟨bs, rfl, hr, -⟩
      refine ⟨as ++ .operator op :: bs, lexemes_append _ _, ?_, by simp⟩
      exact hl.binary hr (.inl rfl) fun us vs hus hvs => .product op hop hus hvs
  | power s hs _ _ ihl ihr =>
      rcases ihl with ⟨as, rfl, hl, -⟩
      rcases ihr with ⟨bs, rfl, hr, -⟩
      rcases hs with rfl | rfl
      · -- The two spellings of the power sign are different pieces.
        refine ⟨as ++ .caret :: bs, lexemes_append _ _, ?_, by simp⟩
        exact hl.binary hr (.inr ⟨rfl, rfl⟩) fun us vs hus hvs => .power hus hvs
      · refine ⟨as ++ .operator .pow :: bs, lexemes_append _ _, ?_, by simp⟩
        exact hl.binary hr (.inl rfl) fun us vs hus hvs => .power hus hvs
  -- The condition of the rule is what lets the sign be a piece by itself.
  | minus _ hm ih =>
      rcases ih with ⟨cs, rfl, h, -⟩
      refine ⟨.operator .sub :: cs, rfl, ?_, by simp⟩
      exact h.sign rfl (follow?_minus h.follow hm) fun us hus => .minus hus
  | plus _ ih =>
      rcases ih with ⟨cs, rfl, h, -⟩
      refine ⟨.operator .add :: cs, rfl, ?_, by simp⟩
      exact h.sign rfl h.follow fun us hus => .plus hus
  | negativeFactorial n hn =>
      refine ⟨[.factorial true n], rfl, .single (by simp) rfl ?_, by simp⟩
      exact .call .factorial
        (.ofTerm (.ofUnary (.minus (.ofPower (.ofPrimary (.number n hn))))))
  | number n hn =>
      refine ⟨[.number n], rfl, .single (by simp) rfl (.number n hn), fun _ => ?_⟩
      exact isAtom_single rfl fun _ _ => rfl
  | factorial n hn =>
      refine ⟨[.factorial false n], rfl, .single (by simp) rfl ?_, fun _ => ?_⟩
      · exact .call .factorial (.ofTerm (.ofUnary (.ofPower (.ofPrimary (.number n hn)))))
      · exact isAtom_single rfl fun _ _ => rfl
  | percent n hn =>
      refine ⟨[.percent n], rfl, .single (by simp) rfl ?_, fun _ => ?_⟩
      · exact .call .percent (.ofTerm (.ofUnary (.ofPower (.ofPrimary (.number n hn)))))
      · exact isAtom_single rfl fun _ _ => rfl
  | constant c letters hc =>
      refine ⟨[.word letters], rfl, .single (by simp) (ofWord?_constant hc) ?_, fun _ => ?_⟩
      · rw [Symbol.canonical, hc]
        exact .constant c
      · exact isAtom_single (ofWord?_constant hc) fun rest hrest => operand?_word hrest
  | group _ ih =>
      rcases ih with ⟨cs, rfl, h, -⟩
      refine ⟨.leftParen :: (cs ++ [.rightParen]), ?_, h.group.1, fun _ => h.group.2⟩
      rw [lexemes_cons, lexemes_append]
      rfl
  | call f letters hf _ ih =>
      rcases ih with ⟨cs, rfl, h, -⟩
      refine ⟨.word letters :: .leftParen :: (cs ++ [.rightParen]), ?_, (h.call hf).1,
        fun _ => (h.call hf).2⟩
      rw [lexemes_cons, lexemes_cons, lexemes_append]
      rfl
  | root _ ih =>
      rcases ih with ⟨cs, rfl, h, ha⟩
      exact ⟨.root :: cs, rfl, (h.root (ha rfl)).1, fun _ => (h.root (ha rfl)).2⟩

end Typed

end Calculator
