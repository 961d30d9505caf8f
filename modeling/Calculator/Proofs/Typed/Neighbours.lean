import Calculator.Proofs.Typed.Group
import Calculator.Proofs.Typed.Roots

/-!
# Neighbours among the canonical lexemes of typed formulas

The canonical lexemes of pieces that follow their places and close their
parentheses do not run together when they are written. The parentheses matter:
a root sign in front of a group that is never closed becomes a bare word, and
the word would run together with the name of a callee in front of the group.

## Main definitions

* `Typed.Starts`: The canonical lexemes that may stand at a place.

## Theorems

* `Typed.head?_canonical`: The place of some pieces shows in the first lexeme.
* `Typed.apart_canonical`: Neighbouring pieces do not run together.
* `Typed.isChain_canonical`: Nothing runs together.
-/

namespace Calculator

namespace Typed

/-- The canonical lexemes that may stand at a place. -/
def Starts (p : Place) (t : Calculator.Lexeme) : Prop :=
  match p with
  | .closed => (∃ op, t = .operator op) ∨ t = .rightParen
  | .callee => t = .leftParen
  | _ => t.canStart = true

theorem starts_canonical {p q : Place} {x : Symbol} (hq : p.next? x = some q) :
    ∀ t ∈ x.canonical.head?, Starts p t := by
  intro t ht
  -- A piece with which an operand starts stands behind no operand.
  have hoperand (hx : ∀ r, Place.next? .closed x ≠ some r)
      (hcallee : ∀ r, Place.next? .callee x = some r → t = .leftParen) (h : t.canStart = true) :
      Starts p t := by
    cases p with
    | closed => exact absurd hq (hx q)
    | callee => exact hcallee q hq
    | _ => exact h
  cases x with
  | operator op =>
      rcases (by simpa [Symbol.canonical] using ht : .operator op = t)
      cases p with
      | closed => exact .inl ⟨op, rfl⟩
      | _ =>
          cases op <;> first
            | rfl
            | exact absurd hq (by simp [Place.next?, Place.ofOperand?, Place.ofAtom?])
  | caret =>
      rcases (by simpa [Symbol.canonical] using ht : .operator .pow = t)
      cases p with
      | closed => exact .inl ⟨.pow, rfl⟩
      | _ => exact absurd hq (by simp [Place.next?, Place.ofOperand?, Place.ofAtom?])
  | rightParen =>
      rcases (by simpa [Symbol.canonical] using ht : .rightParen = t)
      cases p with
      | closed => exact .inr rfl
      | _ => exact absurd hq (by simp [Place.next?, Place.ofOperand?, Place.ofAtom?])
  | _ =>
      rcases (by simpa [Symbol.canonical] using ht)
      exact hoperand (by simp [Place.next?]) (by simp [Place.next?]) rfl

theorem canonical_ne_nil (x : Symbol) : x.canonical ≠ [] := by
  cases x <;> simp [Symbol.canonical]

theorem head?_canonical {cs : List Symbol} {p : Place} (h : follow? p cs = some .closed) :
    ∀ t ∈ (canonical cs).head?, Starts p t := by
  cases cs with
  | nil => simp [canonical_nil]
  | cons x cs =>
      rcases follow?_cons h with ⟨q, hq, -⟩
      -- A root sign shows as its word, with a call or without one.
      have hhead : (canonical (x :: cs)).head? = x.canonical.head? := by
        by_cases hroot : x = .root
        · subst hroot
          cases hsplit : operand? cs with
          | none => rw [canonical_bare hsplit]; rfl
          | some split => rw [canonical_root hsplit]; rfl
        · rw [canonical_cons hroot, List.head?_append_of_ne_nil _ (canonical_ne_nil x)]
      rw [hhead]
      exact starts_canonical hq

/-- What ends a piece and what may stand behind the piece do not run together. -/
theorem apart_canonical {p q : Place} {x : Symbol} (hroot : x ≠ .root) (hq : p.next? x = some q)
    {t u : Calculator.Lexeme} (ht : x.canonical.getLast? = some t) (hu : Starts q u) :
    t.Apart u := by
  cases x with
  | number n =>
      rcases closed_of_next? (.inl rfl) hq
      rcases (by simpa [Symbol.canonical] using ht : .number n = t)
      rcases hu with ⟨op, rfl⟩ | rfl <;> trivial
  -- A constant is followed as an operand is, a callee by its parenthesis.
  | word letters =>
      rcases (by simpa [Symbol.canonical] using ht : .word (spelling letters) = t)
      rcases ofWord?_of_next? hq with rfl | rfl
      · rcases hu with ⟨op, rfl⟩ | rfl <;> trivial
      · rcases (hu : u = .leftParen)
        trivial
  | operator op =>
      rcases (by simpa [Symbol.canonical] using ht : .operator op = t)
      refine Calculator.Lexeme.apart_of_canStart ?_ op
      rcases operand_of_next? hq with rfl | rfl
      · exact hu
      · exact hu
  | factorial negative n =>
      cases negative
      all_goals
        rcases (by simpa [Symbol.canonical] using ht : .rightParen = t)
        trivial
  | root => exact absurd rfl hroot
  | _ =>
      rcases (by simpa [Symbol.canonical] using ht)
      trivial

theorem isChain_piece (x : Symbol) : x.canonical.IsChain Calculator.Lexeme.Apart := by
  cases x with
  | factorial negative n => cases negative <;> simp [Symbol.canonical, Calculator.Lexeme.Apart]
  | _ => simp [Symbol.canonical, Calculator.Lexeme.Apart]

/-- If all parentheses are closed then nothing runs together. -/
theorem isChain_canonical {cs : List Symbol} {p : Place} {d : Nat}
    (h : follow? p cs = some .closed) (hd : Grammar.depth? d (pieces cs) = some 0) :
    (canonical cs).IsChain Calculator.Lexeme.Apart := by
  fun_induction canonical cs generalizing p d with
  | case1 => exact List.isChain_nil
  -- The call ends with a parenthesis, which extends nothing.
  | case2 cs atom rest hsplit iha ihr =>
      rcases follow?_cons h with ⟨q, hq, hfollow⟩
      rcases root_of_next? hq
      have hfollow := follow?_of_operand? hsplit hfollow rfl
      have hatom := depth?_of_operand? hsplit 0
      rw [depth?_pieces_cons (by simp) (by simp), ← append_of_operand? hsplit, pieces_append,
        Grammar.depth?_append, depth?_of_operand? hsplit] at hd
      have hgroup := Grammar.isChain_group (iha hfollow.1 hatom)
      have hbehind : List.IsChain Calculator.Lexeme.Apart
          (.leftParen :: (canonical atom ++ [.rightParen]) ++ canonical rest) := by
        refine List.isChain_append.2 ⟨hgroup, ihr hfollow.2 hd, fun t ht u _ => ?_⟩
        rw [← List.cons_append, List.getLast?_concat] at ht
        rcases (by simpa using ht : .rightParen = t)
        trivial
      refine List.isChain_cons.2 ⟨by simp [Calculator.Lexeme.Apart], ?_⟩
      simpa using hbehind
  -- All parentheses are closed, so the root sign reaches an atom.
  | case3 cs hnone ih =>
      rcases follow?_cons h with ⟨q, hq, hfollow⟩
      rcases root_of_next? hq
      rw [depth?_pieces_cons (by simp) (by simp)] at hd
      rcases exists_operand? hfollow hd with ⟨split, hsplit⟩
      rw [hnone] at hsplit
      exact absurd hsplit (by simp)
  | case4 x cs hx ih =>
      rcases follow?_cons h with ⟨q, hq, hfollow⟩
      rw [pieces_cons, Grammar.depth?_append] at hd
      rcases Option.bind_eq_some_iff.1 hd with ⟨e, -, he⟩
      refine List.isChain_append.2 ⟨isChain_piece x, ih hfollow he, fun t ht u hu => ?_⟩
      exact apart_canonical hx hq ht (head?_canonical hfollow u hu)

end Typed

end Calculator
