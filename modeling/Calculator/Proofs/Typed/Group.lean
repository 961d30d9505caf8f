import Calculator.Proofs.Typed.Symbol

/-!
# Groups of typed formulas

Parentheses in lists of pieces. A list of pieces is balanced if its lexemes
are, taken piece by piece. The call that a root sign becomes encloses an atom,
and atoms are balanced; so the canonical lexemes are balanced if the pieces
are, however far the root signs reach.

The parenthesis that closes a group is found behind every balanced list.

## Main definitions

* `Typed.pieces`: Canonical lexemes piece by piece, root signs as bare words.

## Theorems

* `Typed.depth?_of_operand?`: Atoms are balanced.
* `Typed.depth?_canonical`: Enclosing what a root sign reaches keeps depths.
* `Typed.closeFrom?_append`: A balanced list does not close a group.
-/

namespace Calculator

namespace Typed

open Grammar

/-- Canonical lexemes piece by piece, each root sign as a bare word. -/
def pieces (cs : List Symbol) : List Calculator.Lexeme :=
  cs.flatMap Symbol.canonical

theorem pieces_append (as bs : List Symbol) : pieces (as ++ bs) = pieces as ++ pieces bs := by
  simp [pieces]

theorem pieces_cons (x : Symbol) (cs : List Symbol) :
    pieces (x :: cs) = x.canonical ++ pieces cs := rfl

/-- Only parentheses count: a mark stands for a call that is closed again. -/
theorem depth?_pieces_cons {x : Symbol} (hl : x ≠ .leftParen) (hr : x ≠ .rightParen) (d : Nat)
    (cs : List Symbol) : depth? d (pieces (x :: cs)) = depth? d (pieces cs) := by
  rw [pieces_cons]
  cases x with
  | leftParen => exact absurd rfl hl
  | rightParen => exact absurd rfl hr
  | factorial negative n => cases negative <;> simp [Symbol.canonical, depth?]
  | _ => simp [Symbol.canonical, depth?]

theorem depth?_of_closeFrom? {depth : Nat} {cs group rest : List Symbol} (hd : 1 ≤ depth)
    (h : closeFrom? depth cs = some (group, rest)) (d : Nat) :
    depth? (d + depth) (pieces group) = some d := by
  fun_induction closeFrom? depth cs generalizing group with
  | case1 => exact absurd h (by simp)
  | case2 depth cs ih =>
      rcases split_of_map [_] h with ⟨g, hg, rfl⟩
      exact ih (by omega) hg
  -- The last parenthesis closes the only one that is still open.
  | case3 depth cs hle =>
      rcases (by simpa using h : (_ ∧ _)) with ⟨rfl, rfl⟩
      have hone : depth = 1 := by omega
      rw [hone]
      rfl
  | case4 depth cs hle ih =>
      rcases split_of_map [_] h with ⟨g, hg, rfl⟩
      have hpred : d + depth = d + (depth - 1) + 1 := by omega
      rw [hpred]
      exact ih (by omega) hg
  | case5 depth x cs hl hr ih =>
      rcases split_of_map [_] h with ⟨g, hg, rfl⟩
      rw [List.singleton_append, depth?_pieces_cons hl hr]
      exact ih hd hg

/-- Atoms are balanced. -/
theorem depth?_of_operand? {cs atom rest : List Symbol} (h : operand? cs = some (atom, rest))
    (d : Nat) : depth? d (pieces atom) = some d := by
  fun_induction operand? cs generalizing atom with
  | case1 cs ih =>
      rcases split_of_map [_] h with ⟨a, ha, rfl⟩
      rw [List.singleton_append, depth?_pieces_cons (by simp) (by simp)]
      exact ih ha
  -- The parenthesis behind a name is the one that is still open.
  | case5 letters cs =>
      rcases split_of_map [_, _] h with ⟨a, ha, rfl⟩
      rw [List.cons_append, depth?_pieces_cons (by simp) (by simp)]
      exact depth?_of_closeFrom? (Nat.le_refl 1) ha d
  | case7 cs =>
      rcases split_of_map [_] h with ⟨a, ha, rfl⟩
      exact depth?_of_closeFrom? (Nat.le_refl 1) ha d
  | case8 => exact absurd h (by simp)
  | _ =>
      rcases (by simpa using h : (_ ∧ _)) with ⟨rfl, rfl⟩
      rfl

/-- Enclosing what a root sign reaches keeps depths. -/
theorem depth?_canonical (cs : List Symbol) (d : Nat) :
    depth? d (canonical cs) = depth? d (pieces cs) := by
  fun_induction canonical cs generalizing d with
  | case1 => rfl
  -- The call closes its own parenthesis, and the atom keeps the depth in it.
  | case2 cs atom rest hsome iha ihr =>
      have hatom := depth?_of_operand? hsome
      have happ := append_of_operand? hsome
      rw [depth?_pieces_cons (by simp) (by simp), ← happ, pieces_append, depth?_append d, hatom d,
        depth?, depth?, depth?_append, iha, hatom]
      · exact ihr d
      all_goals simp
  -- A bare word counts as little as the root sign.
  | case3 cs hnone ih =>
      rw [pieces_cons, depth?_append, depth?_append]
      exact congrArg _ (funext fun e => ih e)
  | case4 x cs hx ih =>
      rw [pieces_cons, depth?_append, depth?_append]
      exact congrArg _ (funext fun e => ih e)

/-- A list that never closes more than it opens does not close the group
    around it. -/
theorem closeFrom?_append {cs : List Symbol} {d e : Nat} (h : depth? d (pieces cs) = some e)
    (rest : List Symbol) :
    closeFrom? (d + 1) (cs ++ rest) =
      (closeFrom? (e + 1) rest).map fun split => (cs ++ split.1, split.2) := by
  induction cs generalizing d with
  | nil =>
      rcases (by simpa [pieces, depth?] using h : d = e)
      simp
  | cons x cs ih =>
      by_cases hl : x = .leftParen
      · subst hl
        rw [List.cons_append, closeFrom?, ih h]
        cases closeFrom? (e + 1) rest <;> rfl
      · by_cases hr : x = .rightParen
        · subst hr
          cases d with
          -- Nothing is open that could be closed inside the list.
          | zero => exact absurd h (by simp [pieces_cons, Symbol.canonical, depth?])
          | succ d =>
              rw [List.cons_append, closeFrom?, if_neg (by omega), Nat.add_sub_cancel, ih h]
              cases closeFrom? (e + 1) rest <;> rfl
        · rw [depth?_pieces_cons hl hr] at h
          rw [List.cons_append, closeFrom?, ih h]
          · cases closeFrom? (e + 1) rest <;> rfl
          · exact hl
          · exact hr

/-- If all parentheses are closed then every group is. -/
theorem exists_closeFrom? {cs : List Symbol} {d depth : Nat} (hd : 1 ≤ depth)
    (h : depth? (d + depth) (pieces cs) = some 0) : ∃ split, closeFrom? depth cs = some split := by
  fun_induction closeFrom? depth cs with
  -- At the end nothing may be open, but the group still is.
  | case1 depth =>
      rcases (by simpa [pieces, depth?] using h : d = 0 ∧ depth = 0) with ⟨-, rfl⟩
      exact absurd hd (by simp)
  | case2 depth cs ih =>
      rcases ih (by omega) h with ⟨split, hsplit⟩
      exact ⟨_, by rw [hsplit]; rfl⟩
  | case3 depth cs hle => exact ⟨_, rfl⟩
  | case4 depth cs hle ih =>
      have hpred : d + depth = d + (depth - 1) + 1 := by omega
      rw [hpred] at h
      rcases ih (by omega) h with ⟨split, hsplit⟩
      exact ⟨_, by rw [hsplit]; rfl⟩
  | case5 depth x cs hl hr ih =>
      rw [depth?_pieces_cons hl hr] at h
      rcases ih hd h with ⟨split, hsplit⟩
      exact ⟨_, by rw [hsplit]; rfl⟩

/-- If all parentheses are closed then every root sign reaches an atom. -/
theorem exists_operand? {cs : List Symbol} {d : Nat} (hfollow : follow? .root cs = some .closed)
    (h : depth? d (pieces cs) = some 0) : ∃ split, operand? cs = some split := by
  fun_induction operand? cs with
  | case1 cs ih =>
      rw [depth?_pieces_cons (by simp) (by simp)] at h
      rcases ih hfollow h with ⟨split, hsplit⟩
      exact ⟨_, by rw [hsplit]; rfl⟩
  -- A group starts, and all parentheses are closed.
  | case5 letters cs =>
      rw [depth?_pieces_cons (by simp) (by simp)] at h
      rcases exists_closeFrom? (Nat.le_refl 1) h with ⟨split, hsplit⟩
      exact ⟨_, by rw [hsplit]; rfl⟩
  | case7 cs =>
      rcases exists_closeFrom? (Nat.le_refl 1) h with ⟨split, hsplit⟩
      exact ⟨_, by rw [hsplit]; rfl⟩
  | case8 cs h₁ h₂ h₃ h₄ h₅ h₆ h₇ =>
      cases cs with
      | nil => exact absurd hfollow (by simp [follow?])
      | cons x cs =>
          -- No other piece starts an atom.
          cases x with
          | factorial negative n =>
              cases negative with
              | false => exact absurd rfl (h₃ n cs)
              | true => exact absurd hfollow (by simp [follow?, Place.next?, Place.ofAtom?])
          | number n => exact absurd rfl (h₂ n cs)
          | percent n => exact absurd rfl (h₄ n cs)
          | word letters => exact absurd rfl (h₆ letters cs)
          | root => exact absurd rfl (h₁ cs)
          | leftParen => exact absurd rfl (h₇ cs)
          | _ => exact absurd hfollow (by simp [follow?, Place.next?, Place.ofAtom?])
  | _ => exact ⟨_, rfl⟩

end Typed

end Calculator
