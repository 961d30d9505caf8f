import Calculator.Proofs.Operand
import Mathlib.Data.List.Infix

/-!
# Parentheses without a partner

What is open along a text depends on what was open before it, and the text
contributes two numbers to that: how many more parentheses it opens than it
closes, and how low that difference gets on the way. The two also tell how many
of its parentheses have no partner in the text. Texts that are followed alike
from every depth have both numbers in common.

Expanding shorthand writes new parentheses, around numerals and around the
operands of root signs. Neither has a parenthesis without a partner, so all
texts are followed as they were before. A parenthesis that was forgotten when
the formula was typed is missing in its canonical text, and one too many is
still one too many.

## Main definitions

* `Text.excess`: How many more parentheses a text opens than it closes.
* `Text.lowest`: The least excess of its prefixes.
* `Text.unmatched`: How many of its parentheses have no partner.

## Theorems

* `Text.isLeast_lowest`: The lowest excess is that of a prefix.
* `Text.depth?_eq_some_iff`: What is open, by excess and lowest excess.
* `Text.unmatched_eq`: The parentheses without a partner, by the same numbers.
* `Shorthand.depth?_expand`: Expanding keeps what is open.
* `Formula.expand_keeps_parentheses`: Expanding keeps all of these numbers.
-/

namespace Calculator

namespace Text

/-- How many more parentheses a text opens than it closes. -/
def excess (text : List Char) : Int :=
  text.count '(' - text.count ')'

/-- The least excess of the prefixes of a text. -/
def lowest (text : List Char) : Int :=
  (text.inits.map excess).foldr min 0

/-- The parentheses of a text that have no partner in it. -/
structure Unmatched where
  /-- The closing ones that nothing has opened. -/
  closing : Nat
  /-- The opening ones that nothing closes. -/
  opening : Nat
deriving DecidableEq, Repr

/-- The parentheses without a partner after one more character. -/
def Unmatched.next (before : Unmatched) (c : Char) : Unmatched :=
  if c = '(' then { before with opening := before.opening + 1 }
  else if c = ')' then
    if before.opening = 0 then { before with closing := before.closing + 1 }
    else { before with opening := before.opening - 1 }
  else before

/-- The parentheses of a text that have no partner, when each closing one takes
    the last opening one that is left. -/
def unmatched (text : List Char) : Unmatched :=
  text.foldl Unmatched.next ⟨0, 0⟩

theorem le_foldr_min_iff {m : Int} {values : List Int} :
    m ≤ values.foldr min 0 ↔ m ≤ 0 ∧ ∀ v ∈ values, m ≤ v := by
  induction values with
  | nil => simp
  | cons v values ih =>
    rw [List.foldr_cons, le_min_iff, ih, List.forall_mem_cons]
    tauto

theorem le_lowest_iff {m : Int} {text : List Char} :
    m ≤ lowest text ↔ ∀ s, s <+: text → m ≤ excess s := by
  rw [lowest, le_foldr_min_iff, List.forall_mem_map]
  simp only [List.mem_inits]
  -- The empty prefix makes the first bound one of the others.
  exact and_iff_right_of_imp fun h => h [] List.nil_prefix

theorem excess_concat (text : List Char) (c : Char) :
    excess (text ++ [c]) = excess text + excess [c] := by
  simp only [excess, List.count_append]
  push_cast
  ring

theorem lowest_concat (text : List Char) (c : Char) :
    lowest (text ++ [c]) = min (lowest text) (excess (text ++ [c])) := by
  refine eq_of_forall_le_iff fun m => ?_
  rw [le_min_iff, le_lowest_iff, le_lowest_iff]
  simp only [List.prefix_concat_iff]
  constructor
  · exact fun h => ⟨fun s hs => h s (.inr hs), h _ (.inl rfl)⟩
  · rintro ⟨hbefore, hwhole⟩ s (rfl | hs)
    · exact hwhole
    · exact hbefore s hs

/-- The lowest excess is the excess of a prefix. -/
theorem isLeast_lowest (text : List Char) :
    IsLeast {e | ∃ s, s <+: text ∧ excess s = e} (lowest text) := by
  refine ⟨?_, ?_⟩
  · induction text using List.reverseRecOn with
    | nil => exact ⟨[], List.nil_prefix, rfl⟩
    | append_singleton text c ih =>
      obtain ⟨s, hs, hexcess⟩ := ih
      rw [lowest_concat]
      rcases min_choice (lowest text) (excess (text ++ [c])) with hmin | hmin
      · exact ⟨s, hs.trans (List.prefix_append text [c]), by rw [hmin, hexcess]⟩
      · exact ⟨_, List.prefix_rfl, hmin.symm⟩
  · rintro e ⟨s, hs, rfl⟩
    exact le_lowest_iff.1 le_rfl s hs

theorem lowest_nonpos (text : List Char) : lowest text ≤ 0 :=
  le_lowest_iff.1 le_rfl [] List.nil_prefix

theorem lowest_le_excess (text : List Char) : lowest text ≤ excess text :=
  le_lowest_iff.1 le_rfl text List.prefix_rfl

/-- What is open after a text, by its excess and the lowest one. -/
theorem depth?_eq_some_iff {d e : Nat} {text : List Char} :
    Typed.depth? d text = some e ↔ -(d : Int) ≤ lowest text ∧ d + excess text = e := by
  rw [Typed.depth?_eq_some_iff, le_lowest_iff]
  refine and_congr (forall₂_congr fun s _ => ?_) ?_
  · rw [excess]
    omega
  · rw [excess]
    omega

/-- From the depth that is just enough, a text is followed to its end. -/
theorem depth?_lowest (text : List Char) :
    Typed.depth? (-lowest text).toNat text = some (excess text - lowest text).toNat := by
  have := lowest_nonpos text
  have := lowest_le_excess text
  rw [depth?_eq_some_iff]
  omega

/-- Texts that are followed alike from every depth have both numbers in
    common. -/
theorem eq_of_depth?_eq {s t : List Char} (h : ∀ d, Typed.depth? d s = Typed.depth? d t) :
    excess s = excess t ∧ lowest s = lowest t := by
  have hs := depth?_lowest s
  have ht := depth?_lowest t
  rw [h, depth?_eq_some_iff] at hs
  rw [← h, depth?_eq_some_iff] at ht
  have := lowest_nonpos s
  have := lowest_nonpos t
  have := lowest_le_excess s
  have := lowest_le_excess t
  omega

/-- The parentheses without a partner: the closing ones are those that bring
    the excess to its lowest, the opening ones bring it up again from there. -/
theorem unmatched_eq (text : List Char) :
    unmatched text = ⟨(-lowest text).toNat, (excess text - lowest text).toNat⟩ := by
  induction text using List.reverseRecOn with
  | nil => rfl
  | append_singleton text c ih =>
    have := lowest_nonpos text
    have := lowest_le_excess text
    rw [unmatched, List.foldl_append, ← unmatched, ih, List.foldl_cons, List.foldl_nil,
      Unmatched.next, lowest_concat, excess_concat]
    split
    · rename_i hopen
      have hexcess : excess [c] = 1 := by rw [hopen]; decide
      rw [hexcess, Unmatched.mk.injEq]
      simp only
      omega
    · split
      · rename_i hclose
        have hexcess : excess [c] = -1 := by rw [hclose]; decide
        rw [hexcess]
        split
        · rw [Unmatched.mk.injEq]
          simp only at *
          omega
        · rw [Unmatched.mk.injEq]
          simp only at *
          omega
      · rename_i hopen hclose
        have hexcess : excess [c] = 0 := by simp [excess, hopen, hclose]
        rw [hexcess, Unmatched.mk.injEq]
        omega

end Text

namespace Shorthand

open Typed (depth?)

/-- Expanding root signs keeps what is open: what is put into a call is an
    operand, and operands are balanced. -/
theorem depth?_expandRoots (d : Nat) (text : List Char) :
    depth? d (expandRoots text) = depth? d text := by
  have hword : ∀ c ∈ rootWord, c ≠ '(' ∧ c ≠ ')' := forall_mem_of_all (by decide)
  have hroot : ('√' : Char) ≠ '(' ∧ ('√' : Char) ≠ ')' := by decide
  fun_induction expandRoots text generalizing d with
  | case1 => rfl
  | case2 text operand tail hsplit ihoperand ihtail =>
    have hoperand := balanced_of_rootOperand? hsplit
    rw [depth?_call hword ((ihoperand (d + 1)).trans (hoperand.depth? (d + 1))), ihtail,
      Typed.depth?_cons hroot, ← append_of_rootOperand? hsplit, Typed.depth?_append,
      hoperand.depth?, Option.bind_some]
  | case3 text hnone ih =>
    rw [Typed.depth?_append_of_not_paren hword, ih, Typed.depth?_cons hroot]
  | case4 c text hc ih => simp only [depth?, ih]

theorem depth?_respell (d : Nat) (text : List Char) : depth? d (respell text) = depth? d text := by
  have hpower : ∀ c ∈ ['*', '*'], c ≠ '(' ∧ c ≠ ')' := forall_mem_of_all (by decide)
  have hpi : ∀ c ∈ ['p', 'i'], c ≠ '(' ∧ c ≠ ')' := forall_mem_of_all (by decide)
  induction text generalizing d with
  | nil => rfl
  | cons c text ih =>
    rw [respell_cons, respelled]
    split
    · rename_i hc
      rw [Typed.depth?_append_of_not_paren hpower, ih, Typed.depth?_cons (by rw [hc]; decide)]
    · split
      · rename_i hc
        rw [Typed.depth?_append_of_not_paren hpi, ih, Typed.depth?_cons (by rw [hc]; decide)]
      · rw [List.singleton_append]
        simp only [depth?, ih]

/-- Expanding shorthand keeps what is open. -/
theorem depth?_expand (d : Nat) (text : List Char) : depth? d (expand text) = depth? d text := by
  rw [expand, depth?_respell, depth?_expandRoots, depth?_expandMarks]

end Shorthand

namespace Formula

/-- Expanding keeps the difference of opening and closing parentheses, the
    lowest that it gets, and with them whether the text is balanced and how many
    of its parentheses have no partner. -/
theorem expand_keeps_parentheses {limit : NestingLimit} {text canonical : List Char}
    (h : expandWithin limit text = .ok canonical) :
    Text.excess canonical = Text.excess text ∧ Text.lowest canonical = Text.lowest text ∧
      (Text.Balanced canonical ↔ Text.Balanced text) ∧
      Text.unmatched canonical = Text.unmatched text := by
  obtain ⟨-, rfl⟩ := expandWithin_eq_ok.1 h
  have hdepth := fun d => Shorthand.depth?_expand d text
  obtain ⟨hexcess, hlowest⟩ := Text.eq_of_depth?_eq hdepth
  refine ⟨hexcess, hlowest, ?_, ?_⟩
  · rw [Text.balanced_iff, Text.balanced_iff, hdepth]
  · rw [Text.unmatched_eq, Text.unmatched_eq, hexcess, hlowest]

/-- One parenthesis too many behind a factorial, and a root whose group is not
    closed although one inside of it is. -/
theorem expand_keeps_parentheses_stray :
    expandWithin NestingLimit.standard "-3!)+√(√(4)50%".toList =
        .ok "fact(-3))+sqrt(sqrt((4))pct(50)".toList ∧
      Text.unmatched "-3!)+√(√(4)50%".toList = ⟨1, 1⟩ ∧
      Text.unmatched "fact(-3))+sqrt(sqrt((4))pct(50)".toList = ⟨1, 1⟩ := by
  have hexpand : expandWithin NestingLimit.standard "-3!)+√(√(4)50%".toList =
      .ok "fact(-3))+sqrt(sqrt((4))pct(50)".toList :=
    expandWithin_eq_ok.2 ⟨by decide +kernel, by decide +kernel⟩
  have htyped : Text.unmatched "-3!)+√(√(4)50%".toList = ⟨1, 1⟩ := by decide
  exact ⟨hexpand, htyped, (expand_keeps_parentheses hexpand).2.2.2.trans htyped⟩

end Formula

end Calculator
