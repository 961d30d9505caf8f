import Calculator.Proofs.Typed.Language

/-!
# Parentheses in texts

How many parentheses are open along a text is followed character by character,
given how many are open before it. A text is balanced if it closes none that it
has not opened, and leaves none open. A piece at the end of a balanced text
closes all that is open before it, and that is enough for every group that
starts in it to end in it.

The marks behind numerals are not concerned with parentheses at all: a call
closes the one that it opens, and the rest is kept.

## Main definitions

* `Text.Balanced`: No prefix closes more than it opens, and the totals agree.
* `Text.Closing`: A text that closes all that is open before it.

## Theorems

* `Typed.depth?_eq_some_iff`, `Text.balanced_iff`: Following and counting agree.
* `Text.Closing.of_suffix`: The end of a closing text is closing.
* `Shorthand.closeFrom?_balanced`: A balanced text does not close a group.
* `Shorthand.exists_closeFrom?`: A closing text closes every group.
* `Shorthand.Mark.depth?_expand`: Expanding marks keeps what is open.
-/

namespace Calculator

/-- No prefix of the text closes more parentheses than it opens, and the text
    closes as many as it opens. -/
structure Text.Balanced (text : List Char) : Prop where
  /-- No parenthesis is closed before it is opened. -/
  prefix_le : ∀ s, s <+: text → s.count ')' ≤ s.count '('
  /-- None is left open. -/
  total : text.count ')' = text.count '('

namespace Typed

@[simp] theorem depth?_nil (d : Nat) : depth? d [] = some d := rfl

@[simp] theorem depth?_open (d : Nat) (text : List Char) :
    depth? d ('(' :: text) = depth? (d + 1) text := by
  rw [depth?, if_pos rfl]

@[simp] theorem depth?_close_zero (text : List Char) : depth? 0 (')' :: text) = none := by
  rw [depth?, if_neg (by decide), if_pos rfl, if_pos rfl]

@[simp] theorem depth?_close_succ (d : Nat) (text : List Char) :
    depth? (d + 1) (')' :: text) = depth? d text := by
  rw [depth?, if_neg (by decide), if_pos rfl, if_neg (by omega), Nat.add_sub_cancel]

theorem depth?_cons {c : Char} (hc : c ≠ '(' ∧ c ≠ ')') (d : Nat) (text : List Char) :
    depth? d (c :: text) = depth? d text := by
  rw [depth?, if_neg hc.1, if_neg hc.2]

theorem depth?_append (d : Nat) (text rest : List Char) :
    depth? d (text ++ rest) = (depth? d text).bind fun e => depth? e rest := by
  induction text generalizing d with
  | nil => rfl
  | cons c text ih =>
    simp only [List.cons_append, depth?]
    split
    · exact ih (d + 1)
    · split
      · split
        -- A parenthesis too many fails, whatever follows.
        · rfl
        · exact ih (d - 1)
      · exact ih d

/-- What holds of all prefixes of a longer text. -/
theorem forall_prefix_cons {P : List Char → Prop} {c : Char} {text : List Char} :
    (∀ s, s <+: c :: text → P s) ↔ P [] ∧ ∀ s, s <+: text → P (c :: s) := by
  constructor
  · exact fun h => ⟨h [] List.nil_prefix, fun s hs => h _ (List.cons_prefix_cons.2 ⟨rfl, hs⟩)⟩
  · rintro ⟨hnil, hcons⟩ s hs
    rcases List.prefix_cons_iff.1 hs with rfl | ⟨t, rfl, ht⟩
    · exact hnil
    · exact hcons t ht

/-- Following the parentheses is counting them in every prefix. -/
theorem depth?_eq_some_iff {d e : Nat} {text : List Char} :
    depth? d text = some e ↔
      (∀ s, s <+: text → s.count ')' ≤ d + s.count '(') ∧
        d + text.count '(' = e + text.count ')' := by
  induction text generalizing d with
  | nil => simp
  | cons c text ih =>
    rw [forall_prefix_cons]
    by_cases hopen : c = '('
    · subst hopen
      have hne : ('(' : Char) ≠ ')' := by decide
      simp [ih, hne, Nat.add_assoc, Nat.add_comm 1]
    · by_cases hclose : c = ')'
      · subst hclose
        simp only [List.count_nil, List.count_cons_self, List.count_cons_of_ne hopen]
        cases d with
        | zero =>
          -- The first prefix that is not empty closes too many.
          rw [depth?_close_zero]
          refine iff_of_false (by simp) fun h => ?_
          exact absurd (h.1.2 [] List.nil_prefix) (by simp)
        | succ d =>
          rw [depth?_close_succ, ih]
          constructor
          · rintro ⟨hbelow, htotal⟩
            refine ⟨⟨by omega, fun s hs => ?_⟩, by omega⟩
            have := hbelow s hs
            omega
          · rintro ⟨⟨-, hbelow⟩, htotal⟩
            refine ⟨fun s hs => ?_, by omega⟩
            have := hbelow s hs
            omega
      · simp [depth?_cons ⟨hopen, hclose⟩, ih, hopen, hclose]

end Typed

namespace Text

theorem balanced_iff {text : List Char} : Balanced text ↔ Typed.depth? 0 text = some 0 := by
  rw [Typed.depth?_eq_some_iff]
  constructor
  · exact fun h => ⟨by simpa using h.prefix_le, by simpa using h.total.symm⟩
  · exact fun h => ⟨by simpa using h.1, by simpa using h.2.symm⟩

/-- A text that closes all parentheses that are open before it, and all that
    it opens. -/
def Closing (text : List Char) : Prop :=
  ∃ d, Typed.depth? d text = some 0

theorem Balanced.closing {text : List Char} (h : Balanced text) : Closing text :=
  ⟨0, balanced_iff.1 h⟩

/-- The end of a closing text is closing. -/
theorem Closing.of_suffix {text rest : List Char} (h : Closing text) (hsuffix : rest <:+ text) :
    Closing rest := by
  obtain ⟨front, rfl⟩ := hsuffix
  obtain ⟨d, hd⟩ := h
  rw [Typed.depth?_append] at hd
  obtain ⟨e, -, he⟩ := Option.bind_eq_some_iff.1 hd
  exact ⟨e, he⟩

theorem Closing.tail {c : Char} {text : List Char} (h : Closing (c :: text)) : Closing text :=
  h.of_suffix (List.suffix_cons c text)

end Text

namespace Shorthand

open Typed (depth?)

/-- A group that ends in a text ends there, whatever follows. -/
theorem closeFrom?_of_some {depth : Nat} {text group behind : List Char}
    (h : closeFrom? depth text = some (group, behind)) (rest : List Char) :
    closeFrom? depth (text ++ rest) = some (group, behind ++ rest) := by
  fun_induction closeFrom? depth text generalizing group with
  | case1 => exact absurd h (by simp)
  | case2 depth text ih =>
    obtain ⟨⟨inner, _⟩, hinner, heq⟩ := Option.map_eq_some_iff.1 h
    obtain ⟨rfl, rfl⟩ := by simpa using heq
    rw [List.cons_append, closeFrom?, if_pos rfl, ih hinner]
    rfl
  | case3 depth text hle _ =>
    obtain ⟨rfl, rfl⟩ := by simpa using h
    rw [List.cons_append, closeFrom?, if_neg (by decide), if_pos rfl, if_pos hle]
  | case4 depth text hle _ ih =>
    obtain ⟨⟨inner, _⟩, hinner, heq⟩ := Option.map_eq_some_iff.1 h
    obtain ⟨rfl, rfl⟩ := by simpa using heq
    rw [List.cons_append, closeFrom?, if_neg (by decide), if_pos rfl, if_neg hle, ih hinner]
    rfl
  | case5 depth c text hopen hclose ih =>
    obtain ⟨⟨inner, _⟩, hinner, heq⟩ := Option.map_eq_some_iff.1 h
    obtain ⟨rfl, rfl⟩ := by simpa using heq
    rw [List.cons_append, closeFrom?, if_neg hopen, if_neg hclose, ih hinner]
    rfl

/-- A text that never closes more than it opens does not close the group
    around it. -/
theorem closeFrom?_balanced {d e : Nat} {text : List Char} (h : depth? d text = some e)
    (rest : List Char) :
    closeFrom? (d + 1) (text ++ rest) =
      (closeFrom? (e + 1) rest).map fun split => (text ++ split.1, split.2) := by
  induction text generalizing d with
  | nil =>
    obtain rfl : d = e := by simpa using h
    simp
  | cons c text ih =>
    rw [List.cons_append, closeFrom?]
    by_cases hopen : c = '('
    · subst hopen
      rw [if_pos rfl, ih (by simpa using h)]
      cases closeFrom? (e + 1) rest <;> rfl
    · by_cases hclose : c = ')'
      · subst hclose
        cases d with
        -- Nothing is open that could be closed inside the text.
        | zero => exact absurd h (by simp)
        | succ d =>
          rw [if_neg hopen, if_pos rfl, if_neg (by omega), Nat.add_sub_cancel,
            ih (by simpa using h)]
          cases closeFrom? (e + 1) rest <;> rfl
      · rw [if_neg hopen, if_neg hclose, ih (by rwa [Typed.depth?_cons ⟨hopen, hclose⟩] at h)]
        cases closeFrom? (e + 1) rest <;> rfl

/-- If all parentheses are closed then every group is. -/
theorem exists_closeFrom? {d depth : Nat} (hd : 1 ≤ depth) {text : List Char}
    (h : depth? (d + depth) text = some 0) : ∃ split, closeFrom? depth text = some split := by
  fun_induction closeFrom? depth text with
  -- At the end nothing may be open, but the group still is.
  | case1 depth =>
    obtain ⟨-, rfl⟩ := by simpa using h
    exact absurd hd (by simp)
  | case2 depth text ih =>
    obtain ⟨split, hsplit⟩ := ih (by omega) (by simpa [Nat.add_assoc] using h)
    exact ⟨_, by rw [hsplit]; rfl⟩
  | case3 => exact ⟨_, rfl⟩
  | case4 depth text hle _ ih =>
    have hpred : d + depth = d + (depth - 1) + 1 := by omega
    rw [hpred, Typed.depth?_close_succ] at h
    obtain ⟨split, hsplit⟩ := ih (by omega) h
    exact ⟨_, by rw [hsplit]; rfl⟩
  | case5 depth c text hopen hclose ih =>
    rw [Typed.depth?_cons ⟨hopen, hclose⟩] at h
    obtain ⟨split, hsplit⟩ := ih hd h
    exact ⟨_, by rw [hsplit]; rfl⟩

theorem group?_of_ne {c : Char} (hc : c ≠ '(') (text : List Char) : group? (c :: text) = none := by
  unfold group?
  split
  · rename_i heq
    exact absurd (List.cons.inj heq).1 hc
  · rfl

/-- A group that starts in a text that closes all that is open ends in it. -/
theorem group?_append {text : List Char} (h : Text.Closing text) (rest : List Char) :
    group? (text ++ ')' :: rest) =
      (group? text).map fun split => (split.1, split.2 ++ ')' :: rest) := by
  cases text with
  | nil => rfl
  | cons c text =>
    by_cases hopen : c = '('
    · subst hopen
      obtain ⟨d, hd⟩ := h
      obtain ⟨⟨group, behind⟩, hsplit⟩ :=
        exists_closeFrom? (Nat.le_refl 1) (by simpa using hd : depth? (d + 1) text = some 0)
      simp [group?, hsplit, closeFrom?_of_some hsplit]
    · rw [List.cons_append, group?_of_ne hopen, group?_of_ne hopen, Option.map_none]

/-! ### Marks -/

/-- A text without parentheses leaves open what is open. -/
theorem depth?_of_not_paren {text : List Char} (h : ∀ c ∈ text, c ≠ '(' ∧ c ≠ ')') (d : Nat) :
    depth? d text = some d := by
  have happend := Typed.depth?_append_of_not_paren h d []
  rwa [List.append_nil, Typed.depth?_nil] at happend

/-- A call closes the parenthesis that it opens if its argument closes all of
    its own. -/
theorem depth?_call {word argument : List Char} {d : Nat}
    (hword : ∀ c ∈ word, c ≠ '(' ∧ c ≠ ')') (hargument : depth? (d + 1) argument = some (d + 1))
    (rest : List Char) : depth? d (call word argument ++ rest) = depth? d rest := by
  have htext : call word argument ++ rest = word ++ '(' :: (argument ++ ')' :: rest) := by
    simp [call]
  rw [htext, Typed.depth?_append_of_not_paren hword, Typed.depth?_open, Typed.depth?_append,
    hargument, Option.bind_some, Typed.depth?_close_succ]

/-- Expanding a mark keeps what is open: the call closes its parenthesis, and
    there is none in its argument. -/
theorem Mark.depth?_expand {m : Mark} (hm : m = Mark.factorial ∨ m = Mark.percent)
    (before : Option Char) (d : Nat) (text : List Char) :
    depth? d (m.expand before text) = depth? d text := by
  have hword : ∀ c ∈ m.word, c ≠ '(' ∧ c ≠ ')' := by
    rcases hm with rfl | rfl <;> exact forall_mem_of_all (by decide)
  have hsign : m.sign ≠ '(' ∧ m.sign ≠ ')' := by rcases hm with rfl | rfl <;> decide
  fun_induction Mark.expand m before text generalizing d with
  | case1 before text operand rest hoperand ih =>
    obtain ⟨n, hn, hsplit⟩ := Typed.eq_of_operand? hoperand
    have hnumeral : ∀ c ∈ n.text, c ≠ '(' ∧ c ≠ ')' := fun c hc =>
      Typed.not_paren_of_isPart (Numeral.isPart_of_mem_text hn hc)
    -- The operand goes with its sign or without it; neither is a parenthesis.
    rcases hsplit with ⟨rfl, rfl⟩ | ⟨rfl, rfl, -⟩
    · rw [depth?_call hword (depth?_of_not_paren hnumeral _), ih,
        Typed.depth?_append_of_not_paren hnumeral, Typed.depth?_cons hsign]
    · have hsigned : ∀ c ∈ '-' :: n.text, c ≠ '(' ∧ c ≠ ')' :=
        List.forall_mem_cons.2 ⟨by decide, hnumeral⟩
      rw [depth?_call hword (depth?_of_not_paren hsigned _), ih, ← List.cons_append,
        Typed.depth?_append_of_not_paren hsigned, Typed.depth?_cons hsign]
  | case2 => rfl
  | case3 before c rest _ ih => simp only [depth?, ih]

theorem depth?_expandMarks (d : Nat) (text : List Char) :
    depth? d (expandMarks text) = depth? d text := by
  rw [expandMarks, Mark.calls_eq, Mark.calls_eq, Mark.depth?_expand (.inr rfl),
    Mark.depth?_expand (.inl rfl)]

end Shorthand

end Calculator
