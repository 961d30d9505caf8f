import Calculator.Numeral
import Calculator.Text.Letter

/-!
# Operands of the root sign

What a root sign reaches: the longest atom that starts right behind it. An
atom is a numeral; a group in parentheses; a name, with a group right behind
it if there is one; or another root sign with its own operand. A name is a
run of letters of any script. A group that is never closed is no atom, and
then a name before it is none either.

## Main definitions

* `closeFrom?`: A text split behind the parenthesis that closes a group.
* `rootOperand?`: The operand at the start of a text, and what follows it.
* `rootRun`: How many root signs a text starts with.

## Theorems

* `append_of_rootOperand?`: The operand is the start of the text.
* `length_lt_of_rootOperand?`: An operand is not empty.
-/

namespace Calculator

namespace Shorthand

/-- The text up to the parenthesis that brings the number of open ones down
    to zero, and the rest, given how many are open at its start. -/
def closeFrom? (depth : Nat) : List Char → Option (List Char × List Char)
  | [] => none
  | c :: rest =>
    if c = '(' then (closeFrom? (depth + 1) rest).map fun split => (c :: split.1, split.2)
    else if c = ')' then
      if depth ≤ 1 then some ([c], rest)
      else (closeFrom? (depth - 1) rest).map fun split => (c :: split.1, split.2)
    else (closeFrom? depth rest).map fun split => (c :: split.1, split.2)

/-- The group in parentheses at the start of a text, and the rest. -/
def group? : List Char → Option (List Char × List Char)
  | '(' :: rest => (closeFrom? 1 rest).map fun split => ('(' :: split.1, split.2)
  | _ => none

/-- The name at the start of a text, with the group right behind it if a
    parenthesis opens there, and the rest. -/
def named? (text : List Char) : Option (List Char × List Char) :=
  let name := text.takeWhile Text.isLetter
  let rest := text.dropWhile Text.isLetter
  -- Behind a name an opening parenthesis is never left out of the operand.
  if rest.head? = some '(' then (group? rest).map fun split => (name ++ split.1, split.2)
  else if name.isEmpty then none
  else some (name, rest)

/-- The longest operand of a root sign at the start of a text, and the rest.
    A character that shows a digit or a point asks for a numeral, whether or
    not one is there. -/
def rootOperand? : List Char → Option (List Char × List Char)
  | [] => none
  | c :: rest =>
    if c = '√' then (rootOperand? rest).map fun split => (c :: split.1, split.2)
    else if Text.isDigitSign c || c = '.' then
      (Numeral.scan? (c :: rest)).map fun split => (split.1.text, split.2)
    else named? (c :: rest)

/-- How many root signs a text starts with. -/
def rootRun (text : List Char) : Nat :=
  (text.takeWhile (· = '√')).length

theorem append_of_closeFrom? {depth : Nat} {text group rest : List Char}
    (h : closeFrom? depth text = some (group, rest)) : group ++ rest = text := by
  induction text generalizing depth group with
  | nil => simp [closeFrom?] at h
  | cons c tail ih =>
    simp only [closeFrom?] at h
    split at h
    · obtain ⟨⟨g, r⟩, hg, heq⟩ := Option.map_eq_some_iff.1 h
      obtain ⟨rfl, rfl⟩ := by simpa using heq
      simp [ih hg]
    · split at h
      · split at h
        · obtain ⟨rfl, rfl⟩ := by simpa using h
          rfl
        · obtain ⟨⟨g, r⟩, hg, heq⟩ := Option.map_eq_some_iff.1 h
          obtain ⟨rfl, rfl⟩ := by simpa using heq
          simp [ih hg]
      · obtain ⟨⟨g, r⟩, hg, heq⟩ := Option.map_eq_some_iff.1 h
        obtain ⟨rfl, rfl⟩ := by simpa using heq
        simp [ih hg]

theorem append_of_group? {text group rest : List Char}
    (h : group? text = some (group, rest)) : group ++ rest = text := by
  unfold group? at h
  split at h
  · obtain ⟨⟨g, r⟩, hg, heq⟩ := Option.map_eq_some_iff.1 h
    obtain ⟨rfl, rfl⟩ := by simpa using heq
    simp [append_of_closeFrom? hg]
  · exact absurd h (by simp)

theorem group?_ne_nil {text group rest : List Char}
    (h : group? text = some (group, rest)) : group ≠ [] := by
  unfold group? at h
  split at h
  · obtain ⟨⟨g, r⟩, -, heq⟩ := Option.map_eq_some_iff.1 h
    obtain ⟨rfl, rfl⟩ := by simpa using heq
    simp
  · exact absurd h (by simp)

theorem append_of_named? {text operand rest : List Char}
    (h : named? text = some (operand, rest)) : operand ++ rest = text := by
  have hsplit := List.takeWhile_append_dropWhile (p := Text.isLetter) (l := text)
  simp only [named?] at h
  split at h
  · obtain ⟨⟨g, r⟩, hg, heq⟩ := Option.map_eq_some_iff.1 h
    obtain ⟨rfl, rfl⟩ := by simpa using heq
    simp [append_of_group? hg]
  · split at h
    · exact absurd h (by simp)
    · obtain ⟨rfl, rfl⟩ := by simpa using h
      exact hsplit

theorem named?_ne_nil {text operand rest : List Char}
    (h : named? text = some (operand, rest)) : operand ≠ [] := by
  simp only [named?] at h
  split at h
  · obtain ⟨⟨g, r⟩, hg, heq⟩ := Option.map_eq_some_iff.1 h
    obtain ⟨rfl, rfl⟩ := by simpa using heq
    simp [group?_ne_nil hg]
  · split at h
    · exact absurd h (by simp)
    · rename_i hne
      obtain ⟨rfl, rfl⟩ := by simpa using h
      simpa using hne

theorem append_of_rootOperand? {text operand rest : List Char}
    (h : rootOperand? text = some (operand, rest)) : operand ++ rest = text := by
  induction text generalizing operand with
  | nil => simp [rootOperand?] at h
  | cons c tail ih =>
    simp only [rootOperand?] at h
    split at h
    · obtain ⟨⟨a, r⟩, ha, heq⟩ := Option.map_eq_some_iff.1 h
      obtain ⟨rfl, rfl⟩ := by simpa using heq
      simp [ih ha]
    · split at h
      · obtain ⟨⟨n, r⟩, hn, heq⟩ := Option.map_eq_some_iff.1 h
        obtain ⟨rfl, rfl⟩ := by simpa using heq
        exact Numeral.text_append_of_scan? hn
      · exact append_of_named? h

theorem rootOperand?_ne_nil {text operand rest : List Char}
    (h : rootOperand? text = some (operand, rest)) : operand ≠ [] := by
  cases text with
  | nil => simp [rootOperand?] at h
  | cons c tail =>
    simp only [rootOperand?] at h
    split at h
    · obtain ⟨⟨a, r⟩, -, heq⟩ := Option.map_eq_some_iff.1 h
      obtain ⟨rfl, rfl⟩ := by simpa using heq
      simp
    · split at h
      · obtain ⟨⟨n, r⟩, hn, heq⟩ := Option.map_eq_some_iff.1 h
        obtain ⟨rfl, rfl⟩ := by simpa using heq
        exact Numeral.text_ne_nil_of_scan? hn
      · exact named?_ne_nil h

theorem length_lt_of_rootOperand? {text operand rest : List Char}
    (h : rootOperand? text = some (operand, rest)) : rest.length < text.length := by
  have htext := congrArg List.length (append_of_rootOperand? h)
  have hpos := List.length_pos_iff.2 (rootOperand?_ne_nil h)
  rw [List.length_append] at htext
  omega

theorem length_operand_le_of_rootOperand? {text operand rest : List Char}
    (h : rootOperand? text = some (operand, rest)) : operand.length ≤ text.length := by
  have htext := congrArg List.length (append_of_rootOperand? h)
  rw [List.length_append] at htext
  omega

end Shorthand

end Calculator
