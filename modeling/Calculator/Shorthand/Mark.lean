import Calculator.Numeral

/-!
# Marks behind numerals

Two marks may stand directly behind a numeral and mean a call with that
numeral as its argument: `5!` is `fact(5)` and `50%` is `pct(50)`. Behind
anything else a mark is left where it is.

The factorial takes a minus sign in front of its numeral along, if the sign
is in unary position, that is at the start of the text or behind an opening
parenthesis, a comma or the sign of an operation: `-1!` is `fact(-1)`, while
the minus in `3-1!` is a subtraction. The percent never does.

The text is read from left to right, and at every place the longest numeral
is tried. So in `1.5.!` the numeral `1.5` has no mark behind it, nor has
`.5`, and it is `5.` that carries the mark.

## Main definitions

* `Mark`: A mark, the word it stands for, and whether it takes a sign along.
* `Mark.operand?`: The operand of a mark at the start of a text.
* `Mark.expand`: A text with all operands of a mark written as calls.
* `Mark.calls`: The same, for a text as a whole.

## Theorems

* `Mark.length_lt_of_operand?`: A marked operand consumes something.
* `Mark.expand_of_not_mem`: A text without the mark stays as it is.
* `Mark.calls_eq`: The two ways to write the calls agree.
-/

namespace Calculator

namespace Shorthand

/-- A mark behind a numeral. -/
structure Mark where
  /-- The character of the mark. -/
  sign : Char
  /-- The word that is called instead. -/
  word : List Char
  /-- Whether a unary minus before the numeral belongs to the operand. -/
  takesMinus : Bool
deriving DecidableEq, Repr

/-- The factorial mark. -/
def Mark.factorial : Mark :=
  ⟨'!', ['f', 'a', 'c', 't'], true⟩

/-- The percent mark. -/
def Mark.percent : Mark :=
  ⟨'%', ['p', 'c', 't'], false⟩

/-- Whether a minus sign is unary, given the character before it, if there is
    one. -/
def isUnaryPlace (before : Option Char) : Bool :=
  before.all fun c => ['(', '+', '-', '*', '/', '^', ','].contains c

/-- A call of a word, as text. -/
def call (word argument : List Char) : List Char :=
  word ++ '(' :: (argument ++ [')'])

namespace Mark

/-- The numeral at the start of a text, as written, if the mark stands right
    behind it, and the text behind the mark. -/
def marked? (m : Mark) (text : List Char) : Option (List Char × List Char) :=
  match Numeral.scan? text with
  | some (numeral, c :: rest) => if c = m.sign then some (numeral.text, rest) else none
  | _ => none

/-- The operand of the mark at the start of a text, as written, and the text
    behind the mark; `before` is the character before the text. -/
def operand? (m : Mark) (before : Option Char) (text : List Char) :
    Option (List Char × List Char) :=
  match text with
  | '-' :: rest =>
    -- Where the minus cannot come along, the numeral is tried on its own next.
    if m.takesMinus && isUnaryPlace before then
      (m.marked? rest).map fun split => ('-' :: split.1, split.2)
    else none
  | text => m.marked? text

theorem length_lt_of_marked? {m : Mark} {text operand rest : List Char}
    (h : m.marked? text = some (operand, rest)) : rest.length < text.length := by
  unfold marked? at h
  split at h
  · rename_i numeral c tail hscan
    split at h
    · obtain ⟨rfl, rfl⟩ := by simpa using h
      have := Numeral.length_lt_of_scan? hscan
      simp only [List.length_cons] at this
      omega
    · exact absurd h (by simp)
  · exact absurd h (by simp)

theorem length_lt_of_operand? {m : Mark} {before : Option Char}
    {text operand rest : List Char} (h : m.operand? before text = some (operand, rest)) :
    rest.length < text.length := by
  unfold operand? at h
  split at h
  · split at h
    · simp only [Option.map_eq_some_iff] at h
      obtain ⟨⟨tail, after⟩, hm, heq⟩ := h
      obtain ⟨-, rfl⟩ := by simpa using heq
      exact Nat.lt_succ_of_lt (length_lt_of_marked? hm)
    · exact absurd h (by simp)
  · exact length_lt_of_marked? h

/-- A text with every operand of the mark written as a call; `before` is the
    character before the text. -/
def expand (m : Mark) (before : Option Char) (text : List Char) : List Char :=
  match _h : m.operand? before text with
  | some (operand, rest) => call m.word operand ++ m.expand (some m.sign) rest
  | none =>
    match text with
    | [] => []
    | c :: rest => c :: m.expand (some c) rest
termination_by text.length
decreasing_by
  · exact length_lt_of_operand? _h
  · simp

theorem mem_of_marked? {m : Mark} {text operand rest : List Char}
    (h : m.marked? text = some (operand, rest)) : m.sign ∈ text := by
  unfold marked? at h
  split at h
  · rename_i numeral c tail hscan
    split at h
    · rename_i same
      rw [← Numeral.text_append_of_scan? hscan, ← same]
      simp
    · exact absurd h (by simp)
  · exact absurd h (by simp)

theorem mem_of_operand? {m : Mark} {before : Option Char} {text operand rest : List Char}
    (h : m.operand? before text = some (operand, rest)) : m.sign ∈ text := by
  unfold operand? at h
  split at h
  · split at h
    · obtain ⟨split, marked, -⟩ := Option.map_eq_some_iff.1 h
      exact List.mem_cons_of_mem _ (mem_of_marked? marked)
    · exact absurd h (by simp)
  · exact mem_of_marked? h

theorem expand_of_not_mem (m : Mark) (before : Option Char) (text : List Char)
    (h : m.sign ∉ text) : m.expand before text = text := by
  induction text generalizing before with
  | nil =>
    rw [expand]
    split
    · exact absurd (mem_of_operand? ‹_›) h
    · rfl
  | cons c rest ih =>
    rw [expand]
    split
    · exact absurd (mem_of_operand? ‹_›) h
    · exact congrArg (c :: ·) (ih (some c) fun inside => h (List.mem_cons_of_mem c inside))

/-- A text with every operand of the mark written as a call. A text without
    the mark is not searched for numerals, which may be long. -/
def calls (m : Mark) (text : List Char) : List Char :=
  if m.sign ∈ text then m.expand none text else text

theorem calls_eq (m : Mark) (text : List Char) : m.calls text = m.expand none text := by
  unfold calls
  split
  · rfl
  · exact (m.expand_of_not_mem none text ‹_›).symm

end Mark

end Shorthand

end Calculator
