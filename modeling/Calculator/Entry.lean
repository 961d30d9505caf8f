import Calculator.Binary64.Reading
import Calculator.Failure

/-!
# Entered values

A value for the memory may be handed over in several shapes. Numbers, integers
of any size, texts and truth values have a double; other things have none, and
which of them it was decides the message.

## Main definitions

* `Entry`: What may be handed over.
* `Entry.toBinary64`: The double of an entry.
* `EntryError`: Why an entry has no double.
* `classify`: An entry as the final value of an evaluation.
-/

namespace Calculator

/-- What may be handed over as a number. -/
inductive Entry
  /-- A double. -/
  | number (value : Binary64)
  /-- An integer. -/
  | integer (value : Int)
  /-- A text, which may denote a number. -/
  | text (characters : List Char)
  /-- A truth value, which counts as zero or one. -/
  | truth (value : Bool)
  /-- Nothing. -/
  | absent
  /-- A list of things. -/
  | list
deriving DecidableEq, Repr

/-- Why an entry has no double. -/
inductive EntryError
  /-- The text denotes no number. -/
  | unreadable (text : List Char)
  /-- The integer is beyond the doubles. -/
  | tooLarge
  /-- It is nothing. -/
  | absent
  /-- It is a list. -/
  | list
deriving DecidableEq, Repr

namespace EntryError

/-- The message for an entry without a double. -/
def message : EntryError → String
  | unreadable text =>
    "could not convert string to float: " ++ String.ofList (Text.quote text)
  | tooLarge => "int too large to convert to float"
  | absent => "float() argument must be a string or a real number, not 'NoneType'"
  | list => "float() argument must be a string or a real number, not 'list'"

end EntryError

namespace Entry

/-- The double nearest to an entry. -/
def toBinary64 : Entry → Except EntryError Binary64
  | number value => .ok value
  | integer value =>
    if (Binary64.ofInt value).isFinite then .ok (Binary64.ofInt value) else .error .tooLarge
  | text characters =>
    match Binary64.read? characters with
    | some value => .ok value
    | none => .error (.unreadable characters)
  | truth value => .ok (Binary64.ofInt (if value then 1 else 0))
  | absent => .error .absent
  | list => .error .list

end Entry

/-- An entry as the final value of an evaluation: a finite double, or a
    numeric failure. -/
def classify (entry : Entry) : Except Failure Binary64 :=
  match entry.toBinary64 with
  | .ok value => if value.isFinite then .ok value else .error .notFinite
  | .error _ => .error .notNumeric

end Calculator
