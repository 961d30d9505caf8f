import Calculator.Binary64.Display
import Calculator.Entry
import Calculator.Formula

/-!
# Sessions

What a calculator remembers between one formula and the next: the angle mode,
the last answer, a memory, and the latest successful evaluations. Evaluation
itself remembers nothing; it is given the mode.

An action that fails leaves the session as it was. A successful evaluation
becomes the last answer and the newest entry of the history, and the oldest
entry goes when there are too many.

## Main definitions

* `Session`: The state of a session.
* `Session.start`: A new session.
* `Action`: What can be done in a session.
* `Session.perform`: What an action answers, and the session after it.
-/

namespace Calculator

/-- The state of a session. -/
structure Session where
  /-- The arithmetic of the session. -/
  backend : Backend
  /-- How many evaluations the history holds at most. -/
  historyLimit : Nat
  /-- How angles are measured. -/
  mode : AngleMode
  /-- The value of the latest successful evaluation. -/
  lastAnswer : Binary64
  /-- The number in memory. -/
  memory : Binary64
  /-- Successful evaluations as typed, with their values, newest first. -/
  history : List (List Char × Binary64)
deriving DecidableEq, Repr

/-- Why an action has no answer. -/
inductive SessionError
  /-- A formula has no value. -/
  | failure (cause : Failure)
  /-- There is no mode of that name. -/
  | mode
  /-- An entry has no double. -/
  | entry (cause : EntryError)
  /-- A number cannot be displayed. -/
  | display (cause : DisplayError)
deriving DecidableEq, Repr

/-- What an action answers. -/
inductive Answer
  /-- A text. -/
  | text (text : List Char)
  /-- A number. -/
  | number (value : Binary64)
  /-- Nothing. -/
  | nothing
deriving DecidableEq, Repr

/-- What can be done in a session. -/
inductive Action
  /-- Evaluate what was typed, for display. -/
  | evaluate (typed : List Char)
  /-- Evaluate what was typed, for its value. -/
  | evaluateValue (typed : List Char)
  /-- Evaluate the last answer with something typed before and behind it. -/
  | evaluateAround (before after : List Char)
  /-- Choose a mode by its name; things that are no text have no name. -/
  | setMode (name? : Option String)
  /-- Switch to the other mode. -/
  | toggleMode
  /-- Write the last answer as a literal. -/
  | answerText
  /-- Display the last answer. -/
  | displayAnswer
  /-- Display the memory. -/
  | displayMemory
  /-- Add an entry, or else the last answer, to the memory. -/
  | addToMemory (entry : Entry)
  /-- Subtract an entry, or else the last answer, from the memory. -/
  | subtractFromMemory (entry : Entry)
  /-- Recall the memory. -/
  | recallMemory
  /-- Reset the memory to zero. -/
  | clearMemory
  /-- Forget the history. -/
  | clearHistory
deriving DecidableEq, Repr

namespace Session

/-- The length of a history unless another one is chosen. -/
def defaultHistoryLimit : Int := 10

/-- A new session. The history holds at least one evaluation. -/
def start (backend : Backend) (historyLimit : Int) : Session where
  backend := backend
  historyLimit := (max 1 historyLimit).toNat
  mode := .radians
  lastAnswer := Binary64.zero false
  memory := Binary64.zero false
  history := []

/-- The value of what was typed, in the mode of the session. -/
def value (s : Session) (typed : List Char) : Except Failure Binary64 :=
  s.backend.evaluate s.mode typed

/-- The session after a successful evaluation. -/
def record (s : Session) (typed : List Char) (value : Binary64) : Session :=
  { s with lastAnswer := value, history := ((typed, value) :: s.history).take s.historyLimit }

/-- Evaluate what was typed and record a success. -/
def evaluate (s : Session) (typed : List Char) : Except Failure Binary64 × Session :=
  match s.value typed with
  | .ok value => (.ok value, s.record typed value)
  | .error failure => (.error failure, s)

/-- A number on display. -/
def displayed (value : Binary64) : Except SessionError Answer :=
  match value.display with
  | .ok text => .ok (.text text)
  | .error cause => .error (.display cause)

/-- What an evaluation answers for display, and the session after it. -/
def evaluateForDisplay (s : Session) (typed : List Char) : Except SessionError Answer × Session :=
  match s.evaluate typed with
  | (.ok value, next) => (displayed value, next)
  | (.error failure, next) => (.error (.failure failure), next)

/-- What an evaluation answers for its value, and the session after it. -/
def evaluateForValue (s : Session) (typed : List Char) : Except SessionError Answer × Session :=
  match s.evaluate typed with
  | (.ok value, next) => (.ok (.number value), next)
  | (.error failure, next) => (.error (.failure failure), next)

/-- The last answer as a literal. -/
def answerText (s : Session) : Except Failure (List Char) :=
  Formula.literal s.lastAnswer

/-- The number that an entry stands for in a session: itself, or the last
    answer if nothing was entered. -/
def entered (s : Session) : Entry → Except EntryError Binary64
  | .absent => .ok s.lastAnswer
  | entry => entry.toBinary64

/-- The session after the memory has been combined with an entry. -/
def updateMemory (s : Session) (combine : Binary64 → Binary64 → Binary64) (entry : Entry) :
    Except SessionError Answer × Session :=
  match s.entered entry with
  | .ok value => (.ok .nothing, { s with memory := combine s.memory value })
  | .error cause => (.error (.entry cause), s)

/-- The session in another mode, with the name of that mode. -/
def switchTo (s : Session) (mode : AngleMode) : Except SessionError Answer × Session :=
  (.ok (.text mode.name.toList), { s with mode := mode })

/-- What an action answers, and the session after it. -/
def perform (s : Session) : Action → Except SessionError Answer × Session
  | .evaluate typed => s.evaluateForDisplay typed
  | .evaluateValue typed => s.evaluateForValue typed
  | .evaluateAround before after =>
    -- The literal is put in as text and read together with its surroundings.
    match s.answerText with
    | .ok text => s.evaluateForDisplay (before ++ text ++ after)
    | .error failure => (.error (.failure failure), s)
  | .setMode name? =>
    match name?.bind AngleMode.ofName? with
    | some mode => s.switchTo mode
    | none => (.error .mode, s)
  | .toggleMode => s.switchTo s.mode.other
  | .answerText =>
    match s.answerText with
    | .ok text => (.ok (.text text), s)
    | .error failure => (.error (.failure failure), s)
  | .displayAnswer => (displayed s.lastAnswer, s)
  | .displayMemory => (displayed s.memory, s)
  | .addToMemory entry => s.updateMemory (· + ·) entry
  | .subtractFromMemory entry => s.updateMemory (· - ·) entry
  | .recallMemory => (.ok (.number s.memory), s)
  | .clearMemory => (.ok .nothing, { s with memory := Binary64.zero false })
  | .clearHistory => (.ok .nothing, { s with history := [] })

end Session

end Calculator
