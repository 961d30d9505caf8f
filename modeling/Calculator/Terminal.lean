import Calculator.Session

/-!
# The terminal

A terminal reads lines and answers each with lines. A blank line has no
answer. A line that starts with a colon is a command: it chooses the angle
mode, lists the history, or ends the dialogue; commands that are not known are
answered with help. Every other line is a formula and is answered with its
value on display, or with one word for any failure that was foreseen. One that
was not breaks the dialogue off.

## Main definitions

* `Terminal.lines`: The lines of a text.
* `Terminal.Command`: The commands.
* `Terminal.display`: The answer to a formula.
* `Terminal.respond`: What comes of a line.
* `Terminal.run`: What comes of all lines.
-/

namespace Calculator

namespace Terminal

/-- The lines of a text; a line ends before a line feed or at the end. -/
def lines : List Char → List (List Char)
  | [] => [[]]
  | c :: rest =>
    if c = '\n' then [] :: lines rest
    else match lines rest with
      | line :: more => (c :: line) :: more
      | [] => [[c]]

/-- What a line that starts with a colon asks for. -/
inductive Command
  /-- End the dialogue. -/
  | quit
  /-- Choose a mode. -/
  | choose (mode : AngleMode)
  /-- List the history. -/
  | history
  /-- Anything else. -/
  | help
deriving DecidableEq, Repr

/-- The command of a line, given what stands behind the colon. Blanks around
    it and the case of letters do not matter. -/
def Command.ofText (text : List Char) : Command :=
  let word := String.ofList ((Text.trim text).map Char.toLower)
  if word = "q" || word = "quit" then .quit
  else match AngleMode.ofName? word with
    | some mode => .choose mode
    | none => if word = "hist" then .history else .help

/-- The answer to a command that is not known. -/
def help : String :=
  ":deg / :rad cambian el modo angular, :hist muestra el historial, :q sale"

/-- The answer to a formula without a value. -/
def failed : String :=
  "Error"

/-- A value on display; one that cannot be displayed shows as nothing. -/
def shown (value : Binary64) : List Char :=
  match value.display with
  | .ok text => text
  | .error _ => []

/-- The answer to a formula, and the session after it. A failure that was not
    foreseen has no answer. -/
def display (s : Session) (typed : List Char) : Except Failure (List Char) × Session :=
  match s.evaluate typed with
  | (.ok value, next) => (.ok (shown value), next)
  | (.error failure, next) =>
    (if failure.kind = .unforeseen then .error failure else .ok failed.toList, next)

/-- The line that confirms a mode. -/
def modeLine (mode : AngleMode) : List Char :=
  "Modo: ".toList ++ mode.name.toList.map Char.toUpper

/-- The line of the history for an evaluation. -/
def historyLine (entry : List Char × Binary64) : List Char :=
  entry.1 ++ " = ".toList ++ shown entry.2

/-- What comes of a line. -/
inductive Response
  /-- It is answered, and the dialogue goes on. -/
  | answered (lines : List (List Char)) (next : Session)
  /-- It ends the dialogue. -/
  | ended
  /-- A failure breaks the dialogue off. -/
  | brokenOff (failure : Failure)
deriving DecidableEq, Repr

/-- What comes of a command. -/
def obey (s : Session) : Command → Response
  | .quit => .ended
  | .choose mode => .answered [modeLine mode] { s with mode := mode }
  | .history => .answered (s.history.map historyLine) s
  | .help => .answered [help.toList] s

/-- What comes of a line in a session. -/
def respond (s : Session) (line : List Char) : Response :=
  match Text.trim line with
  | [] => .answered [] s
  | ':' :: rest => obey s (Command.ofText rest)
  -- The history keeps the line without the blanks around it.
  | typed =>
    match display s typed with
    | (.ok answer, next) => .answered [answer] next
    | (.error failure, _) => .brokenOff failure

/-- A dialogue from its first line to its last. -/
structure Dialogue where
  /-- The answers to all lines. -/
  printed : List (List Char)
  /-- The session at the end. -/
  session : Session
  /-- What broke the dialogue off, if it was broken off. -/
  failure? : Option Failure
deriving DecidableEq, Repr

/-- The dialogue that lines make in a session. -/
def run (s : Session) : List (List Char) → Dialogue
  | [] => ⟨[], s, none⟩
  | line :: rest =>
    match respond s line with
    | .ended => ⟨[], s, none⟩
    | .brokenOff failure => ⟨[], s, some failure⟩
    | .answered answers next =>
      let further := run next rest
      { further with printed := answers ++ further.printed }

/-- A text of lines, each ended by a line feed. -/
def page (lines : List (List Char)) : List Char :=
  lines.flatMap fun line => line ++ ['\n']

end Terminal

end Calculator
