import Calculator.LogLevel
import Calculator.Terminal

/-!
# The command line

The calculator is started with options and formulas. Options may be shortened
as long as they stay unambiguous, and their values stand behind an equals sign
or in the next word. A word that starts with a hyphen is a formula only if it
is the hyphen alone, a plain negative number, or contains a space; two hyphens
alone make formulas of all words behind them.

All formulas have to stand together: a formula behind an option that itself
stands behind a formula is refused, and so is any other word without a meaning.

With formulas, each is answered on a line of its own, and the exit code tells
whether all of them had values. Without formulas the terminal reads its input.
A failure that was not foreseen ends both, after what has been printed.

## Main definitions

* `CommandLine.Switch`: The options.
* `CommandLine.Word`: What a word of the command line is.
* `CommandLine.Settings`: What a command line asks for.
* `CommandLine.Progress`: The state of reading a command line.
* `CommandLine.settings`: The settings of a command line.
* `CommandLine.Refusal`: Why settings are refused.
* `CommandLine.Interruption`: Why a command line is not carried out to its end.
* `CommandLine.run`: The exit code and the output.
-/

namespace Calculator

namespace CommandLine

/-- The digits of extended precision unless others are chosen. -/
def defaultDigits : Int := 40

/-- The name of the level of the log unless another is chosen. -/
def defaultLogLevel : List Char := "WARNING".toList

/-- The options. -/
inductive Switch
  | help
  | degrees
  | extended
  | digits
  | logLevel
deriving DecidableEq, Repr

namespace Switch

/-- The name of an option, with its hyphens. -/
def name : Switch → List Char
  | help => "--help".toList
  | degrees => "--deg".toList
  | extended => "--extended".toList
  | digits => "--digits".toList
  | logLevel => "--log-level".toList

/-- All options. -/
def all : List Switch :=
  [help, degrees, extended, digits, logLevel]

/-- Whether an option has a value. -/
def takesValue : Switch → Bool
  | digits | logLevel => true
  | _ => false

/-- The options that a word may name. A word that is the full name of an
    option names only that one; any other word names the options that begin
    with it, of which there may be none or several. -/
def candidates (word : List Char) : List Switch :=
  match all.filter fun s => s.name = word with
  | [] => all.filter fun s => word.isPrefixOf s.name
  | exact => exact

end Switch

/-- What a word of the command line is. -/
inductive Word
  /-- A formula, or the value of an option. -/
  | operand (text : List Char)
  /-- The two hyphens. -/
  | separator
  /-- An option, possibly with a value behind an equals sign. -/
  | switch (switch : Switch) (value? : Option (List Char))
  /-- A word without a meaning. -/
  | unknown
deriving DecidableEq, Repr

/-- Whether a text is a hyphen followed by digits, or by a point with digits
    behind it and possibly before it. A line feed at the end is overlooked. -/
def isNegativeNumber (text : List Char) : Bool :=
  match if text.getLast? = some '\n' then text.dropLast else text with
  | '-' :: rest =>
    match Numeral.scan? rest with
    -- Unlike in a formula, a point needs digits behind it.
    | some (numeral, []) => numeral.fraction != some []
    | _ => false
  | _ => false

/-- What a word is that does not name an option. -/
def plainWord (text : List Char) : Word :=
  if isNegativeNumber text || text.contains ' ' then .operand text else .unknown

/-- What a word with two hyphens in front is. -/
def longWord (text : List Char) : Word :=
  let name := text.takeWhile (· ≠ '=')
  let value? := match text.dropWhile (· ≠ '=') with
    | [] => none
    | _ :: value => some value
  match Switch.candidates name with
  | [switch] => .switch switch value?
  | [] => plainWord text
  -- An ambiguous word is refused even where it contains a space.
  | _ => .unknown

/-- What a word is, before any separator. -/
def word (text : List Char) : Word :=
  match text with
  | ['-', '-'] => .separator
  | '-' :: '-' :: _ => longWord text
  -- The short form of help has no value, but may be repeated in one word.
  | '-' :: 'h' :: rest => if rest.all (· = 'h') then .switch .help none else .unknown
  | '-' :: _ :: _ => plainWord text
  | _ => .operand text

/-- What the words of a command line are. Behind a separator all of them are
    operands. -/
def words : List (List Char) → List Word
  | [] => []
  | text :: rest =>
    match word text with
    | .separator => .separator :: rest.map .operand
    | first => first :: words rest

/-- What a command line asks for. -/
structure Settings where
  /-- Measure angles in degrees. -/
  degrees : Bool
  /-- Calculate with extended precision. -/
  extended : Bool
  /-- The digits of extended precision. -/
  digits : Int
  /-- The name of the level of the log. -/
  logLevel : List Char
  /-- The formulas. -/
  formulas : List (List Char)
deriving DecidableEq, Repr

/-- Why a command line is not carried out. -/
inductive Stop
  /-- It asks for help. -/
  | help
  /-- It is refused. -/
  | refused
deriving DecidableEq, Repr

/-- Where the formulas of a command line are. -/
inductive Place
  /-- Not yet seen. -/
  | before
  /-- Just being read. -/
  | within
  /-- Read. -/
  | behind
deriving DecidableEq, Repr

/-- The state of reading a command line. -/
structure Progress where
  /-- What has been asked for. -/
  settings : Settings
  /-- Where the formulas are. -/
  place : Place
  /-- An option that waits for its value. -/
  pending : Option Switch
deriving DecidableEq, Repr

namespace Progress

/-- Nothing read yet. -/
def start : Progress :=
  ⟨⟨false, false, defaultDigits, defaultLogLevel, []⟩, .before, none⟩

/-- The state after an option without a value. -/
def turnOn (p : Progress) : Switch → Except Stop Progress
  | .help => .error .help
  | .degrees => .ok { p with settings := { p.settings with degrees := true } }
  | .extended => .ok { p with settings := { p.settings with extended := true } }
  | .digits | .logLevel => .error .refused

/-- The state after the value of an option. What the name of a log level means
    is seen when the command line is carried out. -/
def assign (p : Progress) (switch : Switch) (value : List Char) : Except Stop Progress :=
  match switch with
  | .digits =>
    match Text.integer? value with
    | some digits =>
      .ok { p with settings := { p.settings with digits := digits }, pending := none }
    | none => .error .refused
  | .logLevel =>
    .ok { p with settings := { p.settings with logLevel := value }, pending := none }
  | _ => .error .refused

/-- The state behind the formulas, if it was within them. -/
def leave (p : Progress) : Progress :=
  { p with place := if p.place = .within then .behind else p.place }

/-- The state after one more word. -/
def next (p : Progress) (word : Word) : Except Stop Progress :=
  match p.pending, word with
  | some switch, .operand value => p.assign switch value
  -- Only an operand can be the value that an option waits for.
  | some _, _ => .error .refused
  | none, .operand text =>
    -- Formulas that were interrupted by an option are not taken up again.
    if p.place = .behind then .error .refused
    else .ok { p with
      place := .within
      settings := { p.settings with formulas := p.settings.formulas ++ [text] } }
  | none, .separator =>
    if p.place = .behind then .error .refused else .ok { p with place := .within }
  | none, .switch switch none =>
    if switch.takesValue then .ok { p.leave with pending := some switch }
    else p.leave.turnOn switch
  | none, .switch switch (some value) => p.leave.assign switch value
  | none, .unknown => .error .refused

end Progress

/-- The settings of a command line. -/
def settings (arguments : List (List Char)) : Except Stop Settings := do
  let progress ← (words arguments).foldlM Progress.next Progress.start
  if progress.pending.isNone then .ok progress.settings else .error .refused

/-- The answers to formulas in order, up to one that is broken off by a
    failure, and that failure. -/
def answers (s : Session) : List (List Char) → List (List Char) × Option Failure
  | [] => ([], none)
  | typed :: rest =>
    match Terminal.display s typed with
    | (.ok answer, next) =>
      let (more, failure?) := answers next rest
      (answer :: more, failure?)
    | (.error failure, _) => ([], some failure)

/-- A new session on an arithmetic, in degrees or in radians. -/
def session (backend : Backend) (degrees : Bool) : Session :=
  { Session.start backend Session.defaultHistoryLimit with
    mode := if degrees then .degrees else .radians }

/-- Why settings are refused. -/
inductive Refusal
  /-- The name of the log level is that of another setting. -/
  | logLevel (setting : LogSetting)
  /-- The digits are out of range. -/
  | digits (refusal : Precision.Refusal)
deriving DecidableEq, Repr

/-- The message for settings that are refused. -/
def Refusal.message : Refusal → String
  | .logLevel setting => setting.refusal
  | .digits refusal => refusal.message

/-- The arithmetic that settings ask for. The level of the log is looked at
    before the digits, so that its refusal is the one reported. -/
def backend (settings : Settings) : Except Refusal Backend :=
  match LogSetting.ofName? settings.logLevel with
  | some setting => .error (.logLevel setting)
  | none => (Backend.choose settings.extended settings.digits).mapError .digits

/-- Why a command line is not carried out to its end. -/
inductive Interruption
  /-- Its settings are refused. -/
  | refused (refusal : Refusal)
  /-- A failure breaks it off after some output. -/
  | brokenOff (output : List Char) (failure : Failure)
deriving DecidableEq, Repr

/-- The message for a command line that is not carried out to its end. -/
def Interruption.message : Interruption → String
  | refused refusal => refusal.message
  | brokenOff _ failure => failure.message

/-- The exit code and the output of lines, unless a failure broke them off. -/
def finish (code : Nat) (lines : List (List Char)) (failure? : Option Failure) :
    Except Interruption (Nat × List Char) :=
  match failure? with
  | none => .ok (code, Terminal.page lines)
  | some failure => .error (.brokenOff (Terminal.page lines) failure)

/-- The exit code and the output of a calculator with settings, given the text
    that its terminal reads. -/
def carryOut (settings : Settings) (input : List Char) :
    Except Interruption (Nat × List Char) := do
  let s := session (← (backend settings).mapError .refused) settings.degrees
  if settings.formulas.isEmpty then
    let dialogue := Terminal.run s (Terminal.lines input)
    finish 0 dialogue.printed dialogue.failure?
  else
    let (lines, failure?) := answers s settings.formulas
    -- The answer to a formula that failed is the word for failures.
    finish (if lines.contains Terminal.failed.toList then 1 else 0) lines failure?

/-- The exit code and the output for a command line. A command line that is
    not understood has the code two. -/
def run (arguments : List (List Char)) (input : List Char) :
    Except Interruption (Nat × List Char) :=
  match settings arguments with
  | .ok settings => carryOut settings input
  | .error .help => .ok (0, [])
  | .error .refused => .ok (2, [])

end CommandLine

end Calculator
