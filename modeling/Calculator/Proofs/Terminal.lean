import Calculator.Proofs.Answers
import Calculator.Proofs.Precision.Edge
import Calculator.Proofs.Unforeseen
import Mathlib.Data.List.TakeWhile

/-!
# Dialogues

What a terminal prints is a function of what it has been told. A formula is
answered as by a new calculator of the same arithmetic in the mode that was
chosen last, so no answer depends on an earlier formula. The history lists the
latest formulas that had values, with the answers that were given. Nothing is
heard from the line that ends the dialogue on. A formula whose evaluation is
broken off, for a numeral that is too long to be read, has no answer, and the
dialogue is broken off with it.

A session along a dialogue is described by the lines answered so far, the
latest one first. One line takes a session that is described by the lines
before it to one that is described with it, and prints what should be printed,
or it breaks the dialogue off.

Formulas on a command line are not lines of a dialogue, and they keep the
blanks around them, but they have the answers that they have in a dialogue.

## Main definitions

* `Terminal.Line`, `Terminal.commands`: What a line is, and the words of the
  commands.
* `Terminal.modeAfter`, `Terminal.successes`: The mode and the answered
  formulas of a dialogue.
* `Terminal.printed`: What is printed for a line of a dialogue.
* `Terminal.heard`, `Terminal.transcript`: What a dialogue prints, and what
  breaks it off.
* `Terminal.Follows`: A session along a dialogue.

## Theorems

* `Terminal.Command.line_ofText`: The words of the commands are understood.
* `Terminal.respond_of_follows`, `Terminal.run_of_follows`: One line and all
  lines.
* `CommandLine.answers_eq_run`: The answers to formulas on a command line.
* `Terminal.dialogue`: What is printed, in a dialogue and for a command line.
-/

namespace Calculator

namespace Terminal

/-! ### What should be printed -/

/-- What a line asks for. -/
inductive Line
  /-- Nothing, since it has nothing but blanks. -/
  | blank
  /-- An angle mode. -/
  | choose (mode : AngleMode)
  /-- The history. -/
  | history
  /-- The end of the dialogue. -/
  | quit
  /-- Something that no command is known for. -/
  | unknown
  /-- The value of a formula, which is given without the blanks around it. -/
  | formula (typed : List Char)
deriving DecidableEq, Repr

/-- The words of the commands, and what they ask for. -/
def commands : List (String × Line) :=
  [("deg", .choose .degrees), ("rad", .choose .radians), ("hist", .history), ("q", .quit),
    ("quit", .quit)]

/-- What a line asks for. Behind a colon stands the word of a command, which may
    have blanks around it and letters of any case. -/
def Line.ofText (text : List Char) : Line :=
  match Text.trim text with
  | [] => blank
  | ':' :: rest =>
    (commands.lookup (String.ofList ((Text.trim rest).map Char.toLower))).getD unknown
  | typed => formula typed

/-- The mode after some lines, the latest one first: the one chosen last, or
    else the one at the start. -/
def modeAfter (start : AngleMode) : List (List Char) → AngleMode
  | [] => start
  | line :: earlier =>
    match Line.ofText line with
    | .choose mode => mode
    | _ => modeAfter start earlier

/-- The formulas among some lines that had values, without the blanks around
    them, each with its answer. The latest one is first, as among the lines. -/
def successes (backend : Backend) (start : AngleMode) :
    List (List Char) → List (List Char × List Char)
  | [] => []
  | line :: earlier =>
    match Line.ofText line, backend.evaluate (modeAfter start earlier) line,
        freshAnswer backend (modeAfter start earlier) line with
    | .formula typed, .ok _, .ok answer => (typed, answer) :: successes backend start earlier
    | _, _, _ => successes backend start earlier

/-- How many formulas are listed. -/
def listed : Nat := 10

/-- What is printed for a line behind others, the latest one of which is first,
    unless it breaks the dialogue off. -/
def printed (backend : Backend) (start : AngleMode) (earlier : List (List Char))
    (line : List Char) : Except Failure (List (List Char)) :=
  match Line.ofText line with
  | .blank | .quit => .ok []
  | .choose .degrees => .ok ["Modo: DEG".toList]
  | .choose .radians => .ok ["Modo: RAD".toList]
  | .history =>
    .ok (((successes backend start earlier).take listed).map fun success =>
      success.1 ++ " = ".toList ++ success.2)
  | .unknown =>
    .ok [":deg / :rad cambian el modo angular, :hist muestra el historial, :q sale".toList]
  | .formula _ => (freshAnswer backend (modeAfter start earlier) line).map fun answer => [answer]

/-- The lines before the one that ends the dialogue. -/
def heard (lines : List (List Char)) : List (List Char) :=
  lines.takeWhile fun line => Line.ofText line ≠ .quit

/-- What lines make of a dialogue. -/
structure Transcript where
  /-- What is printed. -/
  printed : List (List Char)
  /-- The lines that were answered, the latest one first. -/
  answered : List (List Char)
  /-- What broke the dialogue off, if it was broken off. -/
  failure? : Option Failure

/-- What lines make of a dialogue that follow others. -/
def transcript (backend : Backend) (start : AngleMode) (earlier : List (List Char)) :
    List (List Char) → Transcript
  | [] => ⟨[], earlier, none⟩
  | line :: rest =>
    match Terminal.printed backend start earlier line with
    | .error failure => ⟨[], earlier, some failure⟩
    | .ok answers =>
      let further := transcript backend start (line :: earlier) rest
      { further with printed := answers ++ further.printed }

/-! ### Commands -/

/-- What a command asks for. -/
def Command.line : Command → Line
  | quit => .quit
  | choose mode => .choose mode
  | history => .history
  | help => .unknown

/-- The words behind a colon are the words of the commands. -/
theorem Command.line_ofText (rest : List Char) :
    (Command.ofText rest).line =
      (commands.lookup (String.ofList ((Text.trim rest).map Char.toLower))).getD .unknown := by
  unfold Command.ofText
  generalize String.ofList ((Text.trim rest).map Char.toLower) = word
  by_cases hdeg : word = "deg"
  · subst hdeg
    rfl
  by_cases hrad : word = "rad"
  · subst hrad
    rfl
  by_cases hhist : word = "hist"
  · subst hhist
    rfl
  by_cases hq : word = "q"
  · subst hq
    rfl
  by_cases hquit : word = "quit"
  · subst hquit
    rfl
  have hlookup : commands.lookup word = none := by
    simp [commands, List.lookup_cons, beq_false_of_ne, hdeg, hrad, hhist, hq, hquit]
  simp [hlookup, AngleMode.ofName?, hdeg, hrad, hhist, hq, hquit, Command.line]

theorem Command.line_ne_formula (command : Command) (typed : List Char) :
    command.line ≠ .formula typed := by
  cases command <;> exact nofun

/-- What comes of a line is decided by what it asks for. -/
theorem respond_eq (s : Session) (line : List Char) :
    respond s line = match Line.ofText line with
      | .blank => .answered [] s
      | .choose mode => .answered [modeLine mode] { s with mode := mode }
      | .history => .answered (s.history.map historyLine) s
      | .quit => .ended
      | .unknown => .answered [help.toList] s
      | .formula typed =>
        match display s typed with
        | (.ok answer, next) => .answered [answer] next
        | (.error failure, _) => .brokenOff failure := by
  rw [respond, Line.ofText]
  generalize Text.trim line = text
  cases text with
  | nil => rfl
  | cons c rest =>
    by_cases hc : c = ':'
    · subst hc
      simp only [← Command.line_ofText]
      cases Command.ofText rest <;> rfl
    · cases hresult : display s (c :: rest) with
      | mk result next => cases result <;> simp [hc, hresult]

/-! ### One line and all lines -/

/-- A session along a dialogue, after some lines. -/
structure Follows (backend : Backend) (start : AngleMode) (earlier : List (List Char))
    (s : Session) : Prop where
  /-- The arithmetic stays. -/
  arithmetic : s.backend = backend
  /-- So does the length of the history. -/
  limit : s.historyLimit = listed
  /-- The mode is the one that was chosen last. -/
  mode : s.mode = modeAfter start earlier
  /-- The history has the latest formulas, with values that show as their
      answers. -/
  history : s.history.map (fun entry => (entry.1, shown entry.2)) =
    (successes backend start earlier).take listed

section

variable {backend : Backend} {start : AngleMode} {earlier : List (List Char)} {line : List Char}
  {s : Session}

theorem eq_trim_of_formula {typed : List Char} (h : Line.ofText line = .formula typed) :
    typed = Text.trim line := by
  unfold Line.ofText at h
  split at h
  · cases h
  · rw [← Command.line_ofText] at h
    exact absurd h (Command.line_ne_formula _ typed)
  · exact (Line.formula.inj h).symm

/-- A line that asks for nothing to be evaluated may choose a mode. -/
theorem Follows.silent (h : Follows backend start earlier s)
    (hline : ∀ typed, Line.ofText line ≠ .formula typed) :
    Follows backend start (line :: earlier)
      { s with mode := modeAfter start (line :: earlier) } where
  arithmetic := h.arithmetic
  limit := h.limit
  mode := rfl
  history := by
    rw [successes]
    split
    · rename_i hformula _ _
      exact absurd hformula (hline _)
    · exact h.history

/-- A line that does not choose a mode leaves it. -/
theorem modeAfter_cons (h : ∀ mode, Line.ofText line ≠ .choose mode) :
    modeAfter start (line :: earlier) = modeAfter start earlier := by
  rw [modeAfter]
  split
  · rename_i hchoose
    exact absurd hchoose (h _)
  · rfl

theorem Follows.same (h : Follows backend start earlier s)
    (hline : ∀ typed, Line.ofText line ≠ .formula typed)
    (hmode : ∀ mode, Line.ofText line ≠ .choose mode) :
    Follows backend start (line :: earlier) s := by
  have hsilent := h.silent hline
  rw [modeAfter_cons hmode, ← h.mode] at hsilent
  exact hsilent

/-- The listed history is what was printed for its formulas. -/
theorem Follows.map_historyLine (h : Follows backend start earlier s) :
    s.history.map historyLine = ((successes backend start earlier).take listed).map fun success =>
      success.1 ++ " = ".toList ++ success.2 := by
  rw [← h.history, List.map_map]
  rfl

/-- A formula is evaluated without the blanks around it, and listed so. -/
theorem Follows.evaluated (h : Follows backend start earlier s) {typed : List Char}
    (hline : Line.ofText line = .formula typed) :
    (display s typed).1 = freshAnswer backend (modeAfter start earlier) line ∧
      Follows backend start (line :: earlier) (display s typed).2 := by
  have hmode : modeAfter start (line :: earlier) = modeAfter start earlier :=
    modeAfter_cons (by simp [hline])
  have hvalue : s.backend.evaluate s.mode typed =
      backend.evaluate (modeAfter start earlier) line := by
    rw [h.arithmetic, h.mode, eq_trim_of_formula hline, Backend.evaluate_trim]
  constructor
  · rw [fst_display, hvalue, freshAnswer_eq]
  · rw [snd_display, hvalue]
    cases hresult : backend.evaluate (modeAfter start earlier) line with
    | error failure =>
      refine ⟨h.arithmetic, h.limit, h.mode.trans hmode.symm, ?_⟩
      rw [successes, hline, hresult]
      exact h.history
    | ok value =>
      refine ⟨h.arithmetic, h.limit, h.mode.trans hmode.symm, ?_⟩
      have hshown : freshAnswer backend (modeAfter start earlier) line = .ok (shown value) := by
        rw [freshAnswer_eq, hresult]
      rw [successes, hline, hresult, hshown]
      simp only [Session.record, h.limit, List.map_take, List.map_cons, h.history]
      -- The oldest of eleven goes.
      simp [listed, List.take_take]

/-- One line: it breaks the dialogue off, or it is answered as it should be and
    the session behind it follows it. -/
theorem respond_of_follows (h : Follows backend start earlier s)
    (hline : Line.ofText line ≠ .quit) :
    (∃ failure, printed backend start earlier line = .error failure ∧
      respond s line = .brokenOff failure) ∨
    ∃ answers next, printed backend start earlier line = .ok answers ∧
      respond s line = .answered answers next ∧ Follows backend start (line :: earlier) next := by
  rw [respond_eq, printed]
  cases hkind : Line.ofText line with
  | blank => exact .inr ⟨[], s, rfl, rfl, h.same (by simp [hkind]) (by simp [hkind])⟩
  | quit => exact absurd hkind hline
  | choose mode =>
    have hnext : Follows backend start (line :: earlier)
        { s with mode := modeAfter start (line :: earlier) } := h.silent (by simp [hkind])
    have hmode : modeAfter start (line :: earlier) = mode := by rw [modeAfter, hkind]
    rw [hmode] at hnext
    cases mode with
    | radians => exact .inr ⟨_, _, rfl, rfl, hnext⟩
    | degrees => exact .inr ⟨_, _, rfl, rfl, hnext⟩
  | history =>
    refine .inr ⟨_, s, rfl, ?_, h.same (by simp [hkind]) (by simp [hkind])⟩
    simp only [h.map_historyLine]
  | unknown => exact .inr ⟨_, s, rfl, rfl, h.same (by simp [hkind]) (by simp [hkind])⟩
  | formula typed =>
    obtain ⟨hanswer, hnext⟩ := h.evaluated hkind
    dsimp only
    rw [← hanswer]
    generalize display s typed = result at hnext ⊢
    obtain ⟨answer | failure, next⟩ := result
    · exact .inl ⟨_, rfl, rfl⟩
    · exact .inr ⟨_, next, rfl, rfl, hnext⟩

/-- All lines: what is printed, what breaks the dialogue off, and the session
    at the end. -/
theorem run_of_follows (h : Follows backend start earlier s) (lines : List (List Char)) :
    (run s lines).printed = (transcript backend start earlier (heard lines)).printed ∧
      (run s lines).failure? = (transcript backend start earlier (heard lines)).failure? ∧
      Follows backend start (transcript backend start earlier (heard lines)).answered
        (run s lines).session := by
  induction lines generalizing s earlier with
  | nil => exact ⟨rfl, rfl, h⟩
  | cons line rest ih =>
    by_cases hline : Line.ofText line = .quit
    · have hheard : heard (line :: rest) = [] := by simp [heard, hline]
      have hrespond : respond s line = .ended := by rw [respond_eq, hline]
      rw [run, hrespond, hheard]
      exact ⟨rfl, rfl, h⟩
    · have hheard : heard (line :: rest) = line :: heard rest := by simp [heard, hline]
      rw [run, hheard, transcript]
      rcases respond_of_follows h hline with
        ⟨failure, hprinted, hrespond⟩ | ⟨answers, next, hprinted, hrespond, hnext⟩
      · rw [hprinted, hrespond]
        exact ⟨rfl, rfl, h⟩
      · rw [hprinted, hrespond]
        obtain ⟨hmore, hfailure, hfinal⟩ := ih hnext
        exact ⟨congrArg (answers ++ ·) hmore, hfailure, hfinal⟩

/-- A new session follows no lines. -/
theorem follows_session (backend : Backend) (degrees : Bool) :
    Follows backend (if degrees then .degrees else .radians) []
      (CommandLine.session backend degrees) :=
  ⟨rfl, rfl, rfl, rfl⟩

end

/-! ### Lines of a text -/

theorem lines_ne_nil (text : List Char) : lines text ≠ [] := by
  cases text with
  | nil => simp [lines]
  | cons c rest =>
    rw [lines]
    split
    · simp
    · split <;> simp

theorem not_mem_of_mem_lines {text line : List Char} (h : line ∈ lines text) : '\n' ∉ line := by
  induction text generalizing line with
  | nil =>
    rw [List.mem_singleton.1 h]
    simp
  | cons c rest ih =>
    rw [lines] at h
    split at h
    · rcases List.mem_cons.1 h with rfl | h
      · simp
      · exact ih h
    · rename_i hc
      split at h
      · rename_i first more hrest
        rcases List.mem_cons.1 h with rfl | h
        · have hfirst : '\n' ∉ first := ih (by rw [hrest]; simp)
          simp [hfirst, Ne.symm hc]
        · exact ih (by rw [hrest]; simp [h])
      · rename_i hnil
        exact absurd hnil (lines_ne_nil rest)

theorem lines_append {line : List Char} (h : '\n' ∉ line) (rest : List Char) :
    lines (line ++ '\n' :: rest) = line :: lines rest := by
  induction line with
  | nil => rw [List.nil_append, lines, if_pos rfl]
  | cons c line ih =>
    have hc : c ≠ '\n' := by
      rintro rfl
      exact h (by simp)
    rw [List.cons_append, lines, if_neg hc, ih fun hin => h (by simp [hin])]

/-- The lines of a page are read back, and an empty one behind the last line
    feed. -/
theorem lines_page {texts : List (List Char)} (h : ∀ text ∈ texts, '\n' ∉ text) :
    lines (page texts) = texts ++ [[]] := by
  induction texts with
  | nil => rfl
  | cons text texts ih =>
    have hpage : page (text :: texts) = text ++ '\n' :: page texts := by simp [page]
    rw [hpage, lines_append (h text (by simp)), ih fun t ht => h t (by simp [ht]),
      List.cons_append]

theorem mem_of_mem_heard {all : List (List Char)} {line : List Char} (h : line ∈ heard all) :
    line ∈ all :=
  (List.takeWhile_prefix _).subset h

section

variable {backend : Backend} {start : AngleMode}

/-- A listed formula is a line without the blanks around it. -/
theorem not_mem_of_mem_successes {earlier : List (List Char)} (h : ∀ line ∈ earlier, '\n' ∉ line)
    {success : List Char × List Char} (hin : success ∈ successes backend start earlier) :
    '\n' ∉ success.1 ∧ '\n' ∉ success.2 := by
  induction earlier with
  | nil => simp [successes] at hin
  | cons line earlier ih =>
    have hearlier := ih fun l hl => h l (by simp [hl])
    rw [successes] at hin
    split at hin
    · rename_i typed value answer hformula _ hanswer
      rcases List.mem_cons.1 hin with rfl | hin
      · refine ⟨fun hnewline => ?_, not_mem_freshAnswer hanswer⟩
        rw [eq_trim_of_formula hformula] at hnewline
        exact h line (by simp) (Text.mem_of_mem_trim hnewline)
      · exact hearlier hin
    · exact hearlier hin

/-- What is printed are single lines. -/
theorem not_mem_printed {earlier answers : List (List Char)} {line text : List Char}
    (h : ∀ line ∈ earlier, '\n' ∉ line)
    (hprinted : printed backend start earlier line = .ok answers) (hin : text ∈ answers) :
    '\n' ∉ text := by
  unfold printed at hprinted
  split at hprinted
  case h_7 =>
    obtain ⟨answer, hanswer, rfl⟩ := exists_of_map_eq_ok hprinted
    rw [List.mem_singleton.1 hin]
    exact not_mem_freshAnswer hanswer
  all_goals obtain rfl := Except.ok.inj hprinted
  · simp at hin
  · simp at hin
  · rw [List.mem_singleton.1 hin]
    decide
  · rw [List.mem_singleton.1 hin]
    decide
  · obtain ⟨success, hsuccess, rfl⟩ := List.mem_map.1 hin
    have hparts := not_mem_of_mem_successes h (List.mem_of_mem_take hsuccess)
    simp [hparts]
  · rw [List.mem_singleton.1 hin]
    decide

theorem not_mem_transcript {earlier all : List (List Char)} {text : List Char}
    (hearlier : ∀ line ∈ earlier, '\n' ∉ line) (hall : ∀ line ∈ all, '\n' ∉ line)
    (hin : text ∈ (transcript backend start earlier all).printed) : '\n' ∉ text := by
  induction all generalizing earlier with
  | nil => simp [transcript] at hin
  | cons line rest ih =>
    rw [transcript] at hin
    split at hin
    · simp at hin
    · rename_i answers hprinted
      rcases List.mem_append.1 hin with hin | hin
      · exact not_mem_printed hearlier hprinted hin
      · refine ih (fun l hl => ?_) (fun l hl => hall l (by simp [hl])) hin
        rcases List.mem_cons.1 hl with rfl | hl
        · exact hall l (by simp)
        · exact hearlier l hl

end

/-! ### Formulas on a command line -/

/-- A text that is a formula when it is a line. -/
structure IsFormula (text : List Char) : Prop where
  /-- It is a single line. -/
  single : '\n' ∉ text
  /-- It is not blank. -/
  visible : Text.trim text ≠ []
  /-- It is no command. -/
  plain : (Text.trim text).head? ≠ some ':'

theorem IsFormula.ofText {text : List Char} (h : IsFormula text) :
    Line.ofText text = .formula (Text.trim text) := by
  have hplain := h.plain
  have hvisible := h.visible
  rw [Line.ofText]
  generalize Text.trim text = typed at hplain hvisible
  cases typed with
  | nil => exact absurd rfl hvisible
  | cons c rest =>
    have hc : c ≠ ':' := by simpa using hplain
    simp [hc]

/-- A numeral alone is a formula. -/
theorem isFormula_text {n : Numeral} (hn : n.WellFormed) : IsFormula n.text := by
  have htrim : Text.trim n.text = n.text := Text.trim_eq_self fun c hc =>
    Numeral.isBlank_of_isPart (Numeral.isPart_of_mem_text hn hc)
  refine ⟨fun hin => ?_, ?_, fun hhead => ?_⟩
  · exact absurd (Numeral.isPart_of_mem_text hn hin) (by decide)
  · rw [htrim]
    exact Numeral.text_ne_nil hn
  · rw [htrim] at hhead
    exact absurd (Numeral.isPart_of_mem_text hn (List.mem_of_mem_head? hhead)) (by decide)

end Terminal

namespace CommandLine

/-- Formulas have the same answers on a command line and in a dialogue, even if
    their histories are different. -/
theorem answers_eq_run {s t : Session} (hbackend : s.backend = t.backend) (hmode : s.mode = t.mode)
    {formulas : List (List Char)} (h : ∀ typed ∈ formulas, Terminal.IsFormula typed) :
    answers s formulas = ((Terminal.run t (formulas ++ [[]])).printed,
      (Terminal.run t (formulas ++ [[]])).failure?) := by
  induction formulas generalizing s t with
  | nil => rfl
  | cons typed rest ih =>
    -- In a dialogue the blanks around the formula are dropped first.
    have hsame : (Terminal.display s typed).1 = (Terminal.display t (Text.trim typed)).1 := by
      rw [Terminal.fst_display, Terminal.fst_display, Backend.evaluate_trim, hbackend, hmode]
    obtain ⟨hs, hsmode⟩ := Terminal.display_leaves s typed
    obtain ⟨ht, htmode⟩ := Terminal.display_leaves t (Text.trim typed)
    rw [List.cons_append, Terminal.run, answers, Terminal.respond_eq,
      (h typed List.mem_cons_self).ofText]
    dsimp only
    generalize Terminal.display s typed = left at hsame hs hsmode ⊢
    generalize Terminal.display t (Text.trim typed) = right at hsame ht htmode ⊢
    obtain ⟨answer, next⟩ := left
    obtain ⟨other, after⟩ := right
    obtain rfl : answer = other := hsame
    cases answer with
    | error failure => rfl
    | ok text =>
      have hnext := ih (s := next) (t := after) (by rw [hs, ht, hbackend])
        (by rw [hsmode, htmode, hmode]) fun t ht => h t (List.mem_cons_of_mem _ ht)
      simp only [hnext]
      rfl

section

variable {settings : Settings} {chosen : Backend} (hbackend : backend settings = .ok chosen)

include hbackend

/-- With formulas, the answers to them are printed. -/
theorem carryOut_of_answers (hne : settings.formulas ≠ []) {printed : List (List Char)}
    {failure? : Option Failure}
    (h : answers (session chosen settings.degrees) settings.formulas = (printed, failure?))
    (input : List Char) :
    carryOut settings input =
      finish (if "Error".toList ∈ printed then 1 else 0) printed failure? := by
  have hformulas : settings.formulas.isEmpty = false := by simpa using hne
  rw [carryOut, hbackend]
  simp [Except.bind, bind, Except.mapError, hformulas, h, Terminal.failed]

/-- Without formulas, a dialogue is. -/
theorem carryOut_of_run (input : List Char) :
    carryOut { settings with formulas := [] } input =
      finish 0 (Terminal.run (session chosen settings.degrees) (Terminal.lines input)).printed
        (Terminal.run (session chosen settings.degrees) (Terminal.lines input)).failure? := by
  -- The formulas have no part in the choice of the arithmetic.
  have hsame : backend { settings with formulas := [] } = .ok chosen := hbackend
  rw [carryOut, hsame]
  rfl

end

end CommandLine

namespace Terminal

/-- What a new calculator prints. In a dialogue that is its transcript, in
    single lines, and the mode at the end is the one chosen last before the
    dialogue was ended. An answer is the value on display, or the word for
    failures if and only if there is a failure that was foreseen. The dialogue
    is broken off by a numeral that is too long to be read, for which there
    have to be more than 4300 digits. Formulas on a command line are answered
    as if they were the lines of a dialogue, and the exit code tells whether
    the word for failures is among the answers. -/
theorem dialogue (backend : Backend) (degrees : Bool) :
    (∀ input : List Char,
      let start := if degrees then AngleMode.degrees else .radians
      let whole := run (CommandLine.session backend degrees) (lines input)
      let told := transcript backend start [] (heard (lines input))
      whole.printed = told.printed ∧ whole.failure? = told.failure? ∧
        whole.session.mode = modeAfter start told.answered ∧
        ∀ text ∈ whole.printed, '\n' ∉ text) ∧
    (∀ (mode : AngleMode) (line : List Char),
      (∀ value, backend.evaluate mode line = .ok value →
        ∃ text, value.display = .ok text ∧ freshAnswer backend mode line = .ok text) ∧
      (freshAnswer backend mode line = .ok "Error".toList ↔
        ∃ failure, backend.evaluate mode line = .error failure ∧ failure.kind ≠ .unforeseen) ∧
      ∀ failure, (freshAnswer backend mode line = .error failure ↔
          backend.evaluate mode line = .error failure ∧ failure.kind = .unforeseen) ∧
        (freshAnswer backend mode line = .error failure →
          ∃ (digits : Int) (tree : Expr) (numeral : Numeral), backend = .extended digits ∧
            Formula.read NestingLimit.standard line = .ok tree ∧ numeral ∈ tree.numerals ∧
            failure = .tooManyDigits numeral ∧ numeral.TooLong digits ∧ 4300 < digits)) ∧
    (∀ formulas : List (List Char), (∀ typed ∈ formulas, IsFormula typed) →
      CommandLine.answers (CommandLine.session backend degrees) formulas =
        ((run (CommandLine.session backend degrees) (lines (page formulas))).printed,
          (run (CommandLine.session backend degrees) (lines (page formulas))).failure?)) ∧
    ∀ (settings : CommandLine.Settings) (input : List Char),
      CommandLine.backend settings = .ok backend → settings.degrees = degrees →
      settings.formulas ≠ [] → (∀ typed ∈ settings.formulas, IsFormula typed) →
      (∃ answers : List (List Char),
        CommandLine.carryOut settings input =
          .ok (if "Error".toList ∈ answers then 1 else 0, page answers) ∧
        CommandLine.carryOut { settings with formulas := [] } (page settings.formulas) =
          .ok (0, page answers)) ∨
      ∃ (answers : List (List Char)) (failure : Failure),
        CommandLine.carryOut settings input = .error (.brokenOff (page answers) failure) ∧
        CommandLine.carryOut { settings with formulas := [] } (page settings.formulas) =
          .error (.brokenOff (page answers) failure) := by
  have hanswers : ∀ formulas : List (List Char), (∀ typed ∈ formulas, IsFormula typed) →
      CommandLine.answers (CommandLine.session backend degrees) formulas =
        ((run (CommandLine.session backend degrees) (lines (page formulas))).printed,
          (run (CommandLine.session backend degrees) (lines (page formulas))).failure?) := by
    intro formulas h
    rw [lines_page fun typed ht => (h typed ht).single]
    exact CommandLine.answers_eq_run rfl rfl h
  refine ⟨fun input => ?_, fun mode line => ⟨fun value h => freshAnswer_of_ok h,
    freshAnswer_eq_failed_iff, fun failure => ⟨freshAnswer_eq_error_iff, fun h => ?_⟩⟩, hanswers,
    fun settings input hbackend hdegrees hne h => ?_⟩
  · obtain ⟨hprinted, hfailure, hfinal⟩ :=
      run_of_follows (follows_session backend degrees) (lines input)
    refine ⟨hprinted, hfailure, hfinal.mode, fun text htext => ?_⟩
    rw [hprinted] at htext
    exact not_mem_transcript (by simp)
      (fun line hline => not_mem_of_mem_lines (mem_of_mem_heard hline)) htext
  · obtain ⟨hevaluate, hkind⟩ := freshAnswer_eq_error_iff.1 h
    obtain ⟨digits, tree, numeral, hextended, hread, hmem, hfailure, hlong⟩ :=
      Backend.exists_tooLong_of_evaluate hevaluate hkind
    exact ⟨digits, tree, numeral, hextended, hread, hmem, hfailure, hlong, hlong.lt_digits⟩
  · subst hdegrees
    generalize hresult : CommandLine.answers (CommandLine.session backend settings.degrees)
      settings.formulas = result
    obtain ⟨answers, failure?⟩ := result
    have hboth := (hanswers _ h).symm.trans hresult
    have hdialogue := CommandLine.carryOut_of_run hbackend (page settings.formulas)
    rw [(Prod.mk.inj hboth).1, (Prod.mk.inj hboth).2] at hdialogue
    rw [CommandLine.carryOut_of_answers hbackend hne hresult input, hdialogue]
    cases failure? with
    | none => exact .inl ⟨answers, rfl, rfl⟩
    | some failure => exact .inr ⟨answers, failure, rfl, rfl⟩

/-- A formula and all kinds of commands, a formula without a value, a numeral
    that is not read, and two formulas on a command line. -/
theorem dialogue_with_commands :
    let whole := run (CommandLine.session .double false) (lines (page [" 5! ".toList,
      ": DEG ".toList, "1/0".toList, ":x".toList, ":hist".toList, ": Quit".toList, ":rad".toList]))
    (whole.printed = ["120".toList, "Modo: DEG".toList, "Error".toList,
          ":deg / :rad cambian el modo angular, :hist muestra el historial, :q sale".toList,
          "5! = 120".toList] ∧
        whole.failure? = none ∧ whole.session.mode = .degrees) ∧
      (∃ text, (Binary64.ofNumeral ⟨"120".toList, none⟩).display = .ok text ∧
        freshAnswer .double .radians " 5! ".toList = .ok text) ∧
      freshAnswer .double .degrees "1/0".toList = .ok "Error".toList ∧
      (freshAnswer (.extended 5000) .radians (Numeral.padded 4400 7).text =
          .error (.tooManyDigits (.padded 4400 7)) ∧
        ∃ digits, Backend.extended 5000 = .extended digits ∧
          (Numeral.padded 4400 7).TooLong digits) ∧
      CommandLine.answers (CommandLine.session .double true) [" 5! ".toList, "1/0".toList] =
        (["120".toList, "Error".toList], none) ∧
      CommandLine.carryOut ⟨true, false, 40, CommandLine.defaultLogLevel, []⟩
        " 5! \n1/0\n".toList = .ok (0, "120\nError\n".toList) := by
  have htooLong : (Backend.extended 5000).evaluate .radians (Numeral.padded 4400 7).text =
      .error (.tooManyDigits (.padded 4400 7)) :=
    Backend.evaluate_padded (by decide) (by decide) (by decide) .radians
  have hformulas : ∀ typed ∈ [" 5! ".toList, "1/0".toList], IsFormula typed := by
    have hfirst : IsFormula " 5! ".toList := ⟨by decide, by decide, by decide⟩
    have hsecond : IsFormula "1/0".toList := ⟨by decide, by decide, by decide⟩
    exact List.forall_mem_cons.2 ⟨hfirst, List.forall_mem_singleton.2 hsecond⟩
  refine ⟨?_, ?_, ?_, ?_, ?_, ?_⟩
  · obtain ⟨hprinted, hfailure, hmode, -⟩ := (dialogue .double false).1 (page [" 5! ".toList,
      ": DEG ".toList, "1/0".toList, ":x".toList, ":hist".toList, ": Quit".toList, ":rad".toList])
    exact ⟨hprinted.trans (by decide +kernel), hfailure.trans (by decide +kernel),
      hmode.trans (by decide +kernel)⟩
  · exact ((dialogue .double true).2.1 .radians " 5! ".toList).1 _ (by decide +kernel)
  · exact ((dialogue .double true).2.1 .degrees "1/0".toList).2.1.2
      ⟨.notFinite, by decide +kernel, by decide⟩
  · obtain ⟨hanswer, hwhy⟩ := ((dialogue (.extended 5000) false).2.1 .radians
      (Numeral.padded 4400 7).text).2.2 (.tooManyDigits (.padded 4400 7))
    have hbroken := hanswer.2 ⟨htooLong, rfl⟩
    refine ⟨hbroken, ?_⟩
    obtain ⟨digits, -, numeral, hdigits, -, -, hnumeral, hlong, -⟩ := hwhy hbroken
    obtain rfl := Failure.tooManyDigits.inj hnumeral
    exact ⟨digits, hdigits, hlong⟩
  · exact ((dialogue .double true).2.2.1 _ hformulas).trans (by decide +kernel)
  · have hbatch : CommandLine.carryOut
        ⟨true, false, 40, CommandLine.defaultLogLevel, [" 5! ".toList, "1/0".toList]⟩ [] =
        .ok (1, "120\nError\n".toList) := by decide +kernel
    have hboth := (dialogue .double true).2.2.2
      ⟨true, false, 40, CommandLine.defaultLogLevel, [" 5! ".toList, "1/0".toList]⟩ [] (by decide)
      rfl (by simp) hformulas
    rw [hbatch] at hboth
    rcases hboth with ⟨answers, hanswers, hdialogue⟩ | ⟨answers, failure, hanswers, -⟩
    · rw [← (Prod.mk.inj (Except.ok.inj hanswers)).2] at hdialogue
      exact hdialogue
    · cases hanswers

/-- A formula with a numeral that is not read breaks the dialogue off, and
    nothing is printed, for it or for the line behind it. -/
theorem brokenOff_at_seven :
    let formulas := [(Numeral.padded 4400 7).text, ['2']]
    let whole := run (CommandLine.session (.extended 5000) false) (lines (page formulas))
    (Numeral.padded 4400 7).text = List.replicate 4400 '0' ++ ['7'] ∧
      CommandLine.backend ⟨false, true, 5000, CommandLine.defaultLogLevel, []⟩ =
        .ok (.extended 5000) ∧
      (∀ typed ∈ formulas, IsFormula typed) ∧
      whole.printed = [] ∧ whole.failure? = some (.tooManyDigits (.padded 4400 7)) ∧
      CommandLine.answers (CommandLine.session (.extended 5000) false) formulas =
        ([], some (.tooManyDigits (.padded 4400 7))) := by
  have hformulas : ∀ typed ∈ [(Numeral.padded 4400 7).text, ['2']], IsFormula typed := by
    have hseven : IsFormula (Numeral.padded 4400 7).text :=
      isFormula_text (Numeral.isTypable_padded (by decide) _).wellFormed
    have htwo : IsFormula ['2'] := ⟨by decide, by decide, by decide⟩
    exact List.forall_mem_cons.2 ⟨hseven, List.forall_mem_singleton.2 htwo⟩
  have hdisplay : (display (CommandLine.session (.extended 5000) false)
      (Numeral.padded 4400 7).text).1 = .error (.tooManyDigits (.padded 4400 7)) := by
    have hevaluate : (Backend.extended 5000).evaluate .radians (Numeral.padded 4400 7).text =
        .error (.tooManyDigits (.padded 4400 7)) :=
      Backend.evaluate_padded (by decide) (by decide) (by decide) .radians
    rw [fst_display_eq]
    exact freshAnswer_of_unforeseen hevaluate rfl
  have hanswers : CommandLine.answers (CommandLine.session (.extended 5000) false)
      [(Numeral.padded 4400 7).text, ['2']] = ([], some (.tooManyDigits (.padded 4400 7))) := by
    rw [CommandLine.answers]
    generalize display _ (Numeral.padded 4400 7).text = result at hdisplay ⊢
    obtain ⟨answer, next⟩ := result
    obtain rfl : answer = .error (.tooManyDigits (.padded 4400 7)) := hdisplay
    rfl
  have hboth := CommandLine.answers_eq_run (s := CommandLine.session (.extended 5000) false)
    (t := CommandLine.session (.extended 5000) false) rfl rfl hformulas
  rw [← lines_page fun typed ht => (hformulas typed ht).single, hanswers] at hboth
  have hprinted := (Prod.mk.inj hboth).1
  have hfailure := (Prod.mk.inj hboth).2
  exact ⟨List.append_nil _, by decide +kernel, hformulas, hprinted.symm, hfailure.symm, hanswers⟩

end Terminal

end Calculator
