import Calculator.Text.Capital
import Calculator.Text.Quoted

/-!
# The level of the log

What the calculator notes in its log is not shown, so the level of the log
makes no difference. It is chosen by a name, in any case, and a name that
means nothing is as good as another. Only the names of two other settings of
the log are refused, since these are found under their names but are not
levels: the form of a line, which is a text and so is looked for among the
levels in vain, and the styles of such forms, which are not even a text.

## Main definitions

* `LogSetting`: The settings that are not levels.
* `LogSetting.ofName?`: The setting that is found under a name.
* `LogSetting.refusal`: The message when one is chosen as a level.

## Theorems

* `LogSetting.ofName?_name`: A setting is found under its own name.
-/

namespace Calculator

/-- The settings of the log that are not levels. -/
inductive LogSetting
  /-- The form of a line. -/
  | lineForm
  /-- The styles in which the form of a line can be given. -/
  | styles
deriving DecidableEq, Repr

namespace LogSetting

/-- The name of a setting. -/
def name : LogSetting → List Char
  | lineForm => "BASIC_FORMAT".toList
  | styles => "_STYLES".toList

/-- All settings that are not levels. -/
def all : List LogSetting :=
  [lineForm, styles]

/-- The setting that is found under a name, in any case. -/
def ofName? (typed : List Char) : Option LogSetting :=
  all.find? fun s => s.name = Text.capitals typed

/-- The usual form of a line. -/
def usualForm : String :=
  "%(levelname)s:%(name)s:%(message)s"

/-- The styles of forms: a mark, the style that it stands for, and the usual
    form in that style. -/
def styleTable : List (String × String × String) :=
  [("%", "PercentStyle", usualForm),
    ("\x7b", "StrFormatStyle", "\x7blevelname\x7d:\x7bname\x7d:\x7bmessage\x7d"),
    ("$", "StringTemplateStyle", "$\x7blevelname\x7d:$\x7bname\x7d:$\x7bmessage\x7d")]

/-- A text between quotes. -/
def quoted (text : String) : String :=
  String.ofList (Text.quote text.toList)

/-- One style written out. -/
def styleText (style : String × String × String) : String :=
  quoted style.1 ++ ": (<class " ++ quoted ("logging." ++ style.2.1) ++ ">, " ++ quoted style.2.2
    ++ ")"

/-- The message when a setting is chosen as a level. -/
def refusal : LogSetting → String
  | lineForm => "Unknown level: " ++ quoted usualForm
  | styles => "Level not an integer or a valid string: \x7b"
      ++ ", ".intercalate (styleTable.map styleText) ++ "\x7d"

theorem ofName?_name (s : LogSetting) : ofName? s.name = some s := by
  cases s <;> decide

end LogSetting

end Calculator
