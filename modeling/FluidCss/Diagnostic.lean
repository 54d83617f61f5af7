import FluidCss.Sheet.Position

set_option autoImplicit false

/-! # Diagnostics

A finding about a style sheet that does not make it unusable, with the rule it is about and the line
that reports it. -/

namespace FluidCss

/-- How serious a finding is. -/
inductive Severity where
  | error
  | warning
  | info
deriving DecidableEq, Repr

namespace Severity

/-- The word for a severity. -/
def word : Severity → String
  | error => "ERROR"
  | warning => "WARNING"
  | info => "INFO"

/-- The severity that a word stands for. -/
def ofWord? (s : String) : Option Severity := [error, warning, info].find? fun v => v.word == s

theorem ofWord?_word (v : Severity) : ofWord? v.word = some v := by cases v <;> decide

end Severity

/-- A finding: the pass that made it, how serious it is, what it says, and the rule and the place it
is about as far as they are known. -/
structure Diagnostic where
  plugin : String
  severity : Severity
  text : String
  selector : Option String
  line : Option Int
  column : Option Int
deriving DecidableEq, Repr

namespace Diagnostic

/-- A warning about a node. -/
def warning (plugin text : String) (selector : Option String) (source : Option Position) :
    Diagnostic :=
  ⟨plugin, .warning, text, selector, source.map (·.line), source.map (·.column)⟩

/-- Whether the finding is a warning. -/
def isWarning (d : Diagnostic) : Bool := d.severity == .warning

/-- The place of a finding as its line shows it. A line without a column shows that there is
none. -/
def location (d : Diagnostic) : String :=
  match d.line, d.column with
  | none, _ => ""
  | some line, some column => " [" ++ toString line ++ ":" ++ toString column ++ "]"
  | some line, none => " [" ++ toString line ++ ":None]"

/-- The rule of a finding as its line shows it. An empty selector is not shown. -/
def subject (d : Diagnostic) : String :=
  match d.selector with
  | none => ""
  | some selector => if selector = "" then "" else " [" ++ selector ++ "]"

/-- The line that reports a finding. -/
def message (d : Diagnostic) : String :=
  d.severity.word ++ d.location ++ d.subject ++ ": " ++ d.text ++ " (" ++ d.plugin ++ ")"

end Diagnostic

end FluidCss
