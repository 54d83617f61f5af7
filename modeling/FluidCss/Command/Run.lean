import FluidCss.Command.Request
import FluidCss.Process
import FluidCss.Text.LineBreak

set_option autoImplicit false

/-! # Running a command

What each command answers, given the file that it is asked about. All three read the sheet and plan
its expansions; `process` carries them out as well. The log comes first on the error output, as it
is written while the sheet is worked on. -/

namespace FluidCss

namespace Report

/-- The level of an event in the log. -/
def level (e : Event) : String := if e.isDetail then "DEBUG" else "INFO"

/-- Whether an event is shown: expansions from the first degree of verbosity on, all else from the
second. -/
def shows (verbosity : Nat) (e : Event) : Bool := (if e.isDetail then 2 else 1) ≤ verbosity

/-- The log of a run. -/
def log (r : Report) (verbosity : Nat) : String :=
  textLines ((r.events.filter (shows verbosity)).map fun e =>
    level e ++ " " ++ programName ++ ": " ++ e.text)

end Report

namespace Request

/-- The options that a request gives. -/
def options (r : Request) : Options :=
  { Options.builtin with rootFontSize := r.rootFontSize.getD defaultRootFontSize }

/-- A failure as the outcome of a command: a refused sheet is reported, anything else is not. -/
def failed (log : String) : Failure → Outcome
  | .css e => .rejected log ("Error: " ++ e.message ++ "\n")
  | e => .crashed log "" (.failure e)

/-- The answer of `process`: the expanded sheet, on the output or for a file. -/
def answerProcess (r : Request) (sheet : Sheet) : Answer :=
  match sheet.expand [r.options] with
  | .error e session => .done (failed (session.report.log r.verbosity) e)
  | .ok css session =>
    let log := session.report.log r.verbosity
    let warnings := textLines (session.report.warnings.map fun d => "  " ++ d.message)
    match r.output with
    | some path => .write path css log warnings
    | none => .done (.success log css warnings)

/-- The last lines of the answer of `check`. -/
def summary (r : Request) (expansions warnings : Nat) : List String :=
  if warnings = 0 then
    ["OK: " ++ Path.fileName r.path ++ " (" ++ toString expansions ++ " fluid declaration(s))"]
  else
    ["", "Summary: " ++ toString expansions ++ " fluid declaration(s), " ++ toString warnings ++
      " warning(s)"]

/-- The lines of `inspect` about one expansion. -/
def entryLines (f : Forest) (w : Expansion) : List String :=
  let prop := (f.content w.decl).prop
  let location := match f.source w.decl with
    | some p => " (line " ++ toString p.line ++ ")"
    | none => ""
  ["",
    "  " ++ (f.content w.rule).selector ++ " \x7b " ++ prop ++ " \x7d" ++ location,
    "    size:  " ++ w.bounds.minSize ++ " -> " ++ w.bounds.maxSize,
    "    width: " ++ w.bounds.minWidth ++ " -> " ++ w.bounds.maxWidth,
    "    value: " ++ w.output.expression]

/-- The answer of a command that only plans. -/
def answerPlan (r : Request) (sheet : Sheet)
    (lines : Forest → List Expansion → Report → List String) : Outcome :=
  let (root, session) := sheet.session
  match Run.plan r.options root session with
  | .error e s => failed (s.report.log r.verbosity) e
  | .ok expansions s =>
    .success (s.report.log r.verbosity) (textLines (lines s.forest expansions s.report)) ""

/-- The lines of `check`: the warnings and a summary. -/
def checkLines (r : Request) (expansions : List Expansion) (report : Report) : List String :=
  report.warnings.map (·.message) ++ r.summary expansions.length report.warnings.length

/-- The lines of `inspect`: how many fluid declarations there are, and each with its bounds. -/
def inspectLines (f : Forest) (expansions : List Expansion) : List String :=
  ("Fluid declarations: " ++ toString expansions.length) :: expansions.flatMap (entryLines f)

/-- The answer of a command to a sheet. -/
def answerSheet (r : Request) (sheet : Sheet) : Answer :=
  match r.verb with
  | .process => r.answerProcess sheet
  | .check => .done (r.answerPlan sheet fun _ expansions report => r.checkLines expansions report)
  | .inspect => .done (r.answerPlan sheet fun f expansions _ => inspectLines f expansions)

/-- The answer of a command to the content of its file. -/
def answerContent (r : Request) (content : ByteArray) : Answer :=
  match String.fromUTF8? content with
  | none => .done (.crashed "" "" .undecodable)
  | some text =>
    let css := String.ofList (Text.unifyLineBreaks text.toList)
    match Sheet.parse css (some (Path.normal r.path)) with
    | .error e => .done (.rejected "" ("Parse error: " ++ e.message ++ "\n"))
    | .ok sheet => r.answerSheet sheet

/-- The answer of a command, given what the path in its request leads to. -/
def answer (r : Request) (entry : Entry) : Answer :=
  let refuse (e : UsageError) : Answer := .done (.misused (Page.verbRefusal r.verb e))
  match entry with
  | .notAPath => .done (.crashed "" "" .notAPath)
  | .missing => refuse (.noSuchPath r.path)
  | .directory =>
    if r.extra.isEmpty then .done (.crashed "" "" .isDirectory) else refuse (.extraWords r.extra)
  | .file content =>
    if r.extra.isEmpty then r.answerContent content else refuse (.extraWords r.extra)

/-- What comes of a request in a directory: the outcome, and the directory afterwards. -/
def perform (r : Request) (d : Directory) : Outcome × Directory :=
  let answer := r.answer (d.entry r.path)
  match answer with
  | .done outcome => (outcome, d)
  | .write path text _ _ =>
    match d.write path text.toUTF8 with
    | .ok after => (answer.finish none, after)
    | .error e => (answer.finish (some e), d)

end Request

/-- Runs a command line in a directory: its outcome, and the directory afterwards. -/
def runIn (d : Directory) (args : List String) : Outcome × Directory :=
  match Request.read args with
  | .error outcome => (outcome, d)
  | .ok request => request.perform d

end FluidCss
