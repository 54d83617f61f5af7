import FluidCss.Command.Switch

set_option autoImplicit false

/-! # What the program says about itself

The pages that describe the program and its commands, and the form in which a refused command line
is reported. -/

namespace FluidCss

/-- The name of the program. -/
def programName : String := "fluidtype"

/-- The version of the program. -/
def programVersion : String := "0.1.0"

/-- What the program can be told to do. -/
inductive Verb where
  /-- List problems without writing anything. -/
  | check
  /-- List the fluid declarations with their bounds. -/
  | inspect
  /-- Expand the fluid declarations of the sheet. -/
  | process
deriving DecidableEq, Repr

namespace Verb

/-- The word for a verb. -/
def name : Verb → String
  | check => "check"
  | inspect => "inspect"
  | process => "process"

/-- All verbs. -/
def all : List Verb := [check, inspect, process]

/-- The verb that a word stands for. -/
def ofName? (s : String) : Option Verb := all.find? fun v => v.name == s

/-- The options of a verb. -/
def switches : Verb → List Switch
  | process => [.help, .output, .rootFontSize]
  | _ => [.help, .rootFontSize]

end Verb

/-- Lines of output. -/
def textLines (lines : List String) : String := String.join (lines.map (· ++ "\n"))

/-- The answer to a question for the version. -/
def versionPage : String := textLines [programName ++ ", version " ++ programVersion]

namespace Page

/-- How the program is called. -/
def programUsage : String := "Usage: " ++ programName ++ " [OPTIONS] COMMAND [ARGS]..."

/-- How a command is called. -/
def verbUsage (v : Verb) : String :=
  "Usage: " ++ programName ++ " " ++ v.name ++ " [OPTIONS] CSSFILE"

/-- The page of the program. -/
def program : String := textLines [
  programUsage,
  "",
  "  fluidtype - turn fluid font-size, line-height and letter-spacing into",
  "  responsive CSS.",
  "",
  "Options:",
  "  --version      Show the version and exit.",
  "  -v, --verbose  Log rewrites (-v) or resolved parameters (-vv)",
  "  --help         Show this message and exit.",
  "",
  "Commands:",
  "  check    Check that every fluid declaration in a CSS file can be rewritten.",
  "  inspect  List each fluid declaration in a CSS file with its resolved...",
  "  process  Rewrite the fluid declarations of a CSS file."]

/-- What a command does, as its page says it. -/
def description : Verb → List String
  | .check => [
    "  Check that every fluid declaration in a CSS file can be rewritten.",
    "",
    "  Prints warnings and exits with code 0 if there are no errors, or code 1 if",
    "  the file cannot be transformed."]
  | .inspect => [
    "  List each fluid declaration in a CSS file with its resolved parameters."]
  | .process => [
    "  Rewrite the fluid declarations of a CSS file.",
    "",
    "  Warnings go to stderr. Nothing is written if the file cannot be transformed."]

/-- The options of a command, as its page lists them. -/
def optionLines (v : Verb) : List String :=
  (if v = .process then ["  -o, --output TEXT      Write CSS here instead of stdout"] else []) ++ [
    "  --root-font-size TEXT  Root font size to assume before any :root/html rule",
    "                         (default 16px)",
    "  --help                 Show this message and exit."]

/-- The page of a command. -/
def verb (v : Verb) : String :=
  textLines ([verbUsage v, ""] ++ description v ++ ["", "Options:"] ++ optionLines v)

/-- The report of a refused command line: how to call the command and where to read more, unless
that would not help, and what is wrong. -/
def refusal (usage command : String) (e : UsageError) : String :=
  let help := [usage, "Try '" ++ command ++ " --help' for help.", ""]
  textLines ((if e.showsUsage then help else []) ++ ["Error: " ++ e.message])

/-- The report of a command line that the program refuses. -/
def programRefusal (e : UsageError) : String := refusal programUsage programName e

/-- The report of a command line that a command refuses. -/
def verbRefusal (v : Verb) (e : UsageError) : String :=
  refusal (verbUsage v) (programName ++ " " ++ v.name) e

end Page

end FluidCss
