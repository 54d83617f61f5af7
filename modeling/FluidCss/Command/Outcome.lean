import FluidCss.Command.Directory
import FluidCss.Failure
import FluidCss.Text.ControlSequence

set_option autoImplicit false

/-! # Outcomes

What a call of the program leads to: an exit code, what is printed, and possibly an exception that
the program does not report itself. A call that writes a file is not over before the file has been
written, because it reports only then.

What is printed is printed plain, without the control sequences of terminals; the log is not
printed and is shown as it is. -/

namespace FluidCss

/-- An exception that ends the program without a report of its own. -/
inductive Uncaught where
  | fileNotFound
  | isDirectory
  | notADirectory
  | nameTooLong
  | notAPath
  /-- The file is no text. -/
  | undecodable
  | failure (failure : Failure)
deriving DecidableEq, Repr

/-- The words for an exception. -/
def Uncaught.message : Uncaught → String
  | fileNotFound => "No such file or directory"
  | isDirectory => "Is a directory"
  | notADirectory => "Not a directory"
  | nameTooLong => "File name too long"
  | notAPath => "embedded null byte"
  | undecodable => "The file is not encoded in UTF-8"
  | failure e => e.message

/-- The exception for a file that cannot be written. -/
def WriteError.uncaught : WriteError → Uncaught
  | noDirectory => .fileNotFound
  | obstructed => .notADirectory
  | isDirectory => .isDirectory
  | tooLong => .nameTooLong
  | notAPath => .notAPath

/-- What a finished call has led to. -/
structure Outcome where
  exit : Nat
  stdout : String
  stderr : String
  uncaught : Option Uncaught
deriving DecidableEq, Repr

namespace Outcome

/-- A call that has done what it was asked for, after what the log shows. -/
def success (log stdout stderr : String) : Outcome :=
  ⟨0, Text.plain stdout, log ++ Text.plain stderr, none⟩

/-- A call that reports why the sheet is refused. -/
def rejected (log stderr : String) : Outcome := ⟨1, "", log ++ Text.plain stderr, none⟩

/-- A call whose command line is refused. -/
def misused (stderr : String) : Outcome := ⟨2, "", Text.plain stderr, none⟩

/-- A call that ends in an exception. -/
def crashed (log stderr : String) (uncaught : Uncaught) : Outcome :=
  ⟨1, "", log ++ Text.plain stderr, some uncaught⟩

end Outcome

/-- What a call comes to before any file is written. -/
inductive Answer where
  | done (outcome : Outcome)
  /-- The text is to be written to the path, after what the log shows and what has been printed. -/
  | write (path text log stderr : String)
deriving DecidableEq, Repr

namespace Answer

/-- The outcome once it is known whether the file could be written. -/
def finish (answer : Answer) (problem : Option WriteError) : Outcome :=
  match answer with
  | done outcome => outcome
  | write path _ log stderr =>
    match problem with
    | none => .success log "" (stderr ++ "Wrote " ++ path ++ "\n")
    | some e => .crashed log stderr e.uncaught

end Answer

end FluidCss
