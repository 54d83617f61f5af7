import FluidCss.Command.Run

set_option autoImplicit false

/-! # The program

The command line: reads the file that a request names, writes the file that its answer names, and
prints the outcome. -/

namespace FluidCss

/-- Whether a path leads to a directory. -/
def isDirectory (path : String) : IO Bool := do
  try
    let real ← IO.FS.realPath path
    real.isDir
  catch _ => return false

/-- What a path leads to. -/
def readEntry (path : String) : IO Entry := do
  if Path.hasNull path then return .notAPath
  try
    return .file (← IO.FS.readBinFile path)
  catch _ => return if ← isDirectory path then .directory else .missing

/-- Writes a text to a path, and says why if that fails. -/
def writeText (path text : String) : IO (Option WriteError) := do
  if Path.hasNull path then return some .notAPath
  let path := Path.normal path
  try
    IO.FS.writeFile path text
    return none
  catch
    | .noFileOrDirectory .. => return some .noDirectory
    | .invalidArgument .. => return some .tooLong
    | _ => return some (if ← isDirectory path then .isDirectory else .obstructed)

/-- The outcome of an answer. -/
def complete (answer : Answer) : IO Outcome :=
  match answer with
  | .done outcome => return outcome
  | .write path text _ _ => return answer.finish (← writeText path text)

end FluidCss

open FluidCss

def main (args : List String) : IO UInt32 := do
  let outcome ← match Request.read args with
    | .error outcome => pure outcome
    | .ok request => complete (request.answer (← readEntry request.path))
  IO.print outcome.stdout
  IO.eprint outcome.stderr
  if let some e := outcome.uncaught then
    IO.eprintln e.message
  return outcome.exit.toUInt32
