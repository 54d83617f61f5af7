import FluidCss.Sheet.Position
import FluidCss.Text.Quoted

set_option autoImplicit false

/-! # Errors in a style sheet

What makes a style sheet unusable, where it stands, and the message that says so. -/

namespace FluidCss

/-- Why a style sheet is refused. -/
inductive Reason where
  /-- No token of any kind starts here. -/
  | unknownWord
  /-- The given token cannot stand here. -/
  | unexpected (lexeme : String)
  /-- The text ends inside a statement. -/
  | unclosedBlock
  /-- The smaller size of a fluid declaration has no unit. -/
  | unitlessSize
  /-- A reason given by the caller. -/
  | other (text : String)
deriving DecidableEq, Repr

/-- The words of a reason. -/
def Reason.text : Reason → String
  | unknownWord => "Unknown word"
  | unexpected lexeme => "Unexpected " ++ Text.quoted lexeme
  | unclosedBlock => "Unclosed block"
  | unitlessSize => "sizes with unitless values are not supported"
  | other text => text

/-- A refused style sheet: the reason, its place, the whole text, the name of the text, and the
name of the pass that refused it, each as far as it is known. -/
structure CssError where
  reason : Reason
  line : Option Int
  column : Option Int
  source : Option String
  file : Option String
  plugin : Option String
deriving DecidableEq, Repr

namespace CssError

/-- An optional name; the empty text is no name. -/
def nonempty (s : Option String) : Option String := s.filter (· ≠ "")

/-- The place of an error as its message shows it: a column is shown only after a line. -/
def location (e : CssError) : String :=
  match e.line, e.column with
  | none, _ => ""
  | some line, none => ":" ++ toString line
  | some line, some column => ":" ++ toString line ++ ":" ++ toString column

/-- The message of an error: pass, name of the text, place and reason. -/
def message (e : CssError) : String :=
  let plugin := match nonempty e.plugin with
    | some name => name ++ ": "
    | none => ""
  plugin ++ (nonempty e.file).getD "<css input>" ++ e.location ++ ": " ++ e.reason.text

end CssError

end FluidCss
