import FluidCss.Grammar.Unfinished
import FluidCss.Sheet.CssError

set_option autoImplicit false

/-! # Reading a style sheet

A text is read token by token from the left. The kinds of tokens that are tried at a place depend
on what has been read before it, so cutting the text into tokens and building the tree go hand in
hand. The first token that cannot be taken in ends the reading with an error at its place; a text
that ends too early is refused at its last token. -/

namespace FluidCss

/-- Why and where a text is refused. -/
structure Refusal where
  reason : Reason
  position : Position
deriving DecidableEq, Repr

namespace Unfinished

/-- Why no token is found at the front of a text: a token of another kind stands there, or none. -/
def mismatch (cs : List Char) : Reason :=
  match Terminal.first? Terminal.all cs with
  | some (_, lexeme, _) => .unexpected (String.ofList lexeme)
  | none => .unknownWord

/-- Reads the rest of a text, given the place where it starts and the place of the last token. -/
def read (u : Unfinished) (here last : Position) (cs : List Char) :
    Except Refusal (List Node) :=
  if cs.isEmpty then
    match u.finish? with
    | some nodes => .ok nodes
    | none => .error ⟨.unclosedBlock, last⟩
  else
    match _h : Terminal.first? u.terminals cs with
    | none => .error ⟨mismatch cs, here⟩
    | some (terminal, lexeme, rest) =>
      if terminal.isSkipped then u.read (here.after lexeme) last rest
      else
        match u.step ⟨terminal, lexeme, here⟩ with
        | none => .error ⟨.unexpected (String.ofList lexeme), here⟩
        | some next => next.read (here.after lexeme) here rest
termination_by cs.length
decreasing_by all_goals exact Terminal.first?_length_lt _ _ _ _ _ _h

end Unfinished

namespace Sheet

/-- The statements of a text, or why and where it is refused. -/
def parseNodes (css : List Char) : Except Refusal (List Node) :=
  Unfinished.empty.read .start .start css

/-- The style sheet that a text is the text of. The name of the text is kept, and shown in
errors. -/
def parse (css : String) (name : Option String) : Except CssError Sheet :=
  match parseNodes css.toList with
  | .ok nodes => .ok ⟨nodes, some css, name⟩
  | .error refusal =>
    .error ⟨refusal.reason, some refusal.position.line, some refusal.position.column, some css,
      name, none⟩

end Sheet

end FluidCss
