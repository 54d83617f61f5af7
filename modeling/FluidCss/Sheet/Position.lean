set_option autoImplicit false

/-! # Positions in a text

Lines and columns are counted from one. A line feed alone ends a line, and a column is a number of
characters. -/

namespace FluidCss

/-- A place in the text of a style sheet. -/
structure Position where
  line : Int
  column : Int
deriving DecidableEq, Repr

namespace Position

/-- The place of the first character. -/
def start : Position := ⟨1, 1⟩

/-- The place after a character that stands at `p`. -/
def next (p : Position) (c : Char) : Position :=
  if c = '\n' then ⟨p.line + 1, 1⟩ else ⟨p.line, p.column + 1⟩

/-- The place after a text that starts at `p`. -/
def after (p : Position) (cs : List Char) : Position := cs.foldl next p

@[simp]
theorem after_append (p : Position) (as bs : List Char) :
    p.after (as ++ bs) = (p.after as).after bs := List.foldl_append

end Position

end FluidCss
