import FluidCss.Sheet.Node

set_option autoImplicit false

/-! # Printing a style sheet

The canonical layout: two spaces for each level of nesting, one declaration a line with a semicolon
at its end, and an empty line between the statements of the sheet. -/

namespace FluidCss

/-- The white space in front of a line at a nesting depth. -/
def indentation (depth : Nat) : List Char := List.replicate (2 * depth) ' '

/-- An at-rule up to its block or semicolon. -/
def atHeader (name params : String) : List Char :=
  if params = "" then '@' :: name.toList else '@' :: (name.toList ++ ' ' :: params.toList)

namespace Node

mutual

/-- The lines of a node at a nesting depth, without the last line break. -/
def text (depth : Nat) : Node → List Char
  | declaration prop value _ =>
    indentation depth ++ prop.toList ++ ':' :: ' ' :: value.toList ++ [';']
  | rule selector _ nodes =>
    indentation depth ++ selector.toList ++ ' ' :: '\x7b' :: '\n' :: lines (depth + 1) nodes ++
      indentation depth ++ ['\x7d']
  | atStatement name params _ => indentation depth ++ atHeader name params ++ [';']
  | atBlock name params _ nodes =>
    indentation depth ++ atHeader name params ++ ' ' :: '\x7b' :: '\n' :: lines (depth + 1) nodes ++
      indentation depth ++ ['\x7d']

/-- The lines of the nodes of a block. -/
def lines (depth : Nat) : List Node → List Char
  | [] => []
  | n :: ns => n.text depth ++ '\n' :: lines depth ns

end

/-- The text of statements, with an empty line between each two and a line break at the end. -/
def sheetText : List Node → List Char
  | [] => []
  | [n] => n.text 0 ++ ['\n']
  | n :: ns => n.text 0 ++ '\n' :: '\n' :: sheetText ns

/-- The printed form of the statements of a sheet. -/
def toCss (nodes : List Node) : String := String.ofList (sheetText nodes)

end Node

/-- The printed form of a sheet. -/
def Sheet.toCss (sheet : Sheet) : String := Node.toCss sheet.nodes

end FluidCss
