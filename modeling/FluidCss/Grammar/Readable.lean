import FluidCss.Grammar.Printable
import FluidCss.Sheet.Printer

set_option autoImplicit false

/-! # Trees that are read back where they stand

`IsPrintable` asks of each text that it ends where it should whatever comes behind it. A tree can be
read back although some of its texts do not satisfy this: a value with an unclosed `url(` is read as
it was printed if no closing parenthesis follows. `Node.IsReadable` asks for no more than that the
texts end where they should in front of what is printed behind them. -/

namespace FluidCss

/-- Whether a text is cut off as a value in front of a semicolon and the given text. -/
def IsValueBefore (cs rest : List Char) : Prop :=
  cs ≠ [] ∧ isTrimmed cs = true ∧ Terminal.splitValue? (cs ++ ';' :: rest) = some (cs, ';' :: rest)

/-- Whether a text can be the parameters of an at-rule in front of the given text: that they start
with the marks that open a comment does no harm if the comment is not closed. -/
def IsParamsBefore (cs rest : List Char) : Prop :=
  isTrimmed cs = true ∧ cs.all Terminal.isPlain = true ∧ Terminal.splitComment? (cs ++ rest) = none

namespace Node

mutual

/-- Whether a node that is printed at a nesting depth is read back in front of the given text;
`inBlock` says that it stands directly in the block of an at-rule. -/
def IsReadable (inBlock : Bool) (depth : Nat) (rest : List Char) : Node → Prop
  | declaration prop value _ =>
    isPropertyText prop.toList = true ∧ IsValueBefore value.toList rest ∧
      (inBlock = true → hasNoBlock value.toList = true)
  | rule selector _ nodes =>
    isSelectorText selector.toList = true ∧ (∀ n ∈ nodes, n.isDeclaration = true) ∧
      AreReadable false (depth + 1) (indentation depth ++ '\x7d' :: rest) nodes
  | atStatement name params _ =>
    isKeywordText name.toList = true ∧ IsParamsBefore params.toList (';' :: rest)
  | atBlock name params _ nodes =>
    isKeywordText name.toList = true ∧
      IsParamsBefore params.toList (' ' :: '\x7b' :: '\n' ::
        (lines (depth + 1) nodes ++ (indentation depth ++ '\x7d' :: rest))) ∧
      AreReadable true (depth + 1) (indentation depth ++ '\x7d' :: rest) nodes

/-- Whether the nodes of a block that is printed at a nesting depth are read back in front of the
given text. -/
def AreReadable (inBlock : Bool) (depth : Nat) (rest : List Char) : List Node → Prop
  | [] => True
  | n :: ns =>
    n.IsReadable inBlock depth ('\n' :: (lines depth ns ++ rest)) ∧
      AreReadable inBlock depth rest ns

end

/-- Whether the statements of a sheet are read back. -/
def IsReadableSheet : List Node → Prop
  | [] => True
  | [n] => n.IsReadable false 0 ['\n']
  | n :: ns => n.IsReadable false 0 ('\n' :: '\n' :: sheetText ns) ∧ IsReadableSheet ns

mutual

/-- Whether no declaration in the node that stands directly in the block of an at-rule would be taken
for a rule when it is printed. -/
def isUnambiguous (inBlock : Bool) : Node → Bool
  | declaration _ value _ => !inBlock || hasNoBlock value.toList
  | rule _ _ nodes => areUnambiguous false nodes
  | atStatement .. => true
  | atBlock _ _ _ nodes => areUnambiguous true nodes

/-- Whether no declaration in the nodes that stands directly in the block of an at-rule would be taken
for a rule when it is printed. -/
def areUnambiguous (inBlock : Bool) : List Node → Bool
  | [] => true
  | n :: ns => n.isUnambiguous inBlock && areUnambiguous inBlock ns

end

end Node

end FluidCss
