import FluidCss.Grammar.Terminal
import FluidCss.Sheet.Node

set_option autoImplicit false

/-! # Trees that can be read back

The conditions on the texts in a tree and on the places of its nodes under which its printed form is
read as the same tree. -/

namespace FluidCss

open Text

/-- Whether a text has no white space at its ends. -/
def isTrimmed (cs : List Char) : Bool := trim cs == cs

/-- Whether a text can be a selector: it is not empty or mistaken for an at-rule or a comment, and
it does not end before its end. -/
def isSelectorText (cs : List Char) : Bool :=
  match cs with
  | [] => false
  | c :: _ => isTrimmed cs && cs.all Terminal.isPlain && c != '@' && c != '/'

/-- Whether a text can be the parameters of an at-rule, if it is not empty. -/
def isParamsText (cs : List Char) : Bool :=
  isTrimmed cs && cs.all Terminal.isPlain && !(List.isPrefixOf ['/', '*'] cs)

/-- Whether a text is a property name as a whole. -/
def isPropertyText (cs : List Char) : Bool := Terminal.splitProperty? cs == some (cs, [])

/-- Whether a text is the name of an at-rule as a whole. -/
def isKeywordText (cs : List Char) : Bool :=
  Terminal.splitKeyword? ('@' :: cs) == some ('@' :: cs, [])

/-- Whether a text can be a value: taken for one, it ends neither before its end nor behind the
semicolon that follows it. -/
def IsValueText (cs : List Char) : Prop :=
  cs ≠ [] ∧ isTrimmed cs = true ∧
    ∀ rest, Terminal.splitValue? (cs ++ ';' :: rest) = some (cs, ';' :: rest)

/-- Whether the first delimiter in a text, if there is one, is no opening brace. In a block where
rules may stand, a declaration with such a value would be taken for one. -/
def hasNoBlock (cs : List Char) : Bool := (cs.find? Terminal.isDelimiter) != some '\x7b'

namespace Node

mutual

/-- Whether a node is printed so that it is read back; `inBlock` says that it stands directly in
the block of an at-rule. -/
def IsPrintable (inBlock : Bool) : Node → Prop
  | declaration prop value _ =>
    isPropertyText prop.toList = true ∧ IsValueText value.toList ∧
      (inBlock = true → hasNoBlock value.toList = true)
  | rule selector _ nodes =>
    isSelectorText selector.toList = true ∧ (∀ n ∈ nodes, n.isDeclaration = true) ∧
      ArePrintable false nodes
  | atStatement name params _ =>
    isKeywordText name.toList = true ∧ isParamsText params.toList = true
  | atBlock name params _ nodes =>
    isKeywordText name.toList = true ∧ isParamsText params.toList = true ∧ ArePrintable true nodes

/-- Whether nodes are printed so that they are read back. -/
def ArePrintable (inBlock : Bool) : List Node → Prop
  | [] => True
  | n :: ns => n.IsPrintable inBlock ∧ ArePrintable inBlock ns

end

end Node

/-- Whether the statements of a sheet are printed so that they are read back. -/
def IsPrintable (nodes : List Node) : Prop :=
  (∀ n ∈ nodes, n.isStatement = true) ∧ Node.ArePrintable false nodes

end FluidCss
