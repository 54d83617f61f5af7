import FluidCss.Sheet.Position

set_option autoImplicit false

/-! # The tree of a style sheet

A style sheet is a list of rules and at-rules. Rules hold declarations; an at-rule is a statement
(`@import "x.css";`) or has a block that may hold any nodes. The types do not say which node may
stand where: a tree in which a rule holds a rule is a tree, and can be printed. -/

namespace FluidCss

/-- A node of a style sheet, with the place in the text that it was read from. -/
inductive Node where
  /-- The declaration `prop: value`. -/
  | declaration (prop value : String) (source : Option Position)
  /-- A rule: a selector with a block. -/
  | rule (selector : String) (source : Option Position) (nodes : List Node)
  /-- An at-rule that ends without a block. -/
  | atStatement (name params : String) (source : Option Position)
  /-- An at-rule with a block. -/
  | atBlock (name params : String) (source : Option Position) (nodes : List Node)
deriving Repr

namespace Node

/-- Where the node stood in the text. -/
def source : Node → Option Position
  | declaration _ _ source => source
  | rule _ source _ => source
  | atStatement _ _ source => source
  | atBlock _ _ source _ => source

/-- Whether the node is a declaration. -/
def isDeclaration : Node → Bool
  | declaration .. => true
  | _ => false

/-- Whether the node is a rule or an at-rule. -/
def isStatement (n : Node) : Bool := !n.isDeclaration

mutual

/-- The node without the places it was read from. -/
def forgetSource : Node → Node
  | declaration prop value _ => declaration prop value none
  | rule selector _ nodes => rule selector none (forgetSources nodes)
  | atStatement name params _ => atStatement name params none
  | atBlock name params _ nodes => atBlock name params none (forgetSources nodes)

/-- The nodes without the places they were read from. -/
def forgetSources : List Node → List Node
  | [] => []
  | n :: ns => n.forgetSource :: forgetSources ns

end

end Node

/-- A style sheet: its statements, the text they were read from and the name of that text. -/
structure Sheet where
  nodes : List Node
  input : Option String
  name : Option String
deriving Repr

end FluidCss
