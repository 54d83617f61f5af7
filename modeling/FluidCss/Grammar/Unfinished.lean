import FluidCss.Grammar.Token
import FluidCss.Sheet.Node

set_option autoImplicit false

/-! # Style sheets that are being read

What is known of a style sheet in the middle of its text: the blocks that are open, the nodes read
so far in each, the statement that has been started, and hence the kinds of tokens that are tried
next. `Unfinished.step` takes in one more token, and refuses a token that the grammar does not
allow there.

After the end of a declaration or of a statement the same kinds are tried wherever that end stands,
so a kind that is tried may still be refused: a selector inside a rule, or a semicolon between the
statements of the sheet. -/

namespace FluidCss

open Text

/-- What stands before the block of a rule or an at-rule. -/
inductive Header where
  | rule (selector : String)
  | atRule (name params : String)
deriving DecidableEq, Repr

/-- The node with the given header and block. -/
def Header.node (h : Header) (source : Position) (nodes : List Node) : Node :=
  match h with
  | rule selector => .rule selector (some source) nodes
  | atRule name params => .atBlock name params (some source) nodes

/-- A block that has been opened, with the nodes that stand before it in the block around it, the
last one first. -/
structure OpenBlock where
  header : Header
  source : Position
  before : List Node
deriving Repr

/-- What has been read of the statement or declaration at hand. -/
inductive Pending where
  /-- Nothing has been read at all. -/
  | beginning
  /-- The opening brace of a rule or a semicolon in it has been read. -/
  | ruleBody
  /-- A declaration, a statement, or a semicolon outside of rules has ended. -/
  | item
  /-- The selector of a rule. -/
  | selector (selector : String) (source : Position)
  /-- The name of a declaration. -/
  | property (prop : String) (source : Position)
  /-- The name of a declaration and the colon. -/
  | value (prop : String) (source : Position)
  /-- The name of an at-rule. -/
  | keyword (name : String) (source : Position)
  /-- The name of an at-rule and its parameters. -/
  | params (name params : String) (source : Position)
deriving DecidableEq, Repr

/-- The kinds of tokens that go on with what has been read. -/
def Pending.terminals : Pending → List Terminal
  | beginning => [.selector, .atKeyword]
  | ruleBody => [.property, .semicolon, .closeBrace]
  | item => [.selector, .property, .atKeyword, .semicolon, .closeBrace]
  | selector .. => [.openBrace]
  | property .. => [.colon]
  | value .. => [.value]
  | keyword .. => [.atParams, .openBrace, .semicolon]
  | params .. => [.openBrace, .semicolon]

/-- A style sheet that is being read: the nodes read so far in the innermost open block, or of the
sheet if no block is open, the last one first; the open blocks, the innermost one first; and the
statement at hand. -/
structure Unfinished where
  nodes : List Node
  blocks : List OpenBlock
  pending : Pending
deriving Repr

namespace Unfinished

/-- The sheet of which nothing has been read. -/
def empty : Unfinished := ⟨[], [], .beginning⟩

/-- Whether the innermost open block belongs to a rule. -/
def inRule (u : Unfinished) : Bool :=
  match u.blocks with
  | ⟨.rule _, _, _⟩ :: _ => true
  | _ => false

/-- Whether no block is open. -/
def atTop (u : Unfinished) : Bool := u.blocks.isEmpty

/-- The kinds of tokens that are tried next, in order. -/
def terminals (u : Unfinished) : List Terminal := Terminal.triedWith u.pending.terminals

/-- The sheet with another node at its end. -/
def push (u : Unfinished) (n : Node) : Unfinished := ⟨n :: u.nodes, u.blocks, .item⟩

/-- The sheet with another block open. -/
def openBlock (u : Unfinished) (header : Header) (source : Position) : Unfinished :=
  let pending := match header with
    | .rule _ => .ruleBody
    | .atRule .. => .item
  ⟨[], ⟨header, source, u.nodes⟩ :: u.blocks, pending⟩

/-- The sheet with its innermost block closed. -/
def closeBlock? (u : Unfinished) : Option Unfinished :=
  match u.blocks with
  | [] => none
  | ⟨header, source, before⟩ :: outer =>
    some ⟨header.node source u.nodes.reverse :: before, outer, .item⟩

/-- What a semicolon leaves of a block that goes on. -/
def skipSemicolon? (u : Unfinished) : Option Unfinished :=
  if u.atTop then none
  else some { u with pending := if u.inRule then .ruleBody else .item }

/-- The sheet after one more token, unless the token cannot stand there. -/
def step (u : Unfinished) (t : Token) : Option Unfinished :=
  let text := String.ofList t.lexeme
  match u.pending, t.terminal with
  | .beginning, .selector | .item, .selector =>
    if u.inRule then none else some { u with pending := .selector (strip text) t.position }
  | .beginning, .atKeyword | .item, .atKeyword =>
    if u.inRule then none
    else some { u with pending := .keyword (String.ofList t.lexeme.tail) t.position }
  | .ruleBody, .property | .item, .property =>
    if u.atTop then none else some { u with pending := .property text t.position }
  | .ruleBody, .semicolon | .item, .semicolon => u.skipSemicolon?
  | .ruleBody, .closeBrace | .item, .closeBrace => u.closeBlock?
  | .selector selector source, .openBrace => some (u.openBlock (.rule selector) source)
  | .property prop source, .colon => some { u with pending := .value prop source }
  | .value prop source, .value => some (u.push (.declaration prop (strip text) (some source)))
  | .keyword name source, .atParams => some { u with pending := .params name (strip text) source }
  | .keyword name source, .openBrace => some (u.openBlock (.atRule name "") source)
  | .keyword name source, .semicolon => some (u.push (.atStatement name "" (some source)))
  | .params name params source, .openBrace => some (u.openBlock (.atRule name params) source)
  | .params name params source, .semicolon => some (u.push (.atStatement name params (some source)))
  | _, _ => none

/-- The nodes of the sheet if the text may end here. -/
def finish? (u : Unfinished) : Option (List Node) :=
  match u.pending with
  | .beginning | .item => if u.atTop then some u.nodes.reverse else none
  | _ => none

end Unfinished

end FluidCss
