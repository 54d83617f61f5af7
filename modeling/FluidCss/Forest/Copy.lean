import FluidCss.Forest.Edit

set_option autoImplicit false

/-! # Copying nodes

A copy of a node is detached and made of new nodes only, unless other children or another parent are
asked for. -/

namespace FluidCss

/-- What is to be different in a copy. -/
structure Overrides where
  /-- The change of what the node is. -/
  content : Content → Content := id
  /-- Another place that it was read from. -/
  source : Option (Option Position) := none
  /-- The container that the copy names as its parent; it does not list the copy. -/
  parent : Option NodeId := none
  /-- The children of the copy, in place of copies of the children. -/
  nodes : Option (List NodeId) := none

namespace Edit

/-- Copies a node with all its descendants, at most `fuel` levels of them. -/
def copyFrom : Nat → NodeId → Edit NodeId
  | 0, n => do
    let f ← get
    create (f.content n) (f.source n) []
  | fuel + 1, n => do
    let children ← ((← get).children n).mapM (copyFrom fuel)
    let f ← get
    create (f.content n) (f.source n) children

/-- Copies a node with all its descendants. -/
def copy (n : NodeId) : Edit NodeId := do copyFrom (← get).size n

/-- Copies a node with some things different. -/
def copyWith (n : NodeId) (overrides : Overrides) : Edit NodeId := do
  let children ← match overrides.nodes with
    | some nodes => pure nodes
    | none => do
      let f ← get
      (f.children n).mapM (copyFrom f.size)
  let f ← get
  let m ← create (overrides.content (f.content n)) (overrides.source.getD (f.source n)) children
  modify fun f => f.setParent m overrides.parent
  pure m

end Edit

end FluidCss
