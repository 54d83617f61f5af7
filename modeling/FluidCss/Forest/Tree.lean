import FluidCss.Forest.Walk
import FluidCss.Sheet.Printer

set_option autoImplicit false

/-! # Trees in a store

How the tree of a sheet is put into a store and read back from it. The two views differ in what they
can express: a store may have the top of a sheet below another node, which no tree of a sheet has
and which cannot be printed, and it may have children of a node that has no block, which are not
part of the tree. -/

namespace FluidCss

namespace Node

mutual

/-- Puts a node with its children into a store. -/
def store (f : Forest) : Node → NodeId × Forest
  | declaration prop value source => f.add (.declaration prop value) source []
  | rule selector source nodes =>
    let (children, g) := storeAll f nodes
    g.add (.rule selector) source children
  | atStatement name params source => f.add (.atRule name params true) source []
  | atBlock name params source nodes =>
    let (children, g) := storeAll f nodes
    g.add (.atRule name params false) source children

/-- Puts nodes into a store, one after the other. -/
def storeAll (f : Forest) : List Node → List NodeId × Forest
  | [] => ([], f)
  | n :: ns =>
    let (id, g) := n.store f
    let (ids, h) := storeAll g ns
    (id :: ids, h)

end

end Node

/-- Puts a sheet into a store. -/
def Sheet.store (sheet : Sheet) (f : Forest) : NodeId × Forest :=
  let (children, g) := Node.storeAll f sheet.nodes
  g.add (.root sheet.input sheet.name) none children

namespace Edit

/-- Puts a sheet into the store. -/
def addSheet (sheet : Sheet) : Edit NodeId := modifyGet sheet.store

end Edit

namespace Forest

/-- The tree below a node that is not the top of a sheet. -/
def nodeFrom (f : Forest) : Nat → NodeId → Option Node
  | 0, _ => none
  | fuel + 1, n =>
    match f.content n with
    | .declaration prop value => some (.declaration prop value (f.source n))
    | .rule selector =>
      ((f.children n).mapM (nodeFrom f fuel)).map (.rule selector (f.source n))
    | .atRule name params true => some (.atStatement name params (f.source n))
    | .atRule name params false =>
      ((f.children n).mapM (nodeFrom f fuel)).map (.atBlock name params (f.source n))
    | .root .. => none

/-- The trees of the children of a node. -/
def nodesBelow? (f : Forest) (n : NodeId) : Option (List Node) :=
  (f.children n).mapM (f.nodeFrom (f.size + 1))

/-- The text of the children of a container as statements of a sheet. There is none if the top of a
sheet is among its descendants. -/
def toCss? (f : Forest) (n : NodeId) : Option String := (f.nodesBelow? n).map Node.toCss

end Forest

end FluidCss
