import FluidCss.Forest.Describe

set_option autoImplicit false

/-! # Rearranging nodes

The operations that move nodes between containers. Each is a sequence of small steps on the store,
and a step that fails leaves behind what the steps before it have done. On a well-formed store only
the operations that are told a place can fail: the node that marks the place may not be there. -/

namespace FluidCss

/-- Why a rearrangement fails. -/
inductive EditError where
  /-- The node, whose description is given, is not among the children of the container. -/
  | notAChild (description : String)
  /-- A node without a parent cannot be replaced. -/
  | noParent
  /-- The fluid declaration to be expanded has no parent. -/
  | declarationDetached
  /-- The rule of a fluid declaration has no parent. -/
  | ruleDetached
deriving DecidableEq, Repr

/-- The message of a failure. -/
def EditError.message : EditError → String
  | notAChild description => description ++ " is not a child of this container"
  | noParent => "Cannot replace a node that has no parent"
  | declarationDetached => "Fluid declaration is not attached to a rule"
  | ruleDetached => "Rule is not attached to a style sheet"

/-- A rearrangement of a store. When it fails, the store is the one reached so far. -/
abbrev Edit := EStateM EditError Forest

/-- The list with `x` put in front of its element at `place`, or at its end if it is shorter. -/
def insertAt {α : Type} (place : Nat) (x : α) (xs : List α) : List α :=
  xs.take place ++ x :: xs.drop place

namespace Edit

/-- Makes a node that lists the given children. -/
def create (content : Content) (source : Option Position) (children : List NodeId) : Edit NodeId :=
  modifyGet fun f => f.add content source children

/-- The place of a node among the children of a container. -/
def indexOf (container child : NodeId) : Edit Nat := do
  let f ← get
  match (f.children container).idxOf? child with
  | some place => pure place
  | none => throw (.notAChild (f.describe child))

/-- Takes a node out of the container that lists it. -/
def removeChild (container child : NodeId) : Edit Unit := do
  let place ← indexOf container child
  modify fun f =>
    (f.setChildren container ((f.children container).eraseIdx place)).setParent child none

/-- Takes a node out of its parent, if it has one. -/
def remove (n : NodeId) : Edit Unit := do
  match (← get).parent n with
  | some parent => removeChild parent n
  | none => pure ()

/-- Takes a node out of its parent and gives it to another container, which does not list it
yet. -/
def adopt (container n : NodeId) : Edit Unit := do
  remove n
  modify fun f => f.setParent n (some container)

/-- Puts nodes at the end of a container, one after the other. -/
def append (container : NodeId) : List NodeId → Edit Unit
  | [] => pure ()
  | n :: rest => do
    adopt container n
    modify fun f => f.setChildren container (f.children container ++ [n])
    append container rest

/-- Gives nodes to a container and puts them at consecutive places of it. The places count in the
list as it is at each step. -/
def insertFrom (container : NodeId) : Nat → List NodeId → Edit Unit
  | _, [] => pure ()
  | place, n :: rest => do
    adopt container n
    modify fun f => f.setChildren container (insertAt place n (f.children container))
    insertFrom container (place + 1) rest

/-- Puts nodes behind a child of a container. The place is looked up once, before any node is
moved. -/
def insertAfter (container child : NodeId) (nodes : List NodeId) : Edit Unit := do
  let place ← indexOf container child
  insertFrom container (place + 1) nodes

/-- Puts nodes where a node is and takes it out. -/
def replaceWith (n : NodeId) (nodes : List NodeId) : Edit Unit := do
  match (← get).parent n with
  | none => throw .noParent
  | some parent => do
    insertAfter parent n nodes
    remove n

/-- Changes what a node is. -/
def modifyContent (n : NodeId) (change : Content → Content) : Edit Unit :=
  modify fun f => f.modifyContent n change

/-- Changes where a node was read from. -/
def setSource (n : NodeId) (source : Option Position) : Edit Unit :=
  modify fun f => f.setSource n source

end Edit

end FluidCss
