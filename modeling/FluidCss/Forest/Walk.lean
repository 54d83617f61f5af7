import FluidCss.Forest.Edit

set_option autoImplicit false

/-! # Walking through a tree

The descendants of a node are met depth first in document order. `Forest.walk` lists them in a store
at rest. `Edit.walkWith` does something at each of them, which may change the store while the walk
goes on: the children of a container are looked up when the walk gets to it, after what is done at
the container itself. -/

namespace FluidCss

namespace Forest

/-- The nodes of a list and their descendants, at most `fuel` levels of them. -/
def walkFrom (f : Forest) : Nat → List NodeId → List NodeId
  | 0, _ => []
  | fuel + 1, ns => ns.flatMap fun n => n :: walkFrom f fuel (f.children n)

/-- The descendants of a node, depth first in document order. A store in which no node is its own
ancestor has no more levels than nodes. -/
def walk (f : Forest) (n : NodeId) : List NodeId := f.walkFrom (f.size + 1) (f.children n)

/-- The rules among the descendants of a node. -/
def rulesBelow (f : Forest) (n : NodeId) : List NodeId :=
  (f.walk n).filter fun m => (f.content m).isRule

/-- Whether a node is a declaration whose property name has the given property. -/
def declares (f : Forest) (named : String → Bool) (n : NodeId) : Bool :=
  match f.content n with
  | .declaration prop _ => named prop
  | _ => false

/-- The declarations among the descendants of a node whose property name has the given property. -/
def declarationsBelow (f : Forest) (named : String → Bool) (n : NodeId) : List NodeId :=
  (f.walk n).filter (f.declares named)

/-- The node that a node is below of, or is itself, and that is the top of a sheet. -/
def rootFrom (f : Forest) : Nat → NodeId → Option NodeId
  | 0, _ => none
  | fuel + 1, n =>
    if (f.content n).isRoot then some n
    else match f.parent n with
      | none => none
      | some parent => f.rootFrom fuel parent

/-- The top of the sheet that a node belongs to, if it belongs to one. -/
def root? (f : Forest) (n : NodeId) : Option NodeId := f.rootFrom (f.size + 1) n

end Forest

namespace Edit

/-- Does something at the nodes of a list and at their descendants, at most `fuel` levels of them,
and lists what it gives. -/
def walkListWith {α : Type} (visit : NodeId → Edit (List α)) : Nat → List NodeId → Edit (List α)
  | 0, _ => pure []
  | fuel + 1, ns => do
    let parts ← ns.mapM fun n => do
      let here ← visit n
      let below ← walkListWith visit fuel ((← get).children n)
      pure (here ++ below)
    pure parts.flatten

/-- Does something at each descendant of a node while walking through them. -/
def walkWith {α : Type} (visit : NodeId → Edit (List α)) (n : NodeId) : Edit (List α) := do
  let f ← get
  walkListWith visit (f.size + 1) (f.children n)

/-- Does something at each declaration below a node whose property name has the given property, and
lists the declarations met. The name is looked at when the walk gets to the declaration. -/
def walkDeclarationsWith (named : String → Bool) (visit : NodeId → Edit Unit) (n : NodeId) :
    Edit (List NodeId) :=
  walkWith (fun m => do
    if (← get).declares named m then
      visit m
      pure [m]
    else pure []) n

end Edit

end FluidCss
