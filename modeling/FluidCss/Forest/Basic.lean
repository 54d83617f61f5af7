import FluidCss.Sheet.Position

set_option autoImplicit false

/-! # Nodes with identities

A store of nodes that can be rearranged. Each node has an identity of its own, so that two
declarations that look the same stay apart, and each knows its parent and the list of its children.
The links are data like any other: nothing in the type says that a node is listed by the parent it
names, and every operation is defined on stores where it is not. `Forest.WellFormed` is the property
of those stores in which the links agree. -/

namespace FluidCss

/-- The identity of a node: its place in the store. -/
abbrev NodeId := Nat

/-- What a node is, apart from its place among other nodes. -/
inductive Content where
  | declaration (prop value : String)
  | rule (selector : String)
  | atRule (name params : String) (bodyless : Bool)
  /-- The top of a sheet, with the text it was read from and the name of that text. -/
  | root (input name : Option String)
deriving DecidableEq, Repr

namespace Content

/-- Whether the node is a declaration. -/
def isDeclaration : Content → Bool
  | declaration .. => true
  | _ => false

/-- Whether the node is a rule. -/
def isRule : Content → Bool
  | rule .. => true
  | _ => false

/-- Whether the node is the top of a sheet. -/
def isRoot : Content → Bool
  | root .. => true
  | _ => false

/-- The property name of a declaration. -/
def prop? : Content → Option String
  | declaration prop _ => some prop
  | _ => none

/-- The property name of a declaration; the empty text for any other node. -/
def prop (c : Content) : String := c.prop?.getD ""

/-- The value of a declaration; the empty text for any other node. -/
def value : Content → String
  | declaration _ value => value
  | _ => ""

/-- The selector of a rule. -/
def selector? : Content → Option String
  | rule selector => some selector
  | _ => none

/-- The selector of a rule; the empty text for any other node. -/
def selector (c : Content) : String := c.selector?.getD ""

/-! ## Changing one field

A node that does not have the field is left as it is. -/

/-- The declaration with another property name. -/
def withProp (c : Content) (prop : String) : Content :=
  match c with
  | declaration _ value => declaration prop value
  | other => other

/-- The declaration with another value. -/
def withValue (c : Content) (value : String) : Content :=
  match c with
  | declaration prop _ => declaration prop value
  | other => other

/-- The rule with another selector. -/
def withSelector (c : Content) (selector : String) : Content :=
  match c with
  | rule _ => rule selector
  | other => other

/-- The at-rule with another name. -/
def withName (c : Content) (name : String) : Content :=
  match c with
  | atRule _ params bodyless => atRule name params bodyless
  | other => other

/-- The at-rule with other parameters. -/
def withParams (c : Content) (params : String) : Content :=
  match c with
  | atRule name _ bodyless => atRule name params bodyless
  | other => other

/-- The at-rule with or without a block. -/
def withBodyless (c : Content) (bodyless : Bool) : Content :=
  match c with
  | atRule name params _ => atRule name params bodyless
  | other => other

end Content

/-- A node of a store: what it is, where it was read from, and its links. -/
structure Cell where
  content : Content
  source : Option Position
  parent : Option NodeId
  children : List NodeId
deriving DecidableEq, Repr

namespace Cell

/-- What is read at an identity that no node has. -/
def absent : Cell := ⟨.declaration "" "", none, none, []⟩

end Cell

/-- A store of nodes. -/
structure Forest where
  cells : Array Cell
deriving Repr

namespace Forest

/-- The store without nodes. -/
def empty : Forest := ⟨#[]⟩

/-- How many nodes have been made. -/
def size (f : Forest) : Nat := f.cells.size

/-- The node with an identity. -/
def cell (f : Forest) (n : NodeId) : Cell := f.cells[n]?.getD Cell.absent

/-- What a node is. -/
def content (f : Forest) (n : NodeId) : Content := (f.cell n).content

/-- Where a node was read from. -/
def source (f : Forest) (n : NodeId) : Option Position := (f.cell n).source

/-- The container that a node says it is in. -/
def parent (f : Forest) (n : NodeId) : Option NodeId := (f.cell n).parent

/-- The children of a node, in order. -/
def children (f : Forest) (n : NodeId) : List NodeId := (f.cell n).children

/-- The store with one node changed. -/
def update (f : Forest) (n : NodeId) (change : Cell → Cell) : Forest :=
  ⟨f.cells.modify n change⟩

@[simp]
theorem size_update (f : Forest) (n : NodeId) (change : Cell → Cell) :
    (f.update n change).size = f.size := by simp [update, size]

/-- A change of one node shows at that node, if there is one, and nowhere else. -/
theorem cell_update (f : Forest) (n m : NodeId) (change : Cell → Cell) :
    (f.update n change).cell m = if n = m ∧ n < f.size then change (f.cell m) else f.cell m := by
  by_cases hnm : n = m
  · subst hnm
    by_cases hn : n < f.size
    · have hn' : n < f.cells.size := hn
      simp [update, cell, size, Array.getElem_modify_self, hn']
    · have hn' : ¬ n < f.cells.size := hn
      simp [update, cell, size, hn']
  · simp [update, cell, Array.getElem?_modify, hnm]

/-- The store in which a node says it is in another container, or in none. -/
def setParent (f : Forest) (n : NodeId) (parent : Option NodeId) : Forest :=
  f.update n fun c => { c with parent }

/-- The store in which a node lists other children. -/
def setChildren (f : Forest) (n : NodeId) (children : List NodeId) : Forest :=
  f.update n fun c => { c with children }

/-- The store in which a node was read from another place. -/
def setSource (f : Forest) (n : NodeId) (source : Option Position) : Forest :=
  f.update n fun c => { c with source }

/-- The store in which what a node is has changed. -/
def modifyContent (f : Forest) (n : NodeId) (change : Content → Content) : Forest :=
  f.update n fun c => { c with content := change c.content }

/-! ## What a change leaves alone -/

@[simp]
theorem size_setParent (f : Forest) (n : NodeId) (parent : Option NodeId) :
    (f.setParent n parent).size = f.size := size_update _ _ _

@[simp]
theorem size_setChildren (f : Forest) (n : NodeId) (children : List NodeId) :
    (f.setChildren n children).size = f.size := size_update _ _ _

@[simp]
theorem content_setParent (f : Forest) (n m : NodeId) (parent : Option NodeId) :
    (f.setParent n parent).content m = f.content m := by
  simp only [content, setParent, cell_update]
  split <;> rfl

@[simp]
theorem source_setParent (f : Forest) (n m : NodeId) (parent : Option NodeId) :
    (f.setParent n parent).source m = f.source m := by
  simp only [source, setParent, cell_update]
  split <;> rfl

@[simp]
theorem children_setParent (f : Forest) (n m : NodeId) (parent : Option NodeId) :
    (f.setParent n parent).children m = f.children m := by
  simp only [children, setParent, cell_update]
  split <;> rfl

theorem parent_setParent (f : Forest) (n m : NodeId) (parent : Option NodeId) :
    (f.setParent n parent).parent m = if n = m ∧ n < f.size then parent else f.parent m := by
  simp only [Forest.parent, setParent, cell_update]
  split <;> rfl

@[simp]
theorem content_setChildren (f : Forest) (n m : NodeId) (children : List NodeId) :
    (f.setChildren n children).content m = f.content m := by
  simp only [content, setChildren, cell_update]
  split <;> rfl

@[simp]
theorem source_setChildren (f : Forest) (n m : NodeId) (children : List NodeId) :
    (f.setChildren n children).source m = f.source m := by
  simp only [source, setChildren, cell_update]
  split <;> rfl

@[simp]
theorem parent_setChildren (f : Forest) (n m : NodeId) (children : List NodeId) :
    (f.setChildren n children).parent m = f.parent m := by
  simp only [parent, setChildren, cell_update]
  split <;> rfl

theorem children_setChildren (f : Forest) (n m : NodeId) (children : List NodeId) :
    (f.setChildren n children).children m =
      if n = m ∧ n < f.size then children else f.children m := by
  simp only [Forest.children, setChildren, cell_update]
  split <;> rfl

/-- The store with a new node at its end. -/
def push (f : Forest) (c : Cell) : Forest := ⟨f.cells.push c⟩

@[simp]
theorem size_push (f : Forest) (c : Cell) : (f.push c).size = f.size + 1 := by
  simp [push, size]

/-- A new node is found at the end, and all others where they were. -/
theorem cell_push (f : Forest) (c : Cell) (m : NodeId) :
    (f.push c).cell m = if m = f.size then c else f.cell m := by
  by_cases h : m = f.size
  · simp [push, cell, size, h]
  · have h' : m ≠ f.cells.size := h
    simp [push, cell, h, Array.getElem?_push, h']

/-- Makes a node that lists the given children, and tells each of them that it is their parent. A
child that was listed elsewhere before stays listed there too. -/
def add (f : Forest) (content : Content) (source : Option Position) (children : List NodeId) :
    NodeId × Forest :=
  let n := f.size
  (n, children.foldl (fun g child => g.setParent child (some n))
    (f.push ⟨content, source, none, children⟩))

/-- Whether the links of the store agree: a node is listed by a container exactly if that container
is its parent, no container lists a node twice, and no chain of parents comes back to its start. -/
structure WellFormed (f : Forest) : Prop where
  listed_iff : ∀ n m, n ∈ f.children m ↔ f.parent n = some m
  nodup : ∀ m, (f.children m).Nodup
  acyclic : ∃ rank : NodeId → Nat, ∀ n m, f.parent n = some m → rank n < rank m

end Forest

end FluidCss
