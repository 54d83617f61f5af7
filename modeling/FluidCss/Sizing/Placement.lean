import FluidCss.Forest.Copy
import FluidCss.Sizing.Interpolation

set_option autoImplicit false

/-! # Placing an expansion in a sheet

The nodes of an interpolation are made before any of them is put into the sheet. An expansion then
takes effect in four steps: the declarations that only set bounds are taken out; the
custom property is put behind the fluid declaration and the `calc()` in its place; and the two media
blocks are put behind the rule, the one for large widths directly behind it. -/

namespace FluidCss

/-- The nodes of an interpolation in a store. -/
structure Placed where
  fluidDecl : NodeId
  variableDecl : NodeId
  minMedia : NodeId
  maxMedia : NodeId
deriving DecidableEq, Repr

/-- Makes a media block that holds a property of a rule at a size: what is in it is a copy of the
rule with other declarations. -/
def Edit.mediaBlock (rule : NodeId) (query prop size : String) : Edit NodeId := do
  let held ← create (.declaration prop size) none []
  let mirror ← create (.declaration (Interpolation.variableName prop) size) none []
  let target ← copyWith rule { nodes := some [held, mirror] }
  create (.atRule "media" query false) none [target]

/-- Makes the nodes of an interpolation for a rule, not yet below any other node. -/
def Interpolation.place (i : Interpolation) (rule : NodeId) : Edit Placed := do
  let fluidDecl ← Edit.create (.declaration i.prop i.expression) none []
  let variableDecl ← Edit.create (.declaration (variableName i.prop) i.expression) none []
  let minMedia ← Edit.mediaBlock rule i.minQuery i.prop i.bounds.minSize
  let maxMedia ← Edit.mediaBlock rule i.maxQuery i.prop i.bounds.maxSize
  pure ⟨fluidDecl, variableDecl, minMedia, maxMedia⟩

namespace Edit

/-- Takes nodes out of their parents. -/
def removeAll : List NodeId → Edit Unit
  | [] => pure ()
  | n :: rest => do
    remove n
    removeAll rest

/-- Puts the nodes of an interpolation in the place of a fluid declaration of a rule. -/
def expand (rule decl : NodeId) (output : Placed) (spent : List NodeId) : Edit Event := do
  removeAll spent
  let source := (← get).source decl
  setSource output.fluidDecl source
  setSource output.variableDecl source
  match (← get).parent decl with
  | none => throw .declarationDetached
  | some container => do
    insertAfter container decl [output.variableDecl]
    replaceWith decl [output.fluidDecl]
  match (← get).parent rule with
  | none => throw .ruleDetached
  | some parent => do
    insertAfter parent rule [output.minMedia]
    insertAfter parent rule [output.maxMedia]
  let f ← get
  pure (.expanded (f.content decl).prop (f.content rule).selector)

end Edit

end FluidCss
