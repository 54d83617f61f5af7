import FluidCss.Forest.Tree
import FluidCss.Sizing.Expansion

set_option autoImplicit false

/-! # Runs

Expanding all fluid declarations of a sheet: the expansions are planned, and then carried out one
after the other. -/

namespace FluidCss

namespace Run

/-- Carries out expansions, one after the other. -/
def expandAll : List Expansion → Run Unit
  | [] => pure ()
  | r :: rest => do
    let event ← ofEdit (Edit.expand r.rule r.decl r.placed r.spent)
    ofReporting (Reporting.log event)
    expandAll rest

/-- Expands all fluid declarations of a sheet. -/
def apply (options : Options) (root : NodeId) : Run Unit := do
  let expansions ← plan options root
  expandAll expansions
  ofReporting (Reporting.log (.applied expansions.length))

/-- Expands a sheet several times, each time with options of its own. -/
def applyAll (passes : List Options) (root : NodeId) : Run Unit :=
  passes.forM fun options => apply options root

/-- The text of the sheet. -/
def render (root : NodeId) : Run String := do
  match (← get).forest.toCss? root with
  | some css => pure css
  | none => throw .nestedRoot

end Run

end FluidCss
