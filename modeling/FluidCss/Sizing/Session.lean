import FluidCss.Forest.Edit
import FluidCss.Report

set_option autoImplicit false

/-! # Sessions

A sheet is expanded in a store, and what happens is reported on the way. -/

namespace FluidCss

/-- A store and what has been reported about it. -/
structure Session where
  forest : Forest
  report : Report
deriving Repr

/-- A computation that changes a store and reports; when it fails, both are kept as they are at that
point. -/
abbrev Run := EStateM Failure Session

namespace Run

/-- A rearrangement of the store as a step of a run. -/
def ofEdit {α : Type} (edit : Edit α) : Run α := fun s =>
  match edit s.forest with
  | .ok a forest => .ok a { s with forest }
  | .error e forest => .error (.edit e) { s with forest }

/-- A computation that reports as a step of a run. -/
def ofReporting {α : Type} (reporting : Reporting α) : Run α := fun s =>
  match reporting s.report with
  | .ok a report => .ok a { s with report }
  | .error e report => .error e { s with report }

end Run

end FluidCss
