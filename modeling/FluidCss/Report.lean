import FluidCss.Diagnostic
import FluidCss.Failure
import FluidCss.Sizing.Property

set_option autoImplicit false

/-! # What a run reports

While a sheet is expanded, warnings are collected and what happens is put down in a log. Both are
kept when the run fails. -/

namespace FluidCss

/-- Something that happens while a sheet is expanded. -/
inductive Event where
  /-- A rule for the root element sets the root font size. -/
  | rootSizeSet (size selector : String)
  /-- The bounds of a fluid declaration are known. -/
  | resolved (prop selector : String) (bounds : Bounds)
  /-- A fluid declaration has been expanded. -/
  | expanded (prop selector : String)
  /-- All expansions of a run are done. -/
  | applied (count : Nat)
deriving DecidableEq, Repr

namespace Event

/-- Whether the event is of interest only to someone who looks for a fault. -/
def isDetail : Event → Bool
  | expanded .. => false
  | _ => true

/-- The text of an event in the log. -/
def text : Event → String
  | rootSizeSet size selector => "Root font size set to " ++ size ++ " by " ++ Text.quoted selector
  | resolved prop selector bounds =>
    "Resolved " ++ prop ++ " on " ++ Text.quoted selector ++ ": " ++ bounds.describe
  | expanded prop selector => "Rewrote fluid " ++ prop ++ " on " ++ Text.quoted selector
  | applied count => "Applied " ++ toString count ++ " fluid rewrite(s)"

end Event

/-- The warnings and the log of a run, in order. -/
structure Report where
  warnings : List Diagnostic
  events : List Event
deriving DecidableEq, Repr

namespace Report

/-- The report of a run that has just begun. -/
def empty : Report := ⟨[], []⟩

end Report

/-- A computation that reports; when it fails, what it has reported is kept. -/
abbrev Reporting := EStateM Failure Report

namespace Reporting

/-- Reports a warning. -/
def warn (d : Diagnostic) : Reporting Unit :=
  modify fun r => { r with warnings := r.warnings ++ [d] }

/-- Puts an event down in the log. -/
def log (e : Event) : Reporting Unit :=
  modify fun r => { r with events := r.events ++ [e] }

end Reporting

end FluidCss
