import FluidCss.Text.Quoted

set_option autoImplicit false

/-! # Fluid properties and their bounds

A fluid size grows with the width of the viewport between two widths, from one size to another. The
four bounds are kept as the texts that the sheet gives for them. Three properties can be fluid, and
each has declarations of its own by which a rule sets the bounds. -/

namespace FluidCss

open Text

/-- One of the four bounds. -/
inductive Bound where
  | minSize
  | maxSize
  | minWidth
  | maxWidth
deriving DecidableEq, Repr

/-- All bounds, sizes first. -/
def Bound.all : List Bound := [minSize, maxSize, minWidth, maxWidth]

/-- The sizes at the two ends and the widths where the growth begins and ends. -/
structure Bounds where
  minSize : String
  maxSize : String
  minWidth : String
  maxWidth : String
deriving DecidableEq, Repr

namespace Bounds

/-- One of the four texts. -/
def get (b : Bounds) : Bound → String
  | .minSize => b.minSize
  | .maxSize => b.maxSize
  | .minWidth => b.minWidth
  | .maxWidth => b.maxWidth

/-- The bounds with one text replaced. -/
def set (b : Bounds) (bound : Bound) (text : String) : Bounds :=
  match bound with
  | .minSize => { b with minSize := text }
  | .maxSize => { b with maxSize := text }
  | .minWidth => { b with minWidth := text }
  | .maxWidth => { b with maxWidth := text }

theorem get_set (b : Bounds) (i j : Bound) (text : String) :
    (b.set i text).get j = if i = j then text else b.get j := by
  cases i <;> cases j <;> rfl

/-- The bounds as the log shows them. -/
def describe (b : Bounds) : String :=
  "ParameterSet(min_size=" ++ quoted b.minSize ++ ", max_size=" ++ quoted b.maxSize ++
    ", min_width=" ++ quoted b.minWidth ++ ", max_width=" ++ quoted b.maxWidth ++ ")"

end Bounds

/-- A property that can be fluid. -/
inductive Property where
  | fontSize
  | lineHeight
  | letterSpacing
deriving DecidableEq, Repr

namespace Property

/-- All fluid properties. -/
def all : List Property := [fontSize, lineHeight, letterSpacing]

/-- The name of a property. -/
def name : Property → String
  | fontSize => "font-size"
  | lineHeight => "line-height"
  | letterSpacing => "letter-spacing"

/-- The property with a name. -/
def ofName? (s : String) : Option Property := all.find? fun p => p.name == s

theorem ofName?_name (p : Property) : ofName? p.name = some p := by cases p <;> decide

theorem name_of_ofName? (s : String) (p : Property) (h : ofName? s = some p) : p.name = s := by
  have := List.find?_some h
  simpa using this

/-- The declaration that sets both widths. -/
def range : Property → String
  | fontSize => "font-range"
  | lineHeight => "line-height-range"
  | letterSpacing => "letter-spacing-range"

/-- The declaration that sets one bound. -/
def longhand : Property → Bound → String
  | fontSize, .minSize => "min-font-size"
  | fontSize, .maxSize => "max-font-size"
  | fontSize, .minWidth => "lower-font-range"
  | fontSize, .maxWidth => "upper-font-range"
  | lineHeight, .minSize => "min-line-height"
  | lineHeight, .maxSize => "max-line-height"
  | lineHeight, .minWidth => "lower-line-height-range"
  | lineHeight, .maxWidth => "upper-line-height-range"
  | letterSpacing, .minSize => "min-letter-spacing"
  | letterSpacing, .maxSize => "max-letter-spacing"
  | letterSpacing, .minWidth => "lower-letter-spacing-range"
  | letterSpacing, .maxWidth => "upper-letter-spacing-range"

/-- The bounds of a property where neither the sheet nor the caller gives any. -/
def builtin : Property → Bounds
  | fontSize => ⟨"12px", "21px", "420px", "1280px"⟩
  | lineHeight => ⟨"1.2em", "1.8em", "420px", "1280px"⟩
  | letterSpacing => ⟨"0px", "4px", "420px", "1280px"⟩

/-- The bounds of a property where the sheet gives none and the caller gives those of some
properties. -/
def orBuiltin (given : Property → Option Bounds) (p : Property) : Bounds := (given p).getD p.builtin

end Property

end FluidCss
