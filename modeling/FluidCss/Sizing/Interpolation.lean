import FluidCss.Report
import FluidCss.Sheet.Node
import FluidCss.Sizing.Length

set_option autoImplicit false

/-! # Interpolation between two sizes

What takes the place of a fluid declaration: the declaration of a `calc()` that grows with the width
of the viewport, a custom property with the same value, and two media blocks that hold the size
fixed outside the two widths.

The `calc()` subtracts the smaller width from the width of the viewport, so the widths are needed in
a unit that goes with the unit of the sizes. -/

namespace FluidCss

open Number

/-- The name under which the pass reports. -/
def passName : String := "fluidtype"

/-- The rule that a fluid declaration belongs to, as far as errors, warnings and media blocks need
it. -/
structure Site where
  selector : String
  source : Option Position
  input : Option String
  name : Option String
deriving DecidableEq, Repr

namespace Site

/-- An error about the rule. -/
def error (s : Site) (reason : Reason) : CssError :=
  ⟨reason, s.source.map (·.line), s.source.map (·.column), s.input, s.name, some passName⟩

/-- A warning about the rule. -/
def warning (s : Site) (text : String) : Diagnostic :=
  .warning passName text (some s.selector) s.source

end Site

/-- The difference of the sizes. -/
def Bounds.sizeDifference (b : Bounds) : Binary64 := magnitude b.maxSize - magnitude b.minSize

/-- The difference of the widths. -/
def Bounds.widthDifference (b : Bounds) : Binary64 := magnitude b.maxWidth - magnitude b.minWidth

/-- The `calc()` that is the smaller size at the smaller width and the larger size at the larger
width. -/
def Bounds.expression (b : Bounds) : String :=
  "calc(" ++ b.minSize ++ " + " ++ b.sizeDifference.toText ++ " * ((100vw - " ++ b.minWidth ++
    ") / " ++ b.widthDifference.toText ++ "))"

/-- What takes the place of a fluid declaration of a property. -/
structure Interpolation where
  prop : String
  bounds : Bounds
  /-- The bounds with their widths in a unit that goes with the sizes. -/
  scaled : Bounds
  /-- The rule that is held fixed outside the widths, and where it was read from. -/
  selector : String
  source : Option Position
deriving DecidableEq, Repr

namespace Interpolation

/-- The name of the custom property that goes with a property. -/
def variableName (prop : String) : String := "--" ++ prop

/-- The value that grows with the viewport. -/
def expression (i : Interpolation) : String := i.scaled.expression

/-- The declaration that grows with the viewport. -/
def fluidDeclaration (i : Interpolation) : Node := .declaration i.prop i.expression none

/-- The custom property with the same value. -/
def variableDeclaration (i : Interpolation) : Node :=
  .declaration (variableName i.prop) i.expression none

/-- The condition for widths up to the smaller one. -/
def minQuery (i : Interpolation) : String :=
  "screen and (max-width: " ++ i.bounds.minWidth ++ ")"

/-- The condition for widths from the larger one on. -/
def maxQuery (i : Interpolation) : String :=
  "screen and (min-width: " ++ i.bounds.maxWidth ++ ")"

/-- The block that holds the size fixed where a condition on the width of the viewport is met. -/
def media (i : Interpolation) (query size : String) : Node :=
  .atBlock "media" query none
    [.rule i.selector i.source
      [.declaration i.prop size none, .declaration (variableName i.prop) size none]]

/-- The block for widths up to the smaller one. -/
def minMedia (i : Interpolation) : Node := i.media i.minQuery i.bounds.minSize

/-- The block for widths from the larger one on. -/
def maxMedia (i : Interpolation) : Node := i.media i.maxQuery i.bounds.maxSize

/-- The bounds with their widths in a unit that goes with the sizes. Pixels become a multiple of the
root font size where the sizes are in `rem`; where no unit fits, there is a warning and the widths
stay as they are. -/
def reconcile (site : Site) (b : Bounds) (sizeUnit widthUnit : Option LengthUnit)
    (rootFontSize : String) : Reporting Bounds :=
  if sizeUnit = some .rem ∧ widthUnit = some .px then
    match pxToRem? b.minWidth rootFontSize, pxToRem? b.maxWidth rootFontSize with
    | some lower, some upper => pure { b with minWidth := lower, maxWidth := upper }
    | _, _ => throw .divisionByZero
  else if sizeUnit = widthUnit ∨ (sizeUnit = some .rem ∧ widthUnit = some .em) then pure b
  else do
    Reporting.warn (site.warning "this combination of units is not supported")
    pure b

/-- The interpolation for a property on a rule. It is refused where the smaller size has no unit,
and there is a warning where the units of the two sizes or of the two widths differ. -/
def build (site : Site) (prop : String) (b : Bounds) (rootFontSize : String) :
    Reporting Interpolation := do
  let sizeUnit := LengthUnit.of? b.minSize
  let widthUnit := LengthUnit.of? b.minWidth
  if sizeUnit = none then throw (.css (site.error .unitlessSize))
  if sizeUnit ≠ LengthUnit.of? b.maxSize ∨ widthUnit ≠ LengthUnit.of? b.maxWidth then
    Reporting.warn (site.warning "min/max unit types must match")
  let scaled ← reconcile site b sizeUnit widthUnit rootFontSize
  pure ⟨prop, b, scaled, site.selector, site.source⟩

end Interpolation

end FluidCss
