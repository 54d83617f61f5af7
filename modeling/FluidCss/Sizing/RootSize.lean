import FluidCss.Sizing.Declared

set_option autoImplicit false

/-! # The root font size of a document

A rule for the root element that gives it a font size in pixels fixes what a `rem` is for the rules
after it. -/

namespace FluidCss

open Text

/-- The root font size where the caller gives none. -/
def defaultRootFontSize : String := "16px"

/-- Whether a selector stands for the root element and nothing else. -/
def isRootSelector (selector : String) : Bool :=
  strip selector == ":root" || strip selector == "html"

/-- The last font size in pixels that declarations give; a fluid one has no single value. -/
def lastPixelSize {κ : Type} (current : String) (ds : List (Declared κ)) : String :=
  (Declared.named ds Property.fontSize.name).foldl
    (fun size d => if contains d.value "px" && !d.isFluid then d.value else size) current

/-- The root font size after a rule with the given declarations. -/
def rootFontSizeAfter {κ : Type} (selector : String) (ds : List (Declared κ)) (current : String) :
    String :=
  if isRootSelector selector then lastPixelSize current ds else current

end FluidCss
