import FluidCss.Grammar.Printable
import FluidCss.Sizing.Expanded

set_option autoImplicit false

/-! # The fluid sizes that a sheet asks for

What decides whether a sheet can be expanded can be read off its tree: the fluid sizes that its rules
ask for, in document order, each with its bounds and the root font size that holds for its rule. A
fluid size is refused if its smaller size has no unit; and its widths cannot be converted if the root
font size is zero. -/

namespace FluidCss

/-- A rule as far as its fluid sizes depend on it. -/
structure RuleBody where
  site : Site
  declared : List (Declared Unit)

namespace Node

mutual

/-- The rules that a node of the text `input` is or has in its block, in document order. -/
def ruleBodies (input name : Option String) : Node → List RuleBody
  | declaration .. => []
  | rule selector source nodes => [⟨⟨selector, source, input, name⟩, declared nodes⟩]
  | atStatement .. => []
  | atBlock _ _ _ nodes => ruleBodiesAll input name nodes

/-- The rules among nodes of the text `input` and in their blocks, in document order. -/
def ruleBodiesAll (input name : Option String) : List Node → List RuleBody
  | [] => []
  | n :: ns => n.ruleBodies input name ++ ruleBodiesAll input name ns

end

theorem ruleBodiesAll_append (input name : Option String) (ns ms : List Node) :
    ruleBodiesAll input name (ns ++ ms) =
      ruleBodiesAll input name ns ++ ruleBodiesAll input name ms := by
  induction ns with
  | nil => rfl
  | cons n ns ih => rw [List.cons_append, ruleBodiesAll, ruleBodiesAll, ih, List.append_assoc]

end Node

namespace Bounds

/-- Whether the widths are given in pixels and needed as multiples of the root font size. -/
def convertsWidths (b : Bounds) : Bool :=
  LengthUnit.of? b.minSize == some .rem && LengthUnit.of? b.minWidth == some .px

/-- Whether the texts of the bounds can be copied into what takes the place of a fluid declaration:
where they become values or parts of one, they end where they should and do not ask for a fluid size;
in the conditions of the media blocks, they have no delimiter. The smaller width does not become a
part of a value if it is converted. -/
structure IsCopyable (b : Bounds) : Prop where
  minSize_closed : IsValueText b.minSize.toList
  maxSize_closed : IsValueText b.maxSize.toList
  minSize_not_fluid : Text.contains b.minSize "fluid" = false
  maxSize_not_fluid : Text.contains b.maxSize "fluid" = false
  minWidth_plain : b.minWidth.toList.all Terminal.isPlain = true
  maxWidth_plain : b.maxWidth.toList.all Terminal.isPlain = true
  minWidth_closed : b.convertsWidths = false → IsValueText ('(' :: (b.minWidth.toList ++ [')']))
  minWidth_not_fluid : b.convertsWidths = false → Text.contains b.minWidth "fluid" = false

end Bounds

/-- A fluid size that a rule asks for. -/
structure FluidSize where
  site : Site
  property : Property
  bounds : Bounds
  rootFontSize : String

namespace FluidSize

/-- Whether the smaller size has none of the known units. -/
def isUnitless (size : FluidSize) : Bool :=
  LengthUnit.all.all fun u => !Text.contains size.bounds.minSize u.name

/-- Whether the widths are needed as multiples of zero. -/
def dividesByZero (size : FluidSize) : Bool :=
  size.bounds.convertsWidths && (magnitude size.rootFontSize).isZero

/-- Why the fluid size cannot be made, if it cannot. -/
def failure? (size : FluidSize) : Option Failure :=
  if size.isUnitless then some (.css (size.site.error .unitlessSize))
  else if size.dividesByZero then some .divisionByZero
  else none

/-- The fluid sizes of a rule, given the root font size that holds for it. -/
def ofRule (options : Options) (rootFontSize : String) (rule : RuleBody) : List FluidSize :=
  (Declared.expanding rule.declared).map fun entry =>
    ⟨rule.site, entry.1, Declared.boundsOf entry.1 (options.defaults entry.1) rule.declared,
      rootFontSize⟩

/-- The fluid sizes of rules that follow each other, given the root font size before them. -/
def ofRules (options : Options) : String → List RuleBody → List FluidSize
  | _, [] => []
  | before, rule :: rest =>
    let rootFontSize := rootFontSizeAfter rule.site.selector rule.declared before
    ofRule options rootFontSize rule ++ ofRules options rootFontSize rest

end FluidSize

/-- The fluid sizes that a sheet asks for, in document order. -/
def Sheet.fluidSizes (options : Options) (sheet : Sheet) : List FluidSize :=
  FluidSize.ofRules options options.rootFontSize
    (Node.ruleBodiesAll sheet.input sheet.name sheet.nodes)

end FluidCss
