import FluidCss.Sizing.Expansion

set_option autoImplicit false

/-! # Expanding a tree

The expansion of a sheet as a function from tree to tree, without identities, by recursion.

* Within a rule, the last declaration that asks for a fluid size of a property is replaced by two
  declarations; the earlier ones that ask for it, and the declarations that only set bounds of it,
  disappear.
* The rule is followed by its media blocks, those of its last expansion first.
* An at-rule keeps its place and what it is, and the nodes in it are expanded.

The root font size is handed on from rule to rule in document order. The store is not used here;
this is the description that a run on a store is measured against. -/

namespace FluidCss

/-- What becomes of nodes: the root font size behind them, the interpolations of their fluid
declarations in document order, and the nodes that stand in their place. -/
structure Expanded where
  size : String
  outputs : List Interpolation
  nodes : List Node

namespace Node

/-- The declarations among nodes, in order. -/
def declared (nodes : List Node) : List (Declared Unit) :=
  nodes.filterMap fun
    | .declaration prop value _ => some ⟨(), prop, value⟩
    | _ => none

/-- The property of which a node asks for a fluid size, if it does. -/
def fluidProperty? : Node → Option Property
  | declaration prop value _ =>
    if Text.contains value "fluid" then Property.ofName? prop else none
  | _ => none

/-- Whether one of the nodes asks for a fluid size of a property. -/
def ask (p : Property) (nodes : List Node) : Bool :=
  nodes.any fun n => n.fluidProperty? == some p

/-- Whether a node is a declaration that only sets bounds of a property. -/
def setsBounds (p : Property) : Node → Bool
  | declaration prop _ _ => prop == p.range || Bound.all.any fun b => prop == p.longhand b
  | _ => false

/-- Whether a node of a rule only sets bounds of a property that the rule asks a fluid size of. -/
def isSpent (nodes : List Node) (n : Node) : Bool :=
  Property.all.any fun p => ask p nodes && n.setsBounds p

/-- The interpolation of a property for a rule with the given nodes. -/
def interpolate (options : Options) (site : Site) (size : String) (nodes : List Node)
    (p : Property) : Reporting Interpolation := do
  let bounds := Declared.boundsOf p (options.defaults p) (declared nodes)
  Reporting.log (.resolved p.name site.selector bounds)
  Interpolation.build site p.name bounds size

/-- The two declarations that take the place of a fluid one. -/
def pair (i : Interpolation) (source : Option Position) : List Node :=
  [.declaration i.prop i.expression source,
    .declaration (Interpolation.variableName i.prop) i.expression source]

/-- What becomes of the last nodes of a rule that has the nodes `all`: their interpolations and the
nodes in their place. -/
def expandedInRule (all : List Node) (make : Property → Reporting Interpolation) :
    List Node → Reporting (List Interpolation × List Node)
  | [] => pure ([], [])
  | n :: rest =>
    match n.fluidProperty? with
    | some p =>
      if ask p rest then expandedInRule all make rest
      else do
        let i ← make p
        let (outputs, others) ← expandedInRule all make rest
        pure (i :: outputs, pair i n.source ++ others)
    | none =>
      if n.isSpent all then expandedInRule all make rest
      else do
        let (outputs, others) ← expandedInRule all make rest
        pure (outputs, n :: others)

/-- The media blocks that follow a rule, those of its last interpolation first. -/
def mediaBlocks (outputs : List Interpolation) : List Node :=
  outputs.reverse.flatMap fun i => [i.maxMedia, i.minMedia]

mutual

/-- What becomes of a node, given the text that the tree was read from, its name, and the root font
size before the node. -/
def expanded (options : Options) (input name : Option String) (size : String) :
    Node → Reporting Expanded
  | declaration prop value source => pure ⟨size, [], [.declaration prop value source]⟩
  | rule selector source nodes => do
    let after := rootFontSizeAfter selector (declared nodes) size
    if after ≠ size then Reporting.log (.rootSizeSet after selector)
    let site : Site := ⟨selector, source, input, name⟩
    let (outputs, inside) ← expandedInRule nodes (interpolate options site after nodes) nodes
    pure ⟨after, outputs, .rule selector source inside :: mediaBlocks outputs⟩
  | atStatement atName params source => pure ⟨size, [], [.atStatement atName params source]⟩
  | atBlock atName params source nodes => do
    let inside ← expandedAll options input name size nodes
    pure ⟨inside.size, inside.outputs, [.atBlock atName params source inside.nodes]⟩

/-- What becomes of nodes that follow each other. -/
def expandedAll (options : Options) (input name : Option String) (size : String) :
    List Node → Reporting Expanded
  | [] => pure ⟨size, [], []⟩
  | n :: ns => do
    let first ← n.expanded options input name size
    let rest ← expandedAll options input name first.size ns
    pure ⟨rest.size, first.outputs ++ rest.outputs, first.nodes ++ rest.nodes⟩

end

end Node

/-- What becomes of the statements of a sheet. -/
def Sheet.expanded (options : Options) (sheet : Sheet) : Reporting Expanded :=
  Node.expandedAll options sheet.input sheet.name options.rootFontSize sheet.nodes

end FluidCss
