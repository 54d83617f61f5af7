import FluidCss.Forest.Walk
import FluidCss.Sizing.Placement
import FluidCss.Sizing.RootSize
import FluidCss.Sizing.Session

set_option autoImplicit false

/-! # Expansions of fluid declarations

All expansions of a sheet are worked out before any node is moved. Planning makes the nodes that
will be put into the sheet, but puts none of them anywhere, so a sheet that is refused is left as it
was. -/

namespace FluidCss

/-- What the caller decides: the bounds that a rule need not give, and the root font size before the
first rule that sets it. -/
structure Options where
  defaults : Property → Bounds
  rootFontSize : String

namespace Options

/-- The options of a caller who decides nothing. -/
def builtin : Options := ⟨Property.builtin, defaultRootFontSize⟩

end Options

/-- One fluid declaration of a rule with all that is needed to expand it; the declarations in
`spent` are taken out of the sheet. -/
structure Expansion where
  rule : NodeId
  decl : NodeId
  bounds : Bounds
  output : Interpolation
  placed : Placed
  spent : List NodeId
deriving DecidableEq, Repr

namespace Forest

/-- The declarations below a node, in document order. -/
def declared (f : Forest) (n : NodeId) : List (Declared NodeId) :=
  (f.declarationsBelow (fun _ => true) n).map fun m =>
    ⟨m, (f.content m).prop, (f.content m).value⟩

/-- The text that a node was read from and the name of that text, if they are known. -/
def origin (f : Forest) (n : NodeId) : Option String × Option String :=
  match (f.root? n).map f.content with
  | some (.root input name) => (input, name)
  | _ => (none, none)

/-- An error about a node. -/
def error (f : Forest) (n : NodeId) (reason : Reason) (plugin : Option String) : CssError :=
  let (input, name) := f.origin n
  let source := f.source n
  ⟨reason, source.map (·.line), source.map (·.column), input, name, plugin⟩

/-- A warning about a node, or about none. -/
def warning (f : Forest) (n : Option NodeId) (plugin text : String) : Diagnostic :=
  .warning plugin text (n.bind fun m => (f.content m).selector?) (n.bind f.source)

/-- A rule as the site of an expansion. -/
def site (f : Forest) (rule : NodeId) : Site :=
  let (input, name) := f.origin rule
  ⟨(f.content rule).selector, f.source rule, input, name⟩

/-- The bounds of a property on a rule, looked up by the name of the property. -/
def resolve (f : Forest) (rule : NodeId) (prop : String) (defaults : Property → Bounds) :
    Except Failure (Resolved NodeId) :=
  match Property.ofName? prop with
  | some p => .ok (Declared.resolve p (defaults p) (f.declared rule))
  | none => .error (.unknownProperty prop)

end Forest

namespace Run

/-- Works out the expansion of one fluid declaration that overrides others, and makes its nodes. -/
def planDeclaration (options : Options) (rootFontSize : String) (rule : NodeId) (p : Property)
    (d : Declared NodeId) (overridden : List (Declared NodeId)) : Run Expansion := do
  let f := (← get).forest
  let site := f.site rule
  let resolved := Declared.resolve p (options.defaults p) (f.declared rule)
  ofReporting (Reporting.log (.resolved p.name site.selector resolved.bounds))
  let output ← ofReporting (Interpolation.build site p.name resolved.bounds rootFontSize)
  let placed ← ofEdit (output.place rule)
  pure ⟨rule, d.key, resolved.bounds, output, placed,
    resolved.spent ++ overridden.map (·.key)⟩

/-- Works out the expansions of one rule. -/
def planRule (options : Options) (rootFontSize : String) (rule : NodeId) :
    Run (List Expansion) := do
  let ds := (← get).forest.declared rule
  (Declared.expanding ds).mapM fun (p, d, overridden) =>
    planDeclaration options rootFontSize rule p d overridden

/-- Works out the expansions of rules that follow each other, given the root font size before
them. -/
def planRules (options : Options) : String → List NodeId → Run (List Expansion)
  | _, [] => pure []
  | current, rule :: rest => do
    let f := (← get).forest
    let selector := (f.content rule).selector
    let size := rootFontSizeAfter selector (f.declared rule) current
    if size ≠ current then ofReporting (Reporting.log (.rootSizeSet size selector))
    let here ← planRule options size rule
    let further ← planRules options size rest
    pure (here ++ further)

/-- Works out the expansions of all rules below a node, in document order. -/
def plan (options : Options) (root : NodeId) : Run (List Expansion) := do
  let rules := (← get).forest.rulesBelow root
  planRules options options.rootFontSize rules

end Run

end FluidCss
