import FluidCss.Grammar.Parse
import FluidCss.Sizing.Run

set_option autoImplicit false

/-! # From text to text

A style sheet is read from its text, its fluid declarations are expanded, and it is printed. -/

namespace FluidCss

/-- A printed sheet and what was reported on the way. -/
structure Processed where
  css : String
  report : Report
deriving DecidableEq, Repr

namespace Sheet

/-- The sheet alone in a store, and nothing reported. -/
def session (sheet : Sheet) : NodeId × Session :=
  let (root, forest) := sheet.store .empty
  (root, ⟨forest, .empty⟩)

/-- Expands a sheet several times and prints it. -/
def expand (sheet : Sheet) (passes : List Options) : EStateM.Result Failure Session String :=
  let (root, session) := sheet.session
  (do Run.applyAll passes root; Run.render root : Run String) session

end Sheet

/-- Reads a text, expands its fluid declarations as often as there are options, and prints it. -/
def processWith (passes : List Options) (css : String) (name : Option String) :
    Except Failure Processed :=
  match Sheet.parse css name with
  | .error e => .error (.css e)
  | .ok sheet =>
    match sheet.expand passes with
    | .ok css session => .ok ⟨css, session.report⟩
    | .error e _ => .error e

/-- Reads a text, expands its fluid declarations, and prints it. -/
def process (options : Options) (css : String) (name : Option String) : Except Failure Processed :=
  processWith [options] css name

end FluidCss
