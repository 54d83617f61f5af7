import FluidCss.Number.Token
import FluidCss.Sizing.Property
import FluidCss.Text.Blank
import FluidCss.Text.Search

set_option autoImplicit false

/-! # What the declarations of a rule say about a fluid size

A rule asks for a fluid size by a declaration whose value holds the word `fluid`. Which declarations
are expanded and which bounds they get depends on the names and values of the rule's declarations
and on their order alone, so the declarations are given here as a list, each with a key by which the
caller knows it again.

The bounds come from four layers, the later one overriding the earlier: the defaults; the two sizes
after the word `fluid`; the two widths of the range declarations; the declarations of single bounds.
Within a layer the last declaration that says something counts. -/

namespace FluidCss

open Number Text

/-- A declaration that a caller knows by a key. -/
structure Declared (κ : Type) where
  key : κ
  prop : String
  value : String
deriving DecidableEq, Repr

/-- The bounds of a fluid size, and the declarations that exist only to set them. -/
structure Resolved (κ : Type) where
  bounds : Bounds
  spent : List κ
deriving DecidableEq, Repr

namespace Declared

variable {κ : Type}

/-- Whether the declaration asks for a fluid size. -/
def isFluid (d : Declared κ) : Bool := contains d.value "fluid"

/-- The declarations of one name, in order. -/
def named (ds : List (Declared κ)) (name : String) : List (Declared κ) :=
  ds.filter fun d => d.prop == name

/-- The bounds with the sizes that a fluid declaration gives: its first two numbers, if it has
two. -/
def applySizes (b : Bounds) (d : Declared κ) : Bounds :=
  if d.isFluid then
    match numericTokens d.value.toList with
    | min :: max :: _ => { b with minSize := String.ofList min, maxSize := String.ofList max }
    | _ => b
  else b

/-- The bounds with the widths that a range declaration gives: its first two words, if it has
two. -/
def applyRange (b : Bounds) (d : Declared κ) : Bounds :=
  match wordsOf d.value with
  | min :: max :: _ => { b with minWidth := min, maxWidth := max }
  | _ => b

/-- The bounds with the one that a declaration gives. -/
def applyLonghand (bound : Bound) (b : Bounds) (d : Declared κ) : Bounds :=
  b.set bound (strip d.value)

/-- The declarations of single bounds of a property, bound by bound. -/
def longhands (p : Property) (ds : List (Declared κ)) : List (Declared κ) :=
  Bound.all.flatMap fun bound => named ds (p.longhand bound)

/-- The bounds that the declarations give a property, over its defaults. -/
def boundsOf (p : Property) (defaults : Bounds) (ds : List (Declared κ)) : Bounds :=
  let sized := (named ds p.name).foldl applySizes defaults
  let ranged := (named ds p.range).foldl applyRange sized
  Bound.all.foldl
    (fun b bound => (named ds (p.longhand bound)).foldl (applyLonghand bound) b) ranged

/-- The bounds that the declarations give a property, and the range declarations and the
declarations of single bounds, which are of no use once the bounds are known. -/
def resolve (p : Property) (defaults : Bounds) (ds : List (Declared κ)) : Resolved κ :=
  ⟨boundsOf p defaults ds, (named ds p.range ++ longhands p ds).map (·.key)⟩

/-- The declarations that ask for a fluid size of one of the three properties, in order. -/
def fluidOnes (ds : List (Declared κ)) : List (Property × Declared κ) :=
  ds.filterMap fun d =>
    match Property.ofName? d.prop with
    | some p => if d.isFluid then some (p, d) else none
    | none => none

/-- Of the pairs behind `before`, the last one of each property, with the earlier ones of that
property. -/
def lastOnesFrom (before : List (Property × Declared κ)) :
    List (Property × Declared κ) → List (Property × Declared κ × List (Declared κ))
  | [] => []
  | (p, d) :: rest =>
    if rest.any fun other => other.1 == p then lastOnesFrom (before ++ [(p, d)]) rest
    else
      (p, d, (before.filter fun other => other.1 == p).map (·.2)) ::
        lastOnesFrom (before ++ [(p, d)]) rest

/-- The declarations that are expanded: the last fluid one of each property, in order, with the
earlier ones that it overrides. -/
def expanding (ds : List (Declared κ)) : List (Property × Declared κ × List (Declared κ)) :=
  lastOnesFrom [] (fluidOnes ds)

end Declared

end FluidCss
