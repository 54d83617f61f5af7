import FluidCss.Forest.Basic
import FluidCss.Text.Quoted

set_option autoImplicit false

/-! # Describing a node in a message

A node is described by its fields, its children included; a node that is met again inside its own
description is left out there. -/

namespace FluidCss

open Text

namespace Forest

/-- A text, or the word for its absence. -/
def describeText : Option String → String
  | some s => quoted s
  | none => "None"

/-- A position, or the word for its absence. -/
def describePosition : Option Position → String
  | some p => "Position(line=" ++ toString p.line ++ ", column=" ++ toString p.column ++ ")"
  | none => "None"

/-- A truth value. -/
def describeBool (b : Bool) : String := if b then "True" else "False"

/-- The description of a node that is reached through the nodes on `path`. The nodes on a path are
distinct, so `fuel` need not be larger than their number can get. -/
def describeFrom (f : Forest) : Nat → List NodeId → NodeId → String
  | 0, _, _ => "..."
  | fuel + 1, path, n =>
    if path.contains n then "..."
    else
      let source := "source=" ++ describePosition (f.source n)
      let nodes := "nodes=[" ++
        String.intercalate ", " ((f.children n).map (describeFrom f fuel (n :: path))) ++ "]"
      match f.content n with
      | .declaration prop value =>
        "Declaration(" ++ source ++ ", prop=" ++ quoted prop ++ ", value=" ++ quoted value ++ ")"
      | .rule selector =>
        "Rule(" ++ source ++ ", " ++ nodes ++ ", selector=" ++ quoted selector ++ ")"
      | .atRule name params bodyless =>
        "AtRule(" ++ source ++ ", " ++ nodes ++ ", name=" ++ quoted name ++ ", params=" ++
          quoted params ++ ", bodyless=" ++ describeBool bodyless ++ ")"
      | .root input name =>
        "Root(" ++ source ++ ", " ++ nodes ++ ", input_css=" ++ describeText input ++
          ", input_name=" ++ describeText name ++ ")"

/-- The description of a node. -/
def describe (f : Forest) (n : NodeId) : String := f.describeFrom (f.size + 1) [] n

end Forest

end FluidCss
