import FluidCss.Number.Literal
import FluidCss.Number.Numeral
import FluidCss.Text.Search

set_option autoImplicit false

/-! # Lengths

A length is a text. Its unit is the first of the three known ones that occurs in it and its number
the literal at its front; the two are read independently of each other. -/

namespace FluidCss

open Number

/-- A unit of length. -/
inductive LengthUnit where
  | px
  | rem
  | em
deriving DecidableEq, Repr

namespace LengthUnit

/-- The name of a unit. -/
def name : LengthUnit → String
  | px => "px"
  | rem => "rem"
  | em => "em"

/-- All units. -/
def all : List LengthUnit := [px, rem, em]

/-- The unit whose name comes first in a text. -/
def find? : List Char → Option LengthUnit
  | [] => none
  | 'p' :: 'x' :: _ => some px
  | 'r' :: 'e' :: 'm' :: _ => some rem
  | 'e' :: 'm' :: _ => some em
  | _ :: cs => find? cs

/-- A text has no unit exactly if the name of none stands in it. -/
theorem find?_eq_none_iff (cs : List Char) :
    find? cs = none ↔ ∀ u ∈ all, Text.occurs u.name.toList cs = false := by
  fun_induction find? cs with
  | case1 => decide
  | case2 cs => simp [all, name, Text.occurs]
  | case3 cs => simp [all, name, Text.occurs]
  | case4 cs => simp [all, name, Text.occurs]
  | case5 c cs hpx hrem hem ih =>
    -- no name starts here, so one that occurs does so behind the first character
    have hfront : ∀ u ∈ all, u.name.toList.isPrefixOf (c :: cs) = false := by
      intro u _
      rw [Bool.eq_false_iff, Ne, List.isPrefixOf_iff_prefix]
      rintro ⟨tail, htail⟩
      cases u with
      | px => exact hpx tail (List.cons.inj htail).1.symm (List.cons.inj htail).2.symm
      | rem => exact hrem tail (List.cons.inj htail).1.symm (List.cons.inj htail).2.symm
      | em => exact hem tail (List.cons.inj htail).1.symm (List.cons.inj htail).2.symm
    rw [ih]
    refine forall₂_congr fun u hu => ?_
    rw [Text.occurs, hfront u hu, Bool.false_or]

/-- The unit of a length. -/
def of? (length : String) : Option LengthUnit := find? length.toList

theorem of?_eq_none_iff (length : String) :
    of? length = none ↔ ∀ u ∈ all, Text.contains length u.name = false :=
  find?_eq_none_iff length.toList

end LengthUnit

/-- The number of a length. -/
def magnitude (length : String) : Binary64 := leadingNumber length.toList

/-- A length in pixels as a multiple of the root font size. There is none if the number of the root
font size is zero. -/
def pxToRem? (px rootFontSize : String) : Option String :=
  (Binary64.div? (magnitude px) (magnitude rootFontSize)).map fun ratio => ratio.toText ++ "rem"

/-- The conversion fails exactly for a root font size of zero. -/
theorem pxToRem?_eq_none_iff (px rootFontSize : String) :
    pxToRem? px rootFontSize = none ↔ (magnitude rootFontSize).isZero = true := by
  simp [pxToRem?, Binary64.div?_eq_none_iff]

end FluidCss
