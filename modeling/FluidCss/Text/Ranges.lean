set_option autoImplicit false

/-! # Sets of characters by code point ranges

A Unicode property is written as the list of the closed ranges of code points that have it. -/

namespace FluidCss.Text

/-- Code points `first` to `last`, both included. -/
structure CodeRange where
  first : Nat
  last : Nat

/-- Whether a code point lies in the range. -/
def CodeRange.holds (r : CodeRange) (n : Nat) : Bool := r.first ≤ n && n ≤ r.last

/-- Whether a character lies in one of the ranges. -/
def inRanges (ranges : List CodeRange) (c : Char) : Bool := ranges.any (·.holds c.toNat)

theorem inRanges_iff (ranges : List CodeRange) (c : Char) :
    inRanges ranges c = true ↔ ∃ r ∈ ranges, r.first ≤ c.toNat ∧ c.toNat ≤ r.last := by
  simp [inRanges, CodeRange.holds]

end FluidCss.Text
