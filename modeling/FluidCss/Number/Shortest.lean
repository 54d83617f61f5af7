import FluidCss.Number.Binary64

set_option autoImplicit false

/-! # Shortest decimals

The decimal with the fewest significant digits that is read back as a given double-precision
number, and of those the nearest to it. A grid of decimals with a fixed number of significant
digits has two neighbours of the number; if any point of the grid is read back as the number, one
of the two is, so only they are tried, the nearer one first. -/

namespace FluidCss.Number

/-- The decimal number `coefficient * 10 ^ exponent`. -/
structure Decimal where
  coefficient : Nat
  exponent : Int
deriving DecidableEq, Repr

namespace Decimal

/-- The double-precision number nearest to the decimal. -/
def toBinary64 (d : Decimal) : Binary64 := Binary64.ofDecimal false d.coefficient d.exponent

/-- How many trailing zeros of a coefficient can be dropped, at most `fuel`. -/
def dropZeros : Nat → Decimal → Decimal
  | 0, d => d
  | fuel + 1, d =>
    if d.coefficient % 10 = 0 then dropZeros fuel ⟨d.coefficient / 10, d.exponent + 1⟩ else d

/-- The same decimal with no trailing zero in its coefficient. -/
def trimZeros (d : Decimal) : Decimal :=
  if d.coefficient = 0 then d else dropZeros (decimalLength d.coefficient) d

/-- The points next to `num / den` among the decimals with `digits` significant digits, the nearer
one first; of two equally near the one with the even coefficient first. -/
def neighbours (num den digits : Nat) : List Decimal :=
  let exponent := floorLog10 num den - (digits : Int) + 1
  let (n, d) := overPower 10 num den exponent
  let below : Decimal := ⟨n / d, exponent⟩
  let above : Decimal := ⟨n / d + 1, exponent⟩
  if roundHalfEven n d = n / d then [below, above] else [above, below]

/-- The decimal that a positive number `significand * 2 ^ exponent` is equal to. -/
def exact (significand : Nat) (exponent : Int) : Decimal :=
  if 0 ≤ exponent then ⟨significand * Nat.pow 2 exponent.toNat, 0⟩
  else ⟨significand * Nat.pow 5 (-exponent).toNat, exponent⟩

/-- The shortest decimal that is read back as the positive number
`significand * 2 ^ exponent`. Seventeen digits always suffice; the exact value stands behind
them so that the result is read back whatever the argument. -/
def shortest (significand : Nat) (exponent : Int) : Decimal :=
  let (num, den) := overPower 2 significand 1 (-exponent)
  let grids := (List.range 17).flatMap fun k => neighbours num den (k + 1)
  let found := grids.find? fun d => d.toBinary64 == .finite false significand exponent
  (found.getD (exact significand exponent)).trimZeros

end Decimal

end FluidCss.Number
