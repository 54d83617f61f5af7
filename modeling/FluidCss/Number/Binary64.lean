import FluidCss.Number.Rounding

set_option autoImplicit false

/-! # Double-precision numbers

The numbers of IEEE 754's binary64 format, with a single NaN, and of its operations the two that
fluid sizes need: subtraction and division. A finite number is kept as sign, significand and
exponent of two, so that every statement about it is one about whole numbers. -/

namespace FluidCss.Number

/-- A double-precision number; a finite one stands for `± significand * 2 ^ exponent`. -/
inductive Binary64 where
  | nan
  | infinite (negative : Bool)
  | finite (negative : Bool) (significand : Nat) (exponent : Int)
deriving DecidableEq, Repr

namespace Binary64

/-- The exponent of the subnormal numbers, the least one. -/
def minExponent : Int := -1074

/-- The exponent of the largest finite numbers. -/
def maxExponent : Int := 971

/-- The form in which the format stores a number: at most 53 bits of significand, exactly 53
unless the exponent is the least one. -/
def Canonical : Binary64 → Prop
  | nan => True
  | infinite _ => True
  | finite _ m e =>
    m < Nat.pow 2 53 ∧ minExponent ≤ e ∧ e ≤ maxExponent ∧ (Nat.pow 2 52 ≤ m ∨ e = minExponent)

instance (x : Binary64) : Decidable x.Canonical := by
  cases x <;> unfold Canonical <;> infer_instance

/-- Zero with a sign. -/
def zero (negative : Bool) : Binary64 := finite negative 0 minExponent

/-- Whether a number is one of the two zeros. -/
def isZero : Binary64 → Bool
  | finite _ m _ => m == 0
  | _ => false

/-- A rounded significand put back into 53 bits; too large an exponent gives infinity. -/
def normalized (negative : Bool) (significand : Nat) (exponent : Int) : Binary64 :=
  let (m, e) :=
    if significand = Nat.pow 2 53 then (Nat.pow 2 52, exponent + 1) else (significand, exponent)
  if maxExponent < e then infinite negative else finite negative m e

/-- The number nearest to `± num / den`; of two equally near the one with the even significand. -/
def ofRatio (negative : Bool) (num den : Nat) : Binary64 :=
  if num = 0 then zero negative
  else
    let e := max (floorLog2 num den - 52) minExponent
    let (n, d) := overPower 2 num den e
    normalized negative (roundHalfEven n d) e

/-- The number nearest to `± n * 2 ^ exponent`. -/
def ofScaled (negative : Bool) (n : Nat) (exponent : Int) : Binary64 :=
  let (num, den) := overPower 2 n 1 (-exponent)
  ofRatio negative num den

/-- The number nearest to `± coefficient * 10 ^ exponent`.

Beyond the two cut-offs the answer does not depend on the digits: a value of at least `10 ^ 310`
is infinite and one below `10 ^ -330` is zero. -/
def ofDecimal (negative : Bool) (coefficient : Nat) (exponent : Int) : Binary64 :=
  if coefficient = 0 then zero negative
  else
    let top : Int := (decimalLength coefficient : Int) + exponent
    if 310 < top then infinite negative
    else if top < -330 then zero negative
    else
      let (num, den) := overPower 10 coefficient 1 (-exponent)
      ofRatio negative num den

/-- The significand with its sign. -/
def signed (negative : Bool) (significand : Nat) : Int :=
  if negative then -(significand : Int) else significand

/-- The correctly rounded difference. -/
def sub : Binary64 → Binary64 → Binary64
  | nan, _ => nan
  | _, nan => nan
  | infinite s, infinite t => if s = t then nan else infinite s
  | infinite s, finite .. => infinite s
  | finite .., infinite t => infinite (!t)
  | finite s m e, finite t n f =>
    let q := min e f
    let difference :=
      signed s m * Nat.pow 2 (e - q).toNat - signed t n * Nat.pow 2 (f - q).toNat
    if difference = 0 then zero (s && !t)
    else ofScaled (decide (difference < 0)) difference.natAbs q

/-- The correctly rounded quotient; there is none when the divisor is zero. -/
def div? (x y : Binary64) : Option Binary64 :=
  if y.isZero then none
  else match x, y with
    | nan, _ => some nan
    | _, nan => some nan
    | infinite _, infinite _ => some nan
    | infinite s, finite t _ _ => some (infinite (s != t))
    | finite s _ _, infinite t => some (zero (s != t))
    | finite s m e, finite t n f =>
      let (num, den) := overPower 2 m n (f - e)
      some (ofRatio (s != t) num den)

/-- Only a zero divisor leaves a division without a result. -/
theorem div?_eq_none_iff (x y : Binary64) : div? x y = none ↔ y.isZero = true := by
  unfold div?
  split
  · simp [*]
  · cases x <;> cases y <;> simp_all

instance : Sub Binary64 := ⟨sub⟩

/-- The number with the given bits. -/
def ofBits (bits : UInt64) : Binary64 :=
  let n := bits.toNat
  let negative := n / Nat.pow 2 63 == 1
  let biased : Nat := n / Nat.pow 2 52 % Nat.pow 2 11
  let fraction : Nat := n % Nat.pow 2 52
  if biased = 2047 then if fraction = 0 then infinite negative else nan
  else if biased = 0 then finite negative fraction minExponent
  else finite negative (Nat.pow 2 52 + fraction) ((biased : Int) - 1075)

/-- The bits of a number in canonical form; NaN is the quiet one without a sign. -/
def toBits : Binary64 → UInt64
  | nan => 0x7ff8000000000000
  | infinite negative => if negative then 0xfff0000000000000 else 0x7ff0000000000000
  | finite negative m e =>
    let biased : Nat := if m < Nat.pow 2 52 then 0 else (e + 1075).toNat
    UInt64.ofNat
      ((if negative then Nat.pow 2 63 else 0) + biased * Nat.pow 2 52 + m % Nat.pow 2 52)

end Binary64

end FluidCss.Number
