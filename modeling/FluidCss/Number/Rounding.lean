set_option autoImplicit false

/-! # Rounding of fractions

A positive rational is given by numerator and denominator. Here are the three things that the
number formats need of it: its quotient rounded to the nearest whole number, and the exponents of
the largest powers of two and of ten that do not exceed it. -/

namespace FluidCss.Number

/-- The whole number nearest to `num / den`; of two equally near the even one. -/
def roundHalfEven (num den : Nat) : Nat :=
  let quotient := num / den
  let rest := num % den
  if 2 * rest < den ∨ (2 * rest = den ∧ quotient % 2 = 0) then quotient else quotient + 1

/-- A rounded quotient is off by at most half. -/
theorem roundHalfEven_near (num den : Nat) (h : 0 < den) :
    2 * num ≤ (2 * roundHalfEven num den + 1) * den ∧
      2 * (roundHalfEven num den * den) ≤ 2 * num + den := by
  have hdiv : den * (num / den) + num % den = num := Nat.div_add_mod num den
  have hmod : num % den < den := Nat.mod_lt _ h
  generalize hq : num / den = q at hdiv
  generalize hr : num % den = r at hdiv hmod
  rw [Nat.mul_comm] at hdiv
  simp only [roundHalfEven, hq, hr]
  split <;> (simp only [Nat.add_mul, Nat.mul_assoc, Nat.one_mul, Nat.mul_add]; omega)

/-- A whole quotient is not changed by rounding. -/
theorem roundHalfEven_mul (n den : Nat) (h : 0 < den) : roundHalfEven (n * den) den = n := by
  simp [roundHalfEven, Nat.mul_div_cancel n h, h]

/-- The fraction `num / den` divided by `base ^ exponent`, again as numerator and denominator. -/
def overPower (base num den : Nat) (exponent : Int) : Nat × Nat :=
  if 0 ≤ exponent then (num, den * base.pow exponent.toNat)
  else (num * base.pow (-exponent).toNat, den)

/-- The largest `e` with `2 ^ e ≤ num / den`, for positive `num` and `den`. -/
def floorLog2 (num den : Nat) : Int :=
  let e : Int := (num.log2 : Int) - (den.log2 : Int)
  let (n, d) := overPower 2 num den e
  if d ≤ n then e else e - 1

/-- How many digits the decimal numeral of a number has. -/
def decimalLength (n : Nat) : Nat := (Nat.toDigits 10 n).length

/-- The largest `e` with `10 ^ e ≤ num / den`, for positive `num` and `den`. -/
def floorLog10 (num den : Nat) : Int :=
  if den ≤ num then (decimalLength (num / den) : Int) - 1
  else
    -- `⌈den / num⌉ - 1` has as many digits as the least power of ten above it has zeros
    -(decimalLength ((den + num - 1) / num - 1) : Int)

end FluidCss.Number
