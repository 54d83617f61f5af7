import FluidCss.Number.Rounding
import Mathlib.Algebra.Order.Field.Power
import Mathlib.Algebra.Order.Floor.Semifield
import Mathlib.Data.Int.Log
import Mathlib.Data.Nat.Cast.Order.Field
import Mathlib.Data.Rat.Floor
import Mathlib.Tactic.FieldSimp
import Mathlib.Tactic.NormNum
import Mathlib.Tactic.Positivity
import Mathlib.Tactic.Ring

set_option autoImplicit false

/-! # Fractions as rationals

The functions on numerators and denominators, said of the rational that these stand for: dividing by
a power (`overPower_div`), the exponent of the largest power of two in it (`floorLog2_eq_log`), and
rounding, which does not depend on how the fraction is written (`roundHalfEven_congr`). -/

namespace FluidCss.Number

variable {base num den num' den' : ℕ}

/-! ## Dividing by a power -/

theorem overPower_snd_pos (hbase : 0 < base) (hden : 0 < den) (num : ℕ) (exponent : ℤ) :
    0 < (overPower base num den exponent).2 := by
  unfold overPower
  split
  · exact Nat.mul_pos hden (Nat.pow_pos hbase)
  · exact hden

/-- The fraction is divided by the power. -/
theorem overPower_div (hbase : 0 < base) (num den : ℕ) (exponent : ℤ) :
    ((overPower base num den exponent).1 : ℚ) / (overPower base num den exponent).2 =
      num / den / (base : ℚ) ^ exponent := by
  have hb : (base : ℚ) ≠ 0 := by exact_mod_cast hbase.ne'
  unfold overPower
  split
  · next h =>
    obtain ⟨k, rfl⟩ := Int.eq_ofNat_of_zero_le h
    simp only [Int.toNat_natCast, Nat.pow_eq, Nat.cast_mul, Nat.cast_pow, zpow_natCast]
    rw [div_div]
  · next h =>
    obtain ⟨k, hk⟩ := Int.eq_ofNat_of_zero_le (show 0 ≤ -exponent by omega)
    obtain rfl : exponent = -k := by omega
    simp only [neg_neg, Int.toNat_natCast, Nat.pow_eq, Nat.cast_mul, Nat.cast_pow, zpow_neg,
      zpow_natCast, div_inv_eq_mul]
    ring

/-! ## The largest power of two -/

theorem floorLog2_spec (hnum : 0 < num) (hden : 0 < den) :
    (2 : ℚ) ^ floorLog2 num den ≤ num / den ∧ (num : ℚ) / den < 2 ^ (floorLog2 num den + 1) := by
  have hd : (0 : ℚ) < den := by exact_mod_cast hden
  -- numerator and denominator lie between two powers of two each
  have hnum₁ : (2 : ℚ) ^ (num.log2 : ℤ) ≤ num := by
    exact_mod_cast Nat.log2_self_le hnum.ne'
  have hnum₂ : (num : ℚ) < 2 ^ ((num.log2 : ℤ) + 1) := by
    exact_mod_cast Nat.lt_log2_self
  have hden₁ : (2 : ℚ) ^ (den.log2 : ℤ) ≤ den := by
    exact_mod_cast Nat.log2_self_le hden.ne'
  have hden₂ : (den : ℚ) < 2 ^ ((den.log2 : ℤ) + 1) := by
    exact_mod_cast Nat.lt_log2_self
  have hlow : (2 : ℚ) ^ ((num.log2 : ℤ) - den.log2 - 1) ≤ num / den := by
    rw [le_div_iff₀ hd]
    calc (2 : ℚ) ^ ((num.log2 : ℤ) - den.log2 - 1) * den
        ≤ 2 ^ ((num.log2 : ℤ) - den.log2 - 1) * 2 ^ ((den.log2 : ℤ) + 1) := by gcongr
      _ = 2 ^ (num.log2 : ℤ) := by rw [← zpow_add₀ two_ne_zero]; congr 1; omega
      _ ≤ num := hnum₁
  have hhigh : (num : ℚ) / den < 2 ^ ((num.log2 : ℤ) - den.log2 + 1) := by
    rw [div_lt_iff₀ hd]
    calc (num : ℚ) < 2 ^ ((num.log2 : ℤ) + 1) := hnum₂
      _ = 2 ^ ((num.log2 : ℤ) - den.log2 + 1) * 2 ^ (den.log2 : ℤ) := by
        rw [← zpow_add₀ two_ne_zero]; congr 1; omega
      _ ≤ 2 ^ ((num.log2 : ℤ) - den.log2 + 1) * den := by gcongr
  have hover := overPower_div (show 0 < 2 from two_pos) num den ((num.log2 : ℤ) - den.log2)
  have hpos := overPower_snd_pos (show 0 < 2 from two_pos) hden num ((num.log2 : ℤ) - den.log2)
  unfold floorLog2
  dsimp only
  generalize overPower 2 num den ((num.log2 : ℤ) - den.log2) = fraction at hover hpos ⊢
  obtain ⟨n, d⟩ := fraction
  have hd' : (0 : ℚ) < d := by exact_mod_cast hpos
  have hle : d ≤ n ↔ (2 : ℚ) ^ ((num.log2 : ℤ) - den.log2) ≤ num / den := by
    rw [← Nat.cast_le (α := ℚ), ← one_le_div₀ hd', hover, one_le_div₀ (by positivity)]
    norm_cast
  split
  · next h => exact ⟨hle.1 h, hhigh⟩
  · next h =>
    rw [sub_add_cancel]
    exact ⟨hlow, not_le.1 fun hge => h (hle.2 hge)⟩

/-- The exponent of the largest power of two depends on the value of the fraction alone. -/
theorem floorLog2_eq_log (hnum : 0 < num) (hden : 0 < den) :
    floorLog2 num den = Int.log 2 ((num : ℚ) / den) := by
  obtain ⟨hlow, hhigh⟩ := floorLog2_spec hnum hden
  have hpos : (0 : ℚ) < num / den := by positivity
  have hle : floorLog2 num den ≤ Int.log 2 ((num : ℚ) / den) :=
    (Int.zpow_le_iff_le_log Nat.one_lt_two hpos).1 (by exact_mod_cast hlow)
  have hlt : Int.log 2 ((num : ℚ) / den) < floorLog2 num den + 1 :=
    (Int.lt_zpow_iff_log_lt Nat.one_lt_two hpos).1 (by exact_mod_cast hhigh)
  omega

/-! ## Rounding -/

theorem roundHalfEven_mul_right {c : ℕ} (hc : 0 < c) (num den : ℕ) :
    roundHalfEven (num * c) (den * c) = roundHalfEven num den := by
  have hdouble : 2 * (num % den * c) = 2 * (num % den) * c := (Nat.mul_assoc ..).symm
  have hlt : 2 * (num % den) * c < den * c ↔ 2 * (num % den) < den :=
    Nat.mul_lt_mul_right hc
  have heq : 2 * (num % den) * c = den * c ↔ 2 * (num % den) = den := Nat.mul_left_inj hc.ne'
  simp only [roundHalfEven, Nat.mul_div_mul_right _ _ hc, Nat.mul_mod_mul_right, hdouble, hlt, heq]

/-- Fractions of the same value are rounded alike. -/
theorem roundHalfEven_congr (hden : 0 < den) (hden' : 0 < den')
    (h : (num : ℚ) / den = num' / den') : roundHalfEven num den = roundHalfEven num' den' := by
  have hcross : num * den' = num' * den := by
    have hd : (den : ℚ) ≠ 0 := by exact_mod_cast hden.ne'
    have hd' : (den' : ℚ) ≠ 0 := by exact_mod_cast hden'.ne'
    rw [div_eq_div_iff hd hd'] at h
    exact_mod_cast h
  calc roundHalfEven num den = roundHalfEven (num * den') (den * den') :=
        (roundHalfEven_mul_right hden' num den).symm
    _ = roundHalfEven (num' * den) (den' * den) := by rw [hcross, Nat.mul_comm den den']
    _ = roundHalfEven num' den' := roundHalfEven_mul_right hden num' den'

end FluidCss.Number
