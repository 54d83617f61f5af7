import FluidCss.Number.Binary64
import FluidCss.Proofs.Number.Rounding
import Mathlib.Tactic.Linarith

set_option autoImplicit false

/-! # The nearest double-precision number

`nearest` rounds a rational to a double-precision number. It is what `ofRatio` computes, whatever
the fraction that the rational is given by (`ofRatio_eq_nearest`). The result is in canonical form,
it is finite exactly below `overflowBound`, and a number that the format has is its own rounding
(`nearest_of_canonical`). -/

namespace FluidCss.Number

/-! ## Rounding to a whole number -/

/-- The whole number nearest to a rational that is not negative, of two equally near the even one. -/
def roundRat (r : ℚ) : ℕ := roundHalfEven r.num.toNat r.den

section Whole

variable {r : ℚ} {num den n : ℕ}

theorem num_toNat_div_den (hr : 0 ≤ r) : ((r.num.toNat : ℕ) : ℚ) / r.den = r := by
  have hnum : ((r.num.toNat : ℕ) : ℤ) = r.num := Int.toNat_of_nonneg (Rat.num_nonneg.2 hr)
  calc ((r.num.toNat : ℕ) : ℚ) / r.den = ((r.num : ℤ) : ℚ) / r.den := by
        rw [← hnum, Int.cast_natCast, hnum]
    _ = r := Rat.num_div_den r

theorem roundHalfEven_eq_roundRat (hden : 0 < den) (num : ℕ) :
    roundHalfEven num den = roundRat ((num : ℚ) / den) :=
  roundHalfEven_congr hden (Rat.den_pos _) (num_toNat_div_den (by positivity)).symm

@[simp]
theorem roundRat_natCast (n : ℕ) : roundRat n = n := by
  rw [roundRat, Rat.num_natCast, Int.toNat_natCast, Rat.den_natCast]
  simpa using roundHalfEven_mul n 1 Nat.one_pos

/-- Rounding is off by at most half. -/
theorem roundRat_near (hr : 0 ≤ r) :
    r - 1 / 2 ≤ (roundRat r : ℚ) ∧ (roundRat r : ℚ) ≤ r + 1 / 2 := by
  obtain ⟨hlow, hhigh⟩ := roundHalfEven_near r.num.toNat r.den r.den_pos
  have hd : (0 : ℚ) < r.den := by exact_mod_cast r.den_pos
  have hlow' : 2 * (r.num.toNat : ℚ) ≤ (2 * (roundRat r : ℚ) + 1) * r.den := by exact_mod_cast hlow
  have hhigh' : 2 * ((roundRat r : ℚ) * r.den) ≤ 2 * (r.num.toNat : ℚ) + r.den := by
    exact_mod_cast hhigh
  have hnum : (r.num.toNat : ℚ) = r * r.den := by
    rw [eq_comm, ← eq_div_iff hd.ne', num_toNat_div_den hr]
  rw [hnum] at hlow' hhigh'
  constructor
  · refine le_of_mul_le_mul_right ?_ hd
    linarith
  · refine le_of_mul_le_mul_right ?_ hd
    linarith

theorem le_roundRat (h : (n : ℚ) ≤ r) : n ≤ roundRat r := by
  have hnear := (roundRat_near (n.cast_nonneg.trans h)).1
  have hlt : (n : ℚ) < roundRat r + 1 := by linarith
  exact Nat.lt_succ_iff.1 (by exact_mod_cast hlt)

theorem roundRat_le (hr : 0 ≤ r) (h : r ≤ n) : roundRat r ≤ n := by
  have hnear := (roundRat_near hr).2
  have hlt : (roundRat r : ℚ) < n + 1 := by linarith
  exact Nat.lt_succ_iff.1 (by exact_mod_cast hlt)

theorem roundRat_le_of_lt_half (hr : 0 ≤ r) (h : r < n + 1 / 2) : roundRat r ≤ n := by
  have hnear := (roundRat_near hr).2
  have hlt : (roundRat r : ℚ) < n + 1 := by linarith
  exact Nat.lt_succ_iff.1 (by exact_mod_cast hlt)

/-- Half way between an odd number and the next one is rounded up. -/
theorem lt_roundRat (hn : n % 2 = 1) (h : (n : ℚ) + 1 / 2 ≤ r) : n < roundRat r := by
  have hr : 0 ≤ r := by
    have hcast : (0 : ℚ) ≤ n := n.cast_nonneg
    linarith
  have hd : (0 : ℚ) < r.den := by exact_mod_cast r.den_pos
  have hnum : (r.num.toNat : ℚ) = r * r.den := by
    rw [eq_comm, ← eq_div_iff hd.ne', num_toNat_div_den hr]
  have hcross : (2 * n + 1) * r.den ≤ 2 * r.num.toNat := by
    have hmul : ((n : ℚ) + 1 / 2) * r.den ≤ r * r.den := by gcongr
    have hle : (2 * (n : ℚ) + 1) * r.den ≤ 2 * r.num.toNat := by
      rw [hnum]
      linarith
    exact_mod_cast hle
  have hdiv := Nat.div_add_mod r.num.toNat r.den
  have hmod := Nat.mod_lt r.num.toNat r.den_pos
  have hq : n ≤ r.num.toNat / r.den := by
    rw [Nat.le_div_iff_mul_le r.den_pos]
    rw [Nat.add_mul, Nat.one_mul, Nat.mul_assoc] at hcross
    omega
  rw [roundRat, roundHalfEven]
  by_cases heq : r.num.toNat / r.den = n
  · rw [if_neg]
    · omega
    · rw [heq] at hdiv ⊢
      rw [Nat.add_mul, Nat.one_mul, Nat.mul_assoc, Nat.mul_comm n] at hcross
      omega
  · split <;> omega

end Whole

namespace Binary64

variable {negative : Bool} {r : ℚ} {num den m : ℕ} {e : ℤ}

/-! ## Values -/

/-- Whether a number is neither infinite nor NaN. -/
def IsFinite : Binary64 → Prop
  | finite .. => True
  | _ => False

instance : ∀ x : Binary64, Decidable x.IsFinite
  | nan => isFalse id
  | infinite _ => isFalse id
  | finite .. => isTrue trivial

/-- The value of a finite number; zero for all others. -/
def value : Binary64 → ℚ
  | finite negative m e => (if negative then -1 else 1) * (m * (2 : ℚ) ^ e)
  | _ => 0

theorem value_finite_false (m : ℕ) (e : ℤ) : (finite false m e).value = m * (2 : ℚ) ^ e := by
  rw [value, if_neg (by decide), one_mul]

theorem isZero_iff {x : Binary64} : x.isZero = true ↔ x.IsFinite ∧ x.value = 0 := by
  cases x with
  | nan => exact iff_of_false (by simp [isZero]) fun h => h.1
  | infinite s => exact iff_of_false (by simp [isZero]) fun h => h.1
  | finite s m e =>
    have hpow : (2 : ℚ) ^ e ≠ 0 := by positivity
    cases s <;> simp [isZero, IsFinite, value, hpow]

/-- The exponent with which a positive rational is rounded. -/
def exponentOf (r : ℚ) : ℤ := max (Int.log 2 r - 52) minExponent

/-- The double-precision number nearest to a rational that is not negative, with a sign. -/
def nearest (negative : Bool) (r : ℚ) : Binary64 := ofRatio negative r.num.toNat r.den

/-- From here on a positive rational is rounded to infinity: half way between the largest number and
the next power of two. -/
def overflowBound : ℚ := (2 ^ 53 - 1 / 2) * 2 ^ maxExponent

/-! ## The exponent -/

/-- Scaled by its exponent, a rational has 53 bits before the point, or fewer if the exponent is the
least one. -/
theorem scaled_bounds (hr : 0 < r) : r / 2 ^ exponentOf r < 2 ^ 53 ∧
    (2 ^ 52 ≤ r / (2 : ℚ) ^ exponentOf r ∨ exponentOf r = minExponent) := by
  have hlow := Int.zpow_log_le_self Nat.one_lt_two hr
  have hhigh := Int.lt_zpow_succ_log_self Nat.one_lt_two r
  rw [Nat.cast_ofNat] at hlow hhigh
  constructor
  · rw [div_lt_iff₀ (by positivity), ← zpow_natCast, ← zpow_add₀ two_ne_zero]
    refine hhigh.trans_le (zpow_le_zpow_right₀ one_le_two ?_)
    rw [exponentOf, Nat.cast_ofNat]
    omega
  · by_cases h : Int.log 2 r - 52 ≤ minExponent
    · exact .inr (max_eq_right h)
    · refine .inl ?_
      rw [le_div_iff₀ (by positivity), ← zpow_natCast, ← zpow_add₀ two_ne_zero]
      refine le_trans (zpow_le_zpow_right₀ one_le_two ?_) hlow
      rw [exponentOf, Nat.cast_ofNat]
      omega

/-- The exponent of a rational with 53 bits before the point is the one it is scaled by. -/
theorem exponentOf_eq (hr : 0 < r) (hmin : minExponent ≤ e) (hlt : r / 2 ^ e < 2 ^ 53)
    (hle : 2 ^ 52 ≤ r / (2 : ℚ) ^ e ∨ e = minExponent) : exponentOf r = e := by
  have hhigh : Int.log 2 r < 53 + e := by
    rw [div_lt_iff₀ (by positivity), ← zpow_natCast, ← zpow_add₀ two_ne_zero, Nat.cast_ofNat] at hlt
    exact (Int.lt_zpow_iff_log_lt Nat.one_lt_two hr).1 (by exact_mod_cast hlt)
  rcases hle with hle | rfl
  · have hlow : 52 + e ≤ Int.log 2 r := by
      rw [le_div_iff₀ (by positivity), ← zpow_natCast, ← zpow_add₀ two_ne_zero,
        Nat.cast_ofNat] at hle
      exact (Int.zpow_le_iff_le_log Nat.one_lt_two hr).1 (by exact_mod_cast hle)
    rw [exponentOf]
    omega
  · exact max_eq_right (by omega)

/-! ## The number that `ofRatio` gives -/

theorem ofRatio_of_pos (hnum : 0 < num) (hden : 0 < den) :
    ofRatio negative num den = normalized negative
      (roundRat ((num : ℚ) / den / 2 ^ exponentOf ((num : ℚ) / den)))
      (exponentOf ((num : ℚ) / den)) := by
  have he : max (floorLog2 num den - 52) minExponent = exponentOf ((num : ℚ) / den) := by
    rw [exponentOf, floorLog2_eq_log hnum hden]
  have hround := roundHalfEven_eq_roundRat (overPower_snd_pos two_pos hden num
    (exponentOf ((num : ℚ) / den))) (overPower 2 num den (exponentOf ((num : ℚ) / den))).1
  rw [overPower_div two_pos, Nat.cast_ofNat] at hround
  rw [ofRatio, if_neg hnum.ne', he, ← hround]

/-- The result depends on the value of the fraction alone. -/
theorem ofRatio_eq_nearest (hden : 0 < den) (num : ℕ) :
    ofRatio negative num den = nearest negative ((num : ℚ) / den) := by
  have hvalue := num_toNat_div_den (r := (num : ℚ) / den) (by positivity)
  rcases Nat.eq_zero_or_pos num with rfl | hnum
  · simp [nearest, ofRatio]
  · have hpos : 0 < ((num : ℚ) / den).num.toNat := by
      have : (0 : ℚ) < num / den := by positivity
      have := Rat.num_pos.2 this
      omega
    rw [ofRatio_of_pos hnum hden, nearest, ofRatio_of_pos hpos (Rat.den_pos _), hvalue]

@[simp]
theorem nearest_zero (negative : Bool) : nearest negative 0 = zero negative := rfl

theorem nearest_of_pos (hr : 0 < r) : nearest negative r =
    normalized negative (roundRat (r / 2 ^ exponentOf r)) (exponentOf r) := by
  have hpos : 0 < r.num.toNat := by
    have := Rat.num_pos.2 hr
    omega
  rw [nearest, ofRatio_of_pos hpos r.den_pos, num_toNat_div_den hr.le]

/-! ## What the rounding of a rational is like -/

theorem normalized_of_ne (h : m ≠ 2 ^ 53) : normalized negative m e =
    if maxExponent < e then infinite negative else finite negative m e := by
  rw [normalized, if_neg (show m ≠ Nat.pow 2 53 from h)]

/-- A significand that has been rounded up to the next power of two. -/
theorem normalized_carry : normalized negative (2 ^ 53) e =
    if maxExponent < e + 1 then infinite negative else finite negative (2 ^ 52) (e + 1) := by
  rw [normalized, if_pos (show 2 ^ 53 = Nat.pow 2 53 from rfl)]
  rfl

/-- A significand of at most 53 bits is put into canonical form. -/
theorem canonical_normalized (hm : m ≤ 2 ^ 53) (hmin : minExponent ≤ e)
    (hle : 2 ^ 52 ≤ m ∨ e = minExponent) : (normalized negative m e).Canonical := by
  rcases hm.eq_or_lt with rfl | hlt
  · rw [normalized_carry]
    split
    · trivial
    · exact ⟨by decide, by omega, by omega, .inl (Nat.le_refl _)⟩
  · rw [normalized_of_ne hlt.ne]
    split
    · trivial
    · exact ⟨hlt, hmin, by omega, hle⟩

theorem roundRat_scaled (hr : 0 < r) : roundRat (r / 2 ^ exponentOf r) ≤ 2 ^ 53 ∧
    (2 ^ 52 ≤ roundRat (r / 2 ^ exponentOf r) ∨ exponentOf r = minExponent) := by
  obtain ⟨hlt, hle⟩ := scaled_bounds hr
  constructor
  · exact roundRat_le (by positivity) (by exact_mod_cast hlt.le)
  · exact hle.imp_left fun h => le_roundRat (by exact_mod_cast h)

theorem canonical_nearest (negative : Bool) (hr : 0 ≤ r) : (nearest negative r).Canonical := by
  rcases hr.eq_or_lt with rfl | hr
  · exact ⟨by decide, le_refl _, by decide, .inr rfl⟩
  · obtain ⟨hm, hle⟩ := roundRat_scaled hr
    rw [nearest_of_pos hr]
    exact canonical_normalized hm (le_max_right _ _) hle

/-- **A number that the format has is its own rounding.** -/
theorem nearest_of_canonical (h : (finite negative m e).Canonical) :
    nearest negative (m * (2 : ℚ) ^ e) = finite negative m e := by
  obtain ⟨hm, hmin, hmax, hle⟩ := h
  rcases Nat.eq_zero_or_pos m with rfl | hpos
  · obtain rfl : e = minExponent := hle.resolve_left (by decide)
    rw [Nat.cast_zero, zero_mul, nearest_zero]
    rfl
  · have hr : (0 : ℚ) < m * 2 ^ e := by positivity
    have hscaled : (m : ℚ) * 2 ^ e / 2 ^ e = m := mul_div_cancel_right₀ _ (by positivity)
    have hexp : exponentOf (m * (2 : ℚ) ^ e) = e := by
      refine exponentOf_eq hr hmin ?_ ?_
      · rw [hscaled]
        exact_mod_cast hm
      · rw [hscaled]
        exact hle.imp_left fun h => by exact_mod_cast h
    rw [nearest_of_pos hr, hexp, hscaled, roundRat_natCast, normalized_of_ne (Nat.ne_of_lt hm),
      if_neg (by omega)]

theorem normalized_ne_nan : normalized negative m e ≠ nan := by
  by_cases hm : m = 2 ^ 53
  · rw [hm, normalized_carry]
    split
    · nofun
    · nofun
  · rw [normalized_of_ne hm]
    split
    · nofun
    · nofun

theorem nearest_ne_nan (negative : Bool) (hr : 0 ≤ r) : nearest negative r ≠ nan := by
  rcases hr.eq_or_lt with rfl | hr
  · nofun
  · rw [nearest_of_pos hr]
    exact normalized_ne_nan

theorem isFinite_normalized : (normalized negative m e).IsFinite ↔
    (if m = 2 ^ 53 then e + 1 else e) ≤ maxExponent := by
  by_cases h : m = 2 ^ 53
  · rw [if_pos h, h, normalized_carry]
    split
    · next hlt => exact iff_of_false id (by omega)
    · next hlt => exact iff_of_true trivial (by omega)
  · rw [if_neg h, normalized_of_ne h]
    split
    · next hlt => exact iff_of_false id (by omega)
    · next hlt => exact iff_of_true trivial (by omega)

/-- **A rational is rounded to a finite number exactly below the bound.** -/
theorem isFinite_nearest_iff (negative : Bool) (hr : 0 ≤ r) :
    (nearest negative r).IsFinite ↔ r < overflowBound := by
  rcases hr.eq_or_lt with rfl | hr
  · refine iff_of_true trivial (mul_pos (by norm_num) (by positivity))
  obtain ⟨hm, -⟩ := roundRat_scaled hr
  have hpos : (0 : ℚ) < 2 ^ maxExponent := by positivity
  rw [nearest_of_pos hr, isFinite_normalized]
  constructor
  · intro hfinite
    by_contra hge
    rw [not_lt, overflowBound] at hge
    have hlog : 52 + maxExponent ≤ Int.log 2 r := by
      refine (Int.zpow_le_iff_le_log Nat.one_lt_two hr).1 ?_
      rw [Nat.cast_ofNat, zpow_add₀ two_ne_zero]
      exact le_trans (by gcongr; norm_num) hge
    have hle : maxExponent ≤ exponentOf r := by
      rw [exponentOf]
      omega
    rcases hle.eq_or_lt with he | hlt
    · -- the significand is rounded up to the next power of two
      have hup : 2 ^ 53 - 1 < roundRat (r / 2 ^ exponentOf r) := by
        refine lt_roundRat (by decide) ?_
        rw [← he, le_div_iff₀ hpos]
        refine le_trans ?_ hge
        gcongr
        norm_num
      rw [if_pos (show roundRat (r / 2 ^ exponentOf r) = 2 ^ 53 by omega)] at hfinite
      omega
    · split at hfinite <;> omega
  · intro hlt
    have hlog : Int.log 2 r < 53 + maxExponent := by
      refine (Int.lt_zpow_iff_log_lt Nat.one_lt_two hr).1 ?_
      rw [Nat.cast_ofNat, zpow_add₀ two_ne_zero]
      refine hlt.trans_le ?_
      rw [overflowBound]
      gcongr
      norm_num
    have hle : exponentOf r ≤ maxExponent := by
      rw [exponentOf]
      exact max_le (by omega) (by decide)
    rcases hle.eq_or_lt with he | hlt'
    · have hdown : roundRat (r / 2 ^ exponentOf r) ≤ 2 ^ 53 - 1 := by
        refine roundRat_le_of_lt_half (by positivity) ?_
        rw [he, div_lt_iff₀ hpos]
        refine hlt.trans_le ?_
        rw [overflowBound]
        gcongr
        norm_num
      rw [if_neg (show roundRat (r / 2 ^ exponentOf r) ≠ 2 ^ 53 by omega)]
      exact hle
    · split <;> omega

theorem eq_infinite_of_nearest (hr : 0 < r) (h : ¬ (nearest negative r).IsFinite) :
    nearest negative r = infinite negative := by
  rw [nearest_of_pos hr] at h ⊢
  rcases (roundRat_scaled hr).1.eq_or_lt with heq | hlt
  · rw [heq, normalized_carry] at h ⊢
    split at h
    · next hlt => exact if_pos hlt
    · exact absurd trivial h
  · rw [normalized_of_ne hlt.ne] at h ⊢
    split at h
    · next hlt => exact if_pos hlt
    · exact absurd trivial h

theorem isZero_normalized (h : m ≠ 0) : (normalized negative m e).isZero = false := by
  by_cases hm : m = 2 ^ 53
  · rw [hm, normalized_carry]
    split <;> rfl
  · rw [normalized_of_ne hm]
    split
    · rfl
    · simpa [isZero] using h

/-- What is not below the least positive number is not rounded to zero. -/
theorem isZero_nearest (negative : Bool) (hr : (2 : ℚ) ^ minExponent ≤ r) :
    (nearest negative r).isZero = false := by
  have hpos : 0 < r := lt_of_lt_of_le (by positivity) hr
  rw [nearest_of_pos hpos]
  refine isZero_normalized (Nat.pos_iff_ne_zero.1 ?_)
  rcases (roundRat_scaled hpos).2 with hle | he
  · exact lt_of_lt_of_le (by decide) hle
  · refine le_roundRat ?_
    rw [he, Nat.cast_one, one_le_div₀ (by positivity)]
    exact hr

/-- What is below half of the least positive number is rounded to zero. -/
theorem nearest_eq_zero (negative : Bool) (hr : 0 ≤ r) (hlt : r < 2 ^ (minExponent - 1)) :
    nearest negative r = zero negative := by
  rcases hr.eq_or_lt with rfl | hr
  · exact nearest_zero negative
  have hlog : Int.log 2 r < minExponent - 1 := by
    refine (Int.lt_zpow_iff_log_lt Nat.one_lt_two hr).1 ?_
    exact_mod_cast hlt
  have he : exponentOf r = minExponent := by
    rw [exponentOf]
    omega
  have hround : roundRat (r / 2 ^ exponentOf r) = 0 := by
    refine Nat.le_zero.1 (roundRat_le_of_lt_half (by positivity) ?_)
    rw [he, div_lt_iff₀ (by positivity), Nat.cast_zero, zero_add]
    refine hlt.trans_le (le_of_eq ?_)
    rw [zpow_sub_one₀ two_ne_zero]
    ring
  rw [nearest_of_pos hr, hround, he]
  rfl

end Binary64

end FluidCss.Number
