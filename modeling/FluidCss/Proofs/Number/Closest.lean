import FluidCss.Proofs.Number.Nearest

set_option autoImplicit false

/-! # Rounding gives the closest number

`Binary64.IsRounding` says what it is to round a rational correctly, without saying how: no number
is closer to it, of two equally close ones the significand is even, and what is too large is
infinite. `Binary64.nearest` does so (`Binary64.isRounding_nearest`). It follows that rounding keeps
the order (`Binary64.mul_zpow_le_of_nearest`), so that what lies between two rationals that are
rounded to a number is rounded to it too, and that a rational is rounded to a number that it is
close enough to (`Binary64.nearest_of_near`). -/

namespace FluidCss.Number

/-! ## Whole numbers -/

section Whole

variable {r : ℚ} {n : ℕ}

/-- A number that is half way between two others is the mean of them. -/
theorem add_eq_of_abs_sub_eq {p q r : ℚ} (hne : q ≠ p) (h : |p - r| = |q - r|) : p + q = 2 * r := by
  rcases abs_eq_abs.1 h with heq | heq
  · exact absurd (sub_left_inj.1 heq).symm hne
  · linarith

theorem abs_roundRat_sub_le_half (hr : 0 ≤ r) : |(roundRat r : ℚ) - r| ≤ 1 / 2 := by
  obtain ⟨hlow, hhigh⟩ := roundRat_near hr
  exact abs_le.2 ⟨by linarith, by linarith⟩

/-- No whole number is closer than the rounded one. -/
theorem abs_roundRat_sub_le (hr : 0 ≤ r) (n : ℕ) : |(roundRat r : ℚ) - r| ≤ |(n : ℚ) - r| := by
  have hhalf := abs_roundRat_sub_le_half hr
  obtain ⟨hlow, hhigh⟩ := roundRat_near hr
  rcases lt_trichotomy n (roundRat r) with hlt | heq | hgt
  · have hstep : (n : ℚ) + 1 ≤ roundRat r := by exact_mod_cast hlt
    have hfar : 1 / 2 ≤ r - n := by linarith
    rw [abs_sub_comm (n : ℚ)]
    exact hhalf.trans (hfar.trans (le_abs_self _))
  · rw [heq]
  · have hstep : (roundRat r : ℚ) + 1 ≤ n := by exact_mod_cast hgt
    have hfar : 1 / 2 ≤ n - r := by linarith
    exact hhalf.trans (hfar.trans (le_abs_self _))

theorem roundRat_half_even (n : ℕ) : roundRat ((n : ℚ) + 1 / 2) % 2 = 0 := by
  have hhalf : (n : ℚ) + 1 / 2 = ((2 * n + 1 : ℕ) : ℚ) / (2 : ℕ) := by
    push_cast
    ring
  rw [hhalf, ← roundHalfEven_eq_roundRat Nat.two_pos, roundHalfEven]
  split <;> omega

/-- Of two equally close whole numbers the even one is taken. -/
theorem roundRat_even_of_tie (hr : 0 ≤ r) (hne : n ≠ roundRat r)
    (h : |(roundRat r : ℚ) - r| = |(n : ℚ) - r|) : roundRat r % 2 = 0 := by
  obtain ⟨hlow, hhigh⟩ := roundRat_near hr
  have hsum := add_eq_of_abs_sub_eq (by exact_mod_cast hne) h
  rcases Nat.lt_or_gt_of_ne hne with hlt | hgt
  · have hstep : (n : ℚ) + 1 ≤ roundRat r := by exact_mod_cast hlt
    have hhalf : r = (n : ℚ) + 1 / 2 := by linarith
    rw [hhalf]
    exact roundRat_half_even n
  · have hstep : (roundRat r : ℚ) + 1 ≤ n := by exact_mod_cast hgt
    have hhalf : r = (roundRat r : ℚ) + 1 / 2 := by linarith
    have heven := roundRat_half_even (roundRat r)
    rwa [← hhalf] at heven

end Whole

namespace Binary64

variable {negative : Bool} {r a b c : ℚ} {m n : ℕ} {e f : ℤ}

/-! ## The spacing of the numbers -/

/-- Scaling by a power of two. -/
theorem abs_mul_zpow_sub (q r : ℚ) (e : ℤ) :
    |q * 2 ^ e - r| = |q - r / 2 ^ e| * (2 : ℚ) ^ e := by
  have hpow : (0 : ℚ) < 2 ^ e := by positivity
  calc |q * 2 ^ e - r| = |(q - r / 2 ^ e) * 2 ^ e| := by
        rw [sub_mul, div_mul_cancel₀ _ hpow.ne']
    _ = |q - r / 2 ^ e| * 2 ^ e := by rw [abs_mul, abs_of_pos hpow]

/-- With the larger exponent a number is a whole multiple of the smaller power of two. -/
theorem exists_mul_zpow (n : ℕ) (h : e ≤ f) : ∃ k : ℕ, (n : ℚ) * 2 ^ f = k * 2 ^ e := by
  refine ⟨n * 2 ^ (f - e).toNat, ?_⟩
  rw [Nat.cast_mul, Nat.cast_pow, Nat.cast_ofNat, mul_assoc, ← zpow_natCast,
    Int.toNat_of_nonneg (by omega), ← zpow_add₀ two_ne_zero, sub_add_cancel]

/-- With a smaller exponent a number stays below the normal numbers of the larger one. -/
theorem mul_zpow_lt (hn : n < 2 ^ 53) (h : f < e) : (n : ℚ) * 2 ^ f < 2 ^ 52 * 2 ^ e := by
  have hn' : (n : ℚ) < 2 ^ 53 := by exact_mod_cast hn
  calc (n : ℚ) * 2 ^ f < 2 ^ 53 * 2 ^ f := by gcongr
    _ ≤ 2 ^ 53 * 2 ^ (e - 1) := by
      gcongr
      · norm_num
      · omega
    _ = 2 ^ 52 * 2 ^ e := by
      rw [zpow_sub_one₀ two_ne_zero]
      ring

/-! ## Correct rounding -/

/-- Whether a number is what a rational that is not negative is correctly rounded to, with a sign:
no number of the format is closer, of two equally close ones it is the one with the even
significand, and from the bound on it is infinite. -/
structure IsRounding (negative : Bool) (r : ℚ) (x : Binary64) : Prop where
  canonical : x.Canonical
  infinite : overflowBound ≤ r → x = .infinite negative
  finite : r < overflowBound → ∃ m e, x = .finite negative m e ∧
    ∀ n f, (Binary64.finite false n f).Canonical →
      |(m : ℚ) * 2 ^ e - r| ≤ |(n : ℚ) * 2 ^ f - r| ∧
        (|(m : ℚ) * 2 ^ e - r| = |(n : ℚ) * 2 ^ f - r| → (n : ℚ) * 2 ^ f ≠ m * 2 ^ e → m % 2 = 0)

/-- The significand that a rational is rounded to is the best one of all exponents. -/
theorem scaled_closest (hr : 0 < r) (h : (finite false n f).Canonical) :
    |(roundRat (r / 2 ^ exponentOf r) : ℚ) * 2 ^ exponentOf r - r| ≤ |(n : ℚ) * 2 ^ f - r| ∧
      (|(roundRat (r / 2 ^ exponentOf r) : ℚ) * 2 ^ exponentOf r - r| = |(n : ℚ) * 2 ^ f - r| →
        (n : ℚ) * 2 ^ f ≠ roundRat (r / 2 ^ exponentOf r) * 2 ^ exponentOf r →
          roundRat (r / 2 ^ exponentOf r) % 2 = 0) := by
  obtain ⟨hn, hmin, -, -⟩ := h
  obtain ⟨-, hnormal⟩ := scaled_bounds hr
  have hscaled : 0 ≤ r / 2 ^ exponentOf r := by positivity
  generalize exponentOf r = e at hnormal hscaled ⊢
  have hpow : (0 : ℚ) < 2 ^ e := by positivity
  by_cases hle : e ≤ f
  · obtain ⟨k, hk⟩ := exists_mul_zpow n hle
    rw [hk, abs_mul_zpow_sub, abs_mul_zpow_sub, mul_right_cancel_iff_of_pos hpow]
    refine ⟨mul_le_mul_of_nonneg_right (abs_roundRat_sub_le hscaled k) hpow.le, fun htie hne => ?_⟩
    refine roundRat_even_of_tie hscaled ?_ htie
    rintro rfl
    exact hne rfl
  · -- the least normal number of the exponent lies between the other one and the rational
    have hlt := mul_zpow_lt hn (not_le.1 hle)
    have hfirst : (2 : ℚ) ^ 52 * 2 ^ e ≤ r :=
      (le_div_iff₀ hpow).1 (hnormal.resolve_right (by omega))
    have hnear : |(roundRat (r / 2 ^ e) : ℚ) * 2 ^ e - r| ≤ r - 2 ^ 52 * 2 ^ e := by
      have hbest := abs_roundRat_sub_le hscaled (2 ^ 52)
      rw [Nat.cast_pow, Nat.cast_ofNat] at hbest
      rw [← abs_of_nonneg (sub_nonneg.2 hfirst), abs_sub_comm r, abs_mul_zpow_sub, abs_mul_zpow_sub]
      exact mul_le_mul_of_nonneg_right hbest hpow.le
    have hfar : r - 2 ^ 52 * 2 ^ e < |(n : ℚ) * 2 ^ f - r| := by
      rw [abs_sub_comm, abs_of_nonneg (by linarith)]
      linarith
    exact ⟨(hnear.trans_lt hfar).le, fun htie => absurd htie (hnear.trans_lt hfar).ne⟩

/-- A rational that is not too large is rounded to a number with the best significand. -/
theorem exists_nearest (negative : Bool) (hr : 0 < r) (hlt : r < overflowBound) :
    ∃ m e, nearest negative r = finite negative m e ∧
      (m : ℚ) * 2 ^ e = roundRat (r / 2 ^ exponentOf r) * 2 ^ exponentOf r ∧
      (roundRat (r / 2 ^ exponentOf r) % 2 = 0 → m % 2 = 0) := by
  have hfinite := (isFinite_nearest_iff negative hr.le).2 hlt
  rw [nearest_of_pos hr] at hfinite ⊢
  generalize roundRat (r / 2 ^ exponentOf r) = k at hfinite ⊢
  by_cases hcarry : k = 2 ^ 53
  · rw [hcarry, normalized_carry] at hfinite ⊢
    split at hfinite
    · exact hfinite.elim
    · next hmax =>
      refine ⟨2 ^ 52, exponentOf r + 1, if_neg hmax, ?_, fun _ => by decide⟩
      rw [Nat.cast_pow, Nat.cast_pow, zpow_add_one₀ two_ne_zero]
      push_cast
      ring
  · rw [normalized_of_ne hcarry] at hfinite ⊢
    split at hfinite
    · exact hfinite.elim
    · next hmax => exact ⟨k, exponentOf r, if_neg hmax, rfl, id⟩

/-- **Rounding is correct.** -/
theorem isRounding_nearest (negative : Bool) (hr : 0 ≤ r) :
    IsRounding negative r (nearest negative r) where
  canonical := canonical_nearest negative hr
  infinite hle := by
    have hpos : 0 < r := lt_of_lt_of_le (mul_pos (by norm_num) (by positivity)) hle
    refine eq_infinite_of_nearest hpos fun hfinite => ?_
    exact absurd ((isFinite_nearest_iff negative hr).1 hfinite) (not_lt.2 hle)
  finite hlt := by
    rcases hr.eq_or_lt with rfl | hr
    · refine ⟨0, minExponent, rfl, fun n f _ => ⟨?_, fun _ _ => rfl⟩⟩
      rw [Nat.cast_zero, zero_mul, sub_self, abs_zero]
      exact abs_nonneg _
    · obtain ⟨m, e, heq, hvalue, heven⟩ := exists_nearest negative hr hlt
      refine ⟨m, e, heq, fun n f hcanonical => ?_⟩
      rw [hvalue]
      obtain ⟨hle, htie⟩ := scaled_closest hr hcanonical
      exact ⟨hle, fun heq hne => heven (htie heq hne)⟩

/-! ## The order of the numbers -/

/-- A number in canonical form is known by its value. -/
theorem eq_of_mul_zpow_eq (hm : (finite negative m e).Canonical)
    (hn : (finite negative n f).Canonical) (h : (m : ℚ) * 2 ^ e = n * 2 ^ f) :
    finite negative m e = finite negative n f := by
  rw [← nearest_of_canonical hm, h, nearest_of_canonical hn]

/-- **Rounding keeps the order.** -/
theorem mul_zpow_le_of_nearest (ha : 0 ≤ a) (hab : a ≤ b)
    (hm : nearest false a = finite false m e) (hn : nearest false b = finite false n f) :
    (m : ℚ) * 2 ^ e ≤ n * 2 ^ f := by
  rcases hab.eq_or_lt with rfl | hlt
  · rw [hm] at hn
    cases hn
    exact le_rfl
  have hfinite : ∀ {r : ℚ} {k : ℕ} {g : ℤ}, 0 ≤ r → nearest false r = finite false k g →
      (finite false k g).Canonical ∧ ∀ n f, (finite false n f).Canonical →
        |(k : ℚ) * 2 ^ g - r| ≤ |(n : ℚ) * 2 ^ f - r| := by
    intro r k g hr heq
    have hround := isRounding_nearest false hr
    have hbelow : r < overflowBound := by
      rw [← isFinite_nearest_iff false hr, heq]
      trivial
    obtain ⟨k', g', heq', hbest⟩ := hround.finite hbelow
    rw [heq] at heq'
    cases heq'
    exact ⟨heq ▸ hround.canonical, fun n f h => (hbest n f h).1⟩
  obtain ⟨hcm, hbestm⟩ := hfinite ha hm
  obtain ⟨hcn, hbestn⟩ := hfinite (ha.trans hab) hn
  -- otherwise each of the two rationals would be on the wrong side of the middle
  by_contra hgt
  rw [not_le] at hgt
  have hlow := hbestm n f hcn
  have hhigh := hbestn m e hcm
  rw [← sq_le_sq] at hlow hhigh
  nlinarith

/-- **What lies between two rationals that are rounded to a number is rounded to it too.** -/
theorem nearest_of_between (ha : 0 ≤ a) (hac : a ≤ c) (hcb : c ≤ b)
    (hma : nearest false a = finite false m e) (hmb : nearest false b = finite false m e) :
    nearest false c = finite false m e := by
  have hbound : b < overflowBound := by
    rw [← isFinite_nearest_iff false (ha.trans (hac.trans hcb)), hmb]
    trivial
  have hround := isRounding_nearest false (ha.trans hac)
  obtain ⟨n, f, hn, -⟩ := hround.finite (hcb.trans_lt hbound)
  have hlow := mul_zpow_le_of_nearest ha hac hma hn
  have hhigh := mul_zpow_le_of_nearest (ha.trans hac) hcb hn hmb
  have hcm : (finite false m e).Canonical := hma ▸ canonical_nearest false ha
  rw [hn]
  exact eq_of_mul_zpow_eq (hn ▸ hround.canonical) hcm (le_antisymm hhigh hlow)

/-! ## Close rationals -/

/-- **Two numbers differ by more than one part in `10 ^ 16`.** -/
theorem lt_abs_sub (hm : (finite false m e).Canonical) (hn : (finite false n f).Canonical)
    (hne : (n : ℚ) * 2 ^ f ≠ m * 2 ^ e) :
    (m : ℚ) * 2 ^ e / 10 ^ 16 < |(n : ℚ) * 2 ^ f - m * 2 ^ e| := by
  obtain ⟨hmlt, hmmin, -, hmnormal⟩ := hm
  obtain ⟨hnlt, hnmin, -, -⟩ := hn
  by_cases hle : e ≤ f
  · -- both are multiples of the same power of two
    have hpow : (0 : ℚ) < 2 ^ e := by positivity
    obtain ⟨k, hk⟩ := exists_mul_zpow n hle
    rw [hk] at hne ⊢
    have hkm : (k : ℤ) - m ≠ 0 := by
      intro h
      have hkm : k = m := by omega
      exact hne (by rw [hkm])
    have hone : (1 : ℚ) ≤ |(k : ℚ) - m| := by exact_mod_cast Int.one_le_abs hkm
    have hm' : (m : ℚ) < 2 ^ 53 := by exact_mod_cast hmlt
    rw [← sub_mul, abs_mul, abs_of_pos hpow, div_lt_iff₀ (by norm_num)]
    nlinarith
  · -- the first one is a normal number of an exponent that the second one does not reach
    have hmnormal' : 2 ^ 52 ≤ m := hmnormal.resolve_right (by omega)
    have hm' : (2 : ℚ) ^ 52 ≤ m := by exact_mod_cast hmnormal'
    have hpow : (0 : ℚ) < 2 ^ (e - 1) := by positivity
    have hsplit : (2 : ℚ) ^ e = 2 * 2 ^ (e - 1) := by
      rw [zpow_sub_one₀ two_ne_zero]
      ring
    have hn' : (n : ℚ) * 2 ^ f ≤ (2 ^ 53 - 1) * 2 ^ (e - 1) := by
      have hcast : (n : ℚ) + 1 ≤ 2 ^ 53 := by exact_mod_cast hnlt
      have hn' : (n : ℚ) ≤ 2 ^ 53 - 1 := by linarith
      exact mul_le_mul hn' (zpow_le_zpow_right₀ one_le_two (by omega)) (by positivity)
        (by norm_num)
    rw [hsplit]
    generalize (2 : ℚ) ^ (e - 1) = p at hpow hn'
    generalize (n : ℚ) * 2 ^ f = y at hn'
    rw [abs_sub_comm, div_lt_iff₀ (by norm_num)]
    have hdistance : (2 * m - (2 ^ 53 - 1)) * p ≤ |(m : ℚ) * (2 * p) - y| := by
      refine le_trans ?_ (le_abs_self _)
      linarith
    nlinarith

/-- The largest number. -/
theorem mul_zpow_le (h : (finite false m e).Canonical) :
    (m : ℚ) * 2 ^ e ≤ (2 ^ 53 - 1) * 2 ^ maxExponent := by
  obtain ⟨hlt, -, hmax, -⟩ := h
  have hcast : (m : ℚ) + 1 ≤ 2 ^ 53 := by exact_mod_cast hlt
  have hm : (m : ℚ) ≤ 2 ^ 53 - 1 := by linarith
  exact mul_le_mul hm (zpow_le_zpow_right₀ one_le_two hmax) (by positivity) (by norm_num)

/-- **A rational is rounded to a number that it is close to**, where the distance is at most half a
part in `10 ^ 16`. -/
theorem nearest_of_near (h : (finite false m e).Canonical) (hr : 0 ≤ r)
    (hnear : |(m : ℚ) * 2 ^ e - r| ≤ m * 2 ^ e / 10 ^ 16 / 2) :
    nearest false r = finite false m e := by
  have hbound : r < overflowBound := by
    have hle := mul_zpow_le h
    have habs := (abs_le.1 hnear).1
    rw [overflowBound]
    have hpow : (0 : ℚ) < 2 ^ maxExponent := by positivity
    generalize (2 : ℚ) ^ maxExponent = p at hle hpow ⊢
    generalize (m : ℚ) * 2 ^ e = v at hle habs
    nlinarith
  have hround := isRounding_nearest false hr
  obtain ⟨n, f, hn, hbest⟩ := hround.finite hbound
  have hcn : (finite false n f).Canonical := hn ▸ hround.canonical
  have hclose := (hbest m e h).1
  rw [hn]
  refine eq_of_mul_zpow_eq hcn h ?_
  by_contra hne
  have hgap := lt_abs_sub h hcn hne
  have htriangle := abs_sub_le ((n : ℚ) * 2 ^ f) r (m * 2 ^ e)
  rw [abs_sub_comm r] at htriangle
  linarith

end Binary64

end FluidCss.Number
