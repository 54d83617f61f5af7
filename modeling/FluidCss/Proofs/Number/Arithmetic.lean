import FluidCss.Proofs.Number.Nearest

set_option autoImplicit false

/-! # Arithmetic is correctly rounded

Reading a decimal, subtracting and dividing give the number nearest to the exact result
(`ofDecimal_eq_nearest`, `sub_eq_nearest`, `div?_eq_nearest`). So a difference is finite exactly if
both numbers are and it stays below the bound (`isFinite_sub_iff`), and, because differences of
close numbers are exact, it is zero exactly if the values are the same (`isZero_sub_iff`). -/

namespace FluidCss.Number

/-! ## Decimals -/

/-- A number of `k` digits lies between two powers of ten. -/
theorem decimalLength_spec {n : ℕ} (h : n ≠ 0) :
    (10 : ℚ) ^ ((decimalLength n : ℤ) - 1) ≤ n ∧ (n : ℚ) < 10 ^ (decimalLength n : ℤ) := by
  have hpos : 0 < decimalLength n := Nat.length_toDigits_pos
  constructor
  · obtain ⟨k, hk⟩ := Nat.exists_eq_succ_of_ne_zero hpos.ne'
    have hle : 10 ^ k ≤ n := by
      rcases Nat.eq_zero_or_pos k with rfl | hk'
      · exact Nat.one_le_iff_ne_zero.2 h
      · by_contra hlt
        have := (Nat.length_toDigits_le_iff (by decide) hk').2 (Nat.lt_of_not_le hlt)
        rw [← decimalLength] at this
        omega
    rw [hk, Nat.cast_succ, add_sub_cancel_right, zpow_natCast]
    exact_mod_cast hle
  · rw [zpow_natCast]
    exact_mod_cast (Nat.length_toDigits_le_iff (by decide) hpos).1 (Nat.le_refl _)

namespace Binary64

variable {negative : Bool} {x y : Binary64}

theorem ofScaled_eq_nearest (negative : Bool) (n : ℕ) (e : ℤ) :
    ofScaled negative n e = nearest negative (n * (2 : ℚ) ^ e) := by
  have hdiv := overPower_div two_pos n 1 (-e)
  rw [Nat.cast_one, div_one, Nat.cast_ofNat, zpow_neg, div_inv_eq_mul] at hdiv
  change ofRatio negative (overPower 2 n 1 (-e)).1 (overPower 2 n 1 (-e)).2 = _
  rw [ofRatio_eq_nearest (overPower_snd_pos two_pos Nat.one_pos _ _), hdiv]

/-- What is at least `10 ^ 310` is rounded to infinity. -/
theorem nearest_of_huge {r : ℚ} (h : (10 : ℚ) ^ (310 : ℤ) ≤ r) :
    nearest negative r = infinite negative := by
  have hpos : 0 < r := lt_of_lt_of_le (by positivity) h
  refine eq_infinite_of_nearest hpos fun hfinite => ?_
  have hlt := (isFinite_nearest_iff negative hpos.le).1 hfinite
  have hbound : overflowBound ≤ (2 : ℚ) ^ (1024 : ℕ) := by
    have hsplit : (2 : ℚ) ^ (1024 : ℕ) = 2 ^ 53 * 2 ^ maxExponent := by
      rw [← zpow_natCast, ← zpow_natCast, ← zpow_add₀ two_ne_zero]
      rfl
    rw [hsplit, overflowBound]
    gcongr
    norm_num
  have hpow : (2 : ℚ) ^ (1024 : ℕ) ≤ 10 ^ (310 : ℕ) := by
    have hnat : 2 ^ 1024 ≤ 10 ^ 310 := by decide +kernel
    exact_mod_cast hnat
  rw [← zpow_natCast 10] at hpow
  exact absurd (hlt.trans_le (hbound.trans hpow)) (not_lt.2 h)

/-- What is below `10 ^ -331` is rounded to zero. -/
theorem nearest_of_tiny {r : ℚ} (hr : 0 ≤ r) (h : r < (10 : ℚ) ^ (-331 : ℤ)) :
    nearest negative r = zero negative := by
  refine nearest_eq_zero negative hr (h.trans ?_)
  have hpow : (2 : ℚ) ^ (1075 : ℕ) < 10 ^ (331 : ℕ) := by
    have hnat : 2 ^ 1075 < 10 ^ 331 := by decide +kernel
    exact_mod_cast hnat
  rw [show minExponent - 1 = -((1075 : ℕ) : ℤ) from rfl,
    show (-331 : ℤ) = -((331 : ℕ) : ℤ) from rfl, zpow_neg, zpow_neg, zpow_natCast, zpow_natCast]
  exact inv_strictAnti₀ (by positivity) hpow

/-- **A decimal is read as the nearest number**, however many digits and however large an exponent
it has. -/
theorem ofDecimal_eq_nearest (negative : Bool) (c : ℕ) (e : ℤ) :
    ofDecimal negative c e = nearest negative (c * (10 : ℚ) ^ e) := by
  rcases Nat.eq_zero_or_pos c with rfl | hc
  · simp [ofDecimal]
  obtain ⟨hlow, hhigh⟩ := decimalLength_spec hc.ne'
  have hten : (0 : ℚ) < 10 ^ e := by positivity
  have hlow' : (10 : ℚ) ^ ((decimalLength c : ℤ) + e - 1) ≤ c * 10 ^ e := by
    rw [show (decimalLength c : ℤ) + e - 1 = decimalLength c - 1 + e by ring,
      zpow_add₀ (by norm_num)]
    gcongr
  have hhigh' : (c : ℚ) * 10 ^ e < 10 ^ ((decimalLength c : ℤ) + e) := by
    rw [zpow_add₀ (by norm_num)]
    gcongr
  unfold ofDecimal
  rw [if_neg hc.ne']
  dsimp only
  split
  · next htop =>
    refine (nearest_of_huge (le_trans ?_ hlow')).symm
    exact zpow_le_zpow_right₀ (by norm_num) (by omega)
  · split
    · next htop =>
      refine (nearest_of_tiny (by positivity) (hhigh'.trans_le ?_)).symm
      exact zpow_le_zpow_right₀ (by norm_num) (by omega)
    · have hdiv := overPower_div (show 0 < 10 by decide) c 1 (-e)
      rw [Nat.cast_one, div_one, Nat.cast_ofNat, zpow_neg, div_inv_eq_mul] at hdiv
      rw [← hdiv]
      exact ofRatio_eq_nearest (overPower_snd_pos (by decide) Nat.one_pos _ _) _

/-! ## Differences -/

theorem abs_value_finite (s : Bool) (m : ℕ) (e : ℤ) : |(finite s m e).value| = m * (2 : ℚ) ^ e := by
  have hpos : (0 : ℚ) ≤ m * 2 ^ e := by positivity
  cases s
  · rw [value, if_neg (by simp), one_mul, abs_of_nonneg hpos]
  · rw [value, if_pos rfl, neg_one_mul, abs_neg, abs_of_nonneg hpos]

theorem cast_signed (s : Bool) (m : ℕ) : (signed s m : ℚ) = (if s then -1 else 1) * m := by
  cases s <;> simp [signed]

/-- The difference of two finite numbers is a whole multiple of a power of two. -/
theorem exists_difference (hx : x.IsFinite) (hy : y.IsFinite) : ∃ (d : ℤ) (q : ℤ),
    (d : ℚ) * 2 ^ q = x.value - y.value ∧ (x.Canonical → y.Canonical → minExponent ≤ q) ∧
      (d = 0 → (x.sub y).isZero = true ∧ (x.sub y).IsFinite) ∧
      (d ≠ 0 → x.sub y = ofScaled (decide (d < 0)) d.natAbs q) := by
  cases x with
  | nan => exact hx.elim
  | infinite s => exact hx.elim
  | finite s m e =>
    cases y with
    | nan => exact hy.elim
    | infinite t => exact hy.elim
    | finite t n f =>
      refine ⟨signed s m * Nat.pow 2 (e - min e f).toNat -
        signed t n * Nat.pow 2 (f - min e f).toNat, min e f, ?value, ?least, fun h => ?zero,
        fun h => ?nonzero⟩
      case value =>
        have hpow : ∀ k : ℤ, min e f ≤ k →
            ((Nat.pow 2 (k - min e f).toNat : ℕ) : ℚ) * 2 ^ min e f = 2 ^ k := by
          intro k hk
          rw [Nat.pow_eq, Nat.cast_pow, Nat.cast_ofNat, ← zpow_natCast,
            Int.toNat_of_nonneg (by omega), ← zpow_add₀ two_ne_zero, sub_add_cancel]
        push_cast
        rw [sub_mul, mul_assoc, mul_assoc, cast_signed, cast_signed, value, value]
        have he := hpow e (min_le_left e f)
        have hf := hpow f (min_le_right e f)
        rw [he, hf, mul_assoc, mul_assoc]
      case least => exact fun hx hy => le_min hx.2.1 hy.2.1
      case zero =>
        rw [sub, if_pos h]
        exact ⟨rfl, trivial⟩
      case nonzero =>
        rw [sub, if_neg h]

theorem sub_of_value_eq (hx : x.IsFinite) (hy : y.IsFinite) (h : x.value = y.value) :
    (x.sub y).isZero = true ∧ (x.sub y).IsFinite := by
  obtain ⟨d, q, hd, -, hzero, -⟩ := exists_difference hx hy
  rw [h, sub_self, mul_eq_zero] at hd
  exact hzero (by exact_mod_cast hd.resolve_right (by positivity))

/-- **A difference is correctly rounded.** -/
theorem sub_eq_nearest (hx : x.IsFinite) (hy : y.IsFinite) (h : x.value ≠ y.value) :
    x.sub y = nearest (decide (x.value < y.value)) |x.value - y.value| := by
  obtain ⟨d, q, hd, -, -, hsub⟩ := exists_difference hx hy
  have hpos : (0 : ℚ) < 2 ^ q := by positivity
  have hne : d ≠ 0 := by
    rintro rfl
    rw [Int.cast_zero, zero_mul, eq_comm, sub_eq_zero] at hd
    exact h hd
  have hneg : d < 0 ↔ x.value < y.value := by
    rw [← sub_neg (a := x.value), ← hd, ← zero_mul ((2 : ℚ) ^ q), mul_lt_mul_iff_of_pos_right hpos]
    norm_cast
  have habs : (d.natAbs : ℚ) * 2 ^ q = |x.value - y.value| := by
    rw [← hd, abs_mul, abs_of_pos hpos, Nat.cast_natAbs, Int.cast_abs]
  rw [hsub hne, ofScaled_eq_nearest, habs]
  congr 1
  exact decide_eq_decide.2 hneg

theorem isFinite_of_sub (h : (x.sub y).IsFinite) : x.IsFinite ∧ y.IsFinite := by
  cases x <;> cases y
  case finite.finite => exact ⟨trivial, trivial⟩
  case infinite.infinite s t =>
    by_cases hst : s = t
    · simp [sub, hst, IsFinite] at h
    · simp [sub, hst, IsFinite] at h
  all_goals exact h.elim

/-- **When a difference is finite.** -/
theorem isFinite_sub_iff : (x.sub y).IsFinite ↔
    x.IsFinite ∧ y.IsFinite ∧ |x.value - y.value| < overflowBound := by
  constructor
  · intro h
    obtain ⟨hx, hy⟩ := isFinite_of_sub h
    refine ⟨hx, hy, ?_⟩
    by_cases hne : x.value = y.value
    · rw [hne, sub_self, abs_zero]
      exact mul_pos (by norm_num) (by positivity)
    · rw [sub_eq_nearest hx hy hne] at h
      exact (isFinite_nearest_iff _ (abs_nonneg _)).1 h
  · rintro ⟨hx, hy, hlt⟩
    by_cases hne : x.value = y.value
    · exact (sub_of_value_eq hx hy hne).2
    · rw [sub_eq_nearest hx hy hne]
      exact (isFinite_nearest_iff _ (abs_nonneg _)).2 hlt

/-- **When a difference is zero.** -/
theorem isZero_sub_iff (hx : x.IsFinite) (hy : y.IsFinite) (hcx : x.Canonical) (hcy : y.Canonical) :
    (x.sub y).isZero = true ↔ x.value = y.value := by
  refine ⟨fun h => ?_, fun h => (sub_of_value_eq hx hy h).1⟩
  by_contra hne
  obtain ⟨d, q, hd, hq, -, -⟩ := exists_difference hx hy
  have hone : (1 : ℚ) ≤ |(d : ℚ)| := by
    have hd0 : d ≠ 0 := by
      rintro rfl
      rw [Int.cast_zero, zero_mul, eq_comm, sub_eq_zero] at hd
      exact hne hd
    exact_mod_cast Int.one_le_abs hd0
  have hleast : (2 : ℚ) ^ minExponent ≤ |x.value - y.value| := by
    rw [← hd, abs_mul, abs_of_pos (by positivity : (0 : ℚ) < 2 ^ q)]
    calc (2 : ℚ) ^ minExponent ≤ 2 ^ q := zpow_le_zpow_right₀ one_le_two (hq hcx hcy)
      _ = 1 * 2 ^ q := (one_mul _).symm
      _ ≤ |(d : ℚ)| * 2 ^ q := by gcongr
  rw [sub_eq_nearest hx hy hne, isZero_nearest _ hleast] at h
  exact absurd h (by decide)

/-! ## Quotients -/

/-- **A quotient is correctly rounded.** -/
theorem div?_eq_nearest {s t : Bool} {m n : ℕ} {e f : ℤ} (hn : n ≠ 0) :
    div? (finite s m e) (finite t n f) = some (nearest (s != t)
      (|(finite s m e).value| / |(finite t n f).value|)) := by
  have hzero : (finite t n f).isZero = false := by simpa [isZero] using hn
  have hdiv := overPower_div two_pos m n (f - e)
  have hpos := overPower_snd_pos two_pos (Nat.pos_of_ne_zero hn) m (f - e)
  have hvalue : (m : ℚ) / n / 2 ^ (f - e) = m * 2 ^ e / (n * 2 ^ f) := by
    rw [zpow_sub₀ two_ne_zero]
    field_simp
  rw [Nat.cast_ofNat, hvalue] at hdiv
  rw [abs_value_finite, abs_value_finite, ← hdiv, ← ofRatio_eq_nearest hpos, div?, hzero]
  rfl

theorem canonical_of_div? {z : Binary64} (h : div? x y = some z) : z.Canonical := by
  have hzero : y.isZero = false := by
    rw [← Bool.not_eq_true, ← div?_eq_none_iff x y, h]
    exact Option.some_ne_none z
  cases x <;> cases y
  case finite.finite s m e t n f =>
    have hn : n ≠ 0 := by simpa [isZero] using hzero
    rw [div?_eq_nearest hn] at h
    obtain rfl := Option.some.inj h
    exact canonical_nearest _ (by positivity)
  all_goals
    unfold div? at h
    rw [hzero] at h
    obtain rfl := Option.some.inj h
  case finite.infinite => exact canonical_nearest _ le_rfl
  all_goals trivial

end Binary64

end FluidCss.Number
