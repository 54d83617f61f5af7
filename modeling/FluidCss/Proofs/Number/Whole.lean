import FluidCss.Proofs.Number.ReadBack

set_option autoImplicit false

/-! # Whole numbers

Whole numbers of up to 53 bits are double-precision numbers: they are read, subtracted and divided
without rounding as long as the result is such a number, and they are written as what they are. -/

namespace FluidCss.Number

open Text

theorem toList_toString (n : ℤ) : (toString n).toList =
    if n < 0 then '-' :: digitChars n.natAbs else digitChars n.natAbs := by
  cases n with
  | ofNat n =>
    rw [if_neg (by simp)]
    exact String.toList_ofList
  | negSucc n =>
    rw [if_pos (by simp)]
    exact (String.toList_append).trans (congrArg _ String.toList_ofList)

/-- The sign and the absolute value of a whole number. -/
theorem sign_mul_natAbs (n : ℤ) : ((if n < 0 then -1 else 1) * n.natAbs : ℚ) = n := by
  rw [Nat.cast_natAbs, Int.cast_abs]
  split
  · next hneg => rw [abs_of_neg (by exact_mod_cast hneg), neg_one_mul, neg_neg]
  · next hneg => rw [abs_of_nonneg (by exact_mod_cast not_lt.1 hneg), one_mul]

namespace Binary64

/-- Whether a number is finite and has a value. -/
structure Represents (x : Binary64) (r : ℚ) : Prop where
  isFinite : x.IsFinite
  value_eq : x.value = r

variable {x y : Binary64} {negative : Bool} {n : ℤ} {p q : ℚ}

theorem value_neg_iff {m : ℕ} {e : ℤ} :
    (finite negative m e).value < 0 ↔ negative = true ∧ m ≠ 0 := by
  have hpow : (0 : ℚ) < 2 ^ e := by positivity
  have hnonneg : (0 : ℚ) ≤ m * 2 ^ e := by positivity
  cases negative
  · rw [value, if_neg (by simp), one_mul]
    exact iff_of_false (not_lt.2 hnonneg) (by simp)
  · rw [value, if_pos rfl, neg_one_mul, neg_lt_zero, mul_pos_iff_of_pos_right hpow, Nat.cast_pos,
      Nat.pos_iff_ne_zero, and_iff_right rfl]

/-! ## Rounding -/

/-- A positive number of at most 53 bits, in canonical form. -/
theorem exists_canonical {n : ℕ} (hpos : 0 < n) (h : n ≤ 2 ^ 53) :
    ∃ m e, (∀ negative, (finite negative m e).Canonical) ∧ (m : ℚ) * 2 ^ e = n := by
  rcases h.eq_or_lt with rfl | hlt
  · refine ⟨2 ^ 52, 1, fun _ => ⟨by decide, by decide, by decide, .inl (Nat.le_refl _)⟩, ?_⟩
    norm_num
  · have hlow := Nat.log2_self_le hpos.ne'
    have hhigh := Nat.lt_log2_self (n := n)
    have hk : n.log2 < 53 := (Nat.pow_lt_pow_iff_right (by decide)).1 (hlow.trans_lt hlt)
    generalize n.log2 = k at hlow hhigh hk
    have hpow : 2 ^ k * 2 ^ (52 - k) = 2 ^ 52 := by
      rw [← Nat.pow_add, Nat.add_sub_of_le (by omega)]
    refine ⟨n * 2 ^ (52 - k), (k : ℤ) - 52, fun _ => ⟨?_, ?_, ?_, .inl ?_⟩, ?_⟩
    · have : n * 2 ^ (52 - k) < 2 ^ (k + 1) * 2 ^ (52 - k) := by gcongr
      rw [Nat.pow_succ, Nat.mul_right_comm, hpow] at this
      exact this
    · rw [minExponent]; omega
    · rw [maxExponent]; omega
    · calc Nat.pow 2 52 = 2 ^ k * 2 ^ (52 - k) := hpow.symm
        _ ≤ n * 2 ^ (52 - k) := by gcongr
    · have hexp : (2 : ℚ) ^ (52 - k) * 2 ^ ((k : ℤ) - 52) = 1 := by
        rw [← zpow_natCast, ← zpow_add₀ two_ne_zero, Nat.cast_sub (by omega)]
        simp
      rw [Nat.cast_mul, Nat.cast_pow, Nat.cast_ofNat, mul_assoc, hexp, mul_one]

theorem represents_nearest {n : ℕ} (h : n ≤ 2 ^ 53) (negative : Bool) :
    (nearest negative n).Represents ((if negative then -1 else 1) * n) := by
  rcases Nat.eq_zero_or_pos n with rfl | hpos
  · refine ⟨trivial, ?_⟩
    simp [value, zero]
  · obtain ⟨m, e, hcanonical, hvalue⟩ := exists_canonical hpos h
    rw [← hvalue, nearest_of_canonical (hcanonical negative)]
    exact ⟨trivial, rfl⟩

/-- A whole number with its sign is its own rounding. -/
theorem represents_nearest_natAbs (h : n.natAbs ≤ 2 ^ 53) :
    (nearest (decide (n < 0)) n.natAbs).Represents n := by
  have hnearest := represents_nearest h (decide (n < 0))
  simp only [decide_eq_true_eq, sign_mul_natAbs] at hnearest
  exact hnearest

/-! ## Arithmetic -/

theorem Represents.sub (hx : x.Represents p) (hy : y.Represents q) (h : p - q = n)
    (hn : n.natAbs ≤ 2 ^ 53) : (x - y).Represents n := by
  rw [← hx.value_eq, ← hy.value_eq] at h
  change (x.sub y).Represents n
  by_cases heq : x.value = y.value
  · have hzero := isZero_iff.1 (sub_of_value_eq hx.isFinite hy.isFinite heq).1
    rw [heq, sub_self] at h
    exact ⟨hzero.1, hzero.2.trans h⟩
  · have hneg : x.value < y.value ↔ n < 0 := by
      rw [← sub_neg, h]
      exact Int.cast_lt_zero
    have habs : |x.value - y.value| = n.natAbs := by rw [h, Nat.cast_natAbs, Int.cast_abs]
    rw [sub_eq_nearest hx.isFinite hy.isFinite heq, habs, decide_eq_decide.2 hneg]
    exact represents_nearest_natAbs hn

theorem Represents.div? (hx : x.Represents p) (hy : y.Represents q) (hq : q ≠ 0) (h : p / q = n)
    (hn : n.natAbs ≤ 2 ^ 53) : ∃ z, x.div? y = some z ∧ z.Represents n := by
  obtain ⟨hfinite, rfl⟩ := hx
  obtain ⟨hfinite', rfl⟩ := hy
  cases x with
  | nan => exact hfinite.elim
  | infinite s => exact hfinite.elim
  | finite s m e =>
    cases y with
    | nan => exact hfinite'.elim
    | infinite t => exact hfinite'.elim
    | finite t k f =>
      have hk : k ≠ 0 := by
        rintro rfl
        simp [value] at hq
      have habs : |(finite s m e).value| / |(finite t k f).value| = n.natAbs := by
        rw [← abs_div, h, Nat.cast_natAbs, Int.cast_abs]
      rw [div?_eq_nearest hk, habs]
      have hx : (finite s m e).value = (if s then -1 else 1) * |(finite s m e).value| := by
        rw [abs_value_finite]
        rfl
      have hy : (finite t k f).value = (if t then -1 else 1) * |(finite t k f).value| := by
        rw [abs_value_finite]
        rfl
      have hsign : ((if s != t then -1 else 1) * n.natAbs : ℚ) = n := by
        rw [← h, hx, hy, ← habs]
        cases s <;> cases t <;> simp [neg_div, div_neg]
      exact ⟨_, rfl, hsign ▸ represents_nearest hn _⟩

/-! ## Texts -/

/-- A whole number is written in decimal. -/
theorem Represents.toText_eq (hx : x.Represents n) (hn : n.natAbs < 10 ^ 21) :
    x.toText = toString n := by
  obtain ⟨hfinite, hvalue⟩ := hx
  cases x with
  | nan => exact hfinite.elim
  | infinite s => exact hfinite.elim
  | finite s m e =>
    have habs : (m : ℚ) * 2 ^ e = n.natAbs := by
      rw [← abs_value_finite s, hvalue, Nat.cast_natAbs, Int.cast_abs]
    have hnumeral : unsignedNumeral m e = digitChars n.natAbs := by
      unfold unsignedNumeral
      rw [whole?_eq_some_iff.2 habs]
      exact if_pos hn
    rw [← String.toList_inj, toList_toString, toText, String.toList_ofList]
    unfold text
    dsimp only
    rw [hnumeral]
    have hneg : n < 0 ↔ s = true ∧ m ≠ 0 := by
      rw [← value_neg_iff (e := e), hvalue]
      exact Int.cast_lt_zero.symm
    simp only [hneg]

theorem represents_leadingNumber {rest : List Char} (hn : n.natAbs ≤ 2 ^ 53)
    (hrest : EndsLiteral rest) : (leadingNumber ((toString n).toList ++ rest)).Represents n := by
  rw [toList_toString]
  have h := represents_nearest_natAbs hn
  have hdigits := denotes_digitChars n.natAbs
  by_cases hneg : n < 0
  · rw [if_pos hneg, hdigits.leadingNumber_minus_append hrest]
    rwa [decide_eq_true hneg] at h
  · rw [if_neg hneg, hdigits.leadingNumber_append hrest]
    rwa [decide_eq_false hneg] at h

end Binary64

end FluidCss.Number
