import FluidCss.Proofs.Number.Closest
import FluidCss.Proofs.Number.ReadBack

set_option autoImplicit false

/-! # The shortest decimal is the shortest

`Decimal.IsShortest` says what the shortest decimal of a number is among all decimals: it is read
back, no decimal with fewer digits is, and none with as many digits is that is closer. The search
tries two decimals for each number of digits only. That is enough (`Decimal.isShortest_shortest`):
one of the two stands between the number and any other decimal with so many digits
(`Decimal.value_le_below_or_above_le`), so it is read back if that one is, and seventeen digits are
always enough to come close to a number (`Decimal.exists_reads_seventeen`). -/

namespace FluidCss.Number

/-! ## The largest power of ten -/

theorem decimalLength_mono {m n : ℕ} (h : m ≤ n) : decimalLength m ≤ decimalLength n := by
  refine (Nat.length_toDigits_le_iff (by decide) Nat.length_toDigits_pos).2 (h.trans_lt ?_)
  exact (Nat.length_toDigits_le_iff (by decide) Nat.length_toDigits_pos).1 le_rfl

theorem decimalLength_le_iff {n k : ℕ} (hk : 0 < k) : decimalLength n ≤ k ↔ n < 10 ^ k :=
  Nat.length_toDigits_le_iff (by decide) hk

theorem log_eq_of_pow_le {r : ℚ} {k : ℤ} (hlow : (10 : ℚ) ^ k ≤ r) (hhigh : r < 10 ^ (k + 1)) :
    Int.log 10 r = k := by
  have hpos : 0 < r := lt_of_lt_of_le (by positivity) hlow
  have hle : k ≤ Int.log 10 r :=
    (Int.zpow_le_iff_le_log (by decide) hpos).1 (by exact_mod_cast hlow)
  have hlt : Int.log 10 r < k + 1 :=
    (Int.lt_zpow_iff_log_lt (by decide) hpos).1 (by exact_mod_cast hhigh)
  omega

/-- The exponent of the largest power of ten depends on the value of the fraction alone. -/
theorem floorLog10_eq_log {num den : ℕ} (hnum : 0 < num) (hden : 0 < den) :
    floorLog10 num den = Int.log 10 ((num : ℚ) / den) := by
  have hd : (0 : ℚ) < den := by exact_mod_cast hden
  have hn : (0 : ℚ) < num := by exact_mod_cast hnum
  rw [eq_comm, floorLog10]
  split
  · next hle =>
    -- the digits before the point
    obtain ⟨hlow, hhigh⟩ := decimalLength_spec (Nat.div_pos hle hden).ne'
    have hfloor : ((num / den : ℕ) : ℚ) ≤ num / den := Nat.cast_div_le
    have hceil : (num : ℚ) / den < (num / den : ℕ) + 1 := by
      rw [← Nat.floor_div_eq_div (K := ℚ)]
      exact Nat.lt_floor_add_one _
    have hhigh' : ((num / den : ℕ) : ℚ) + 1 ≤ 10 ^ (decimalLength (num / den) : ℤ) := by
      rw [zpow_natCast] at hhigh ⊢
      exact_mod_cast hhigh
    refine log_eq_of_pow_le (hlow.trans hfloor) ?_
    rw [sub_add_cancel]
    exact hceil.trans_le hhigh'
  · next hgt =>
    -- the zeros behind the point
    have hmod := Nat.div_add_mod (den + num - 1) num
    have hlt := Nat.mod_lt (den + num - 1) hnum
    generalize (den + num - 1) / num = t at hmod ⊢
    have htwo : 2 ≤ t := by
      by_contra hsmall
      have hle : num * t ≤ num * 1 := Nat.mul_le_mul_left num (by omega)
      omega
    obtain ⟨c, rfl⟩ : ∃ c, t = c + 1 := ⟨t - 1, by omega⟩
    rw [Nat.mul_succ] at hmod
    rw [Nat.add_sub_cancel]
    have hc : c ≠ 0 := by omega
    obtain ⟨hlow, hhigh⟩ := decimalLength_spec hc
    have hbelow : (c : ℚ) * num < den := by
      have hnat : num * c < den := by omega
      rw [mul_comm]
      exact_mod_cast hnat
    have habove : (den : ℚ) ≤ (c + 1) * num := by
      have hnat : den ≤ num * c + num := by omega
      have hcast : (den : ℚ) ≤ num * c + num := by exact_mod_cast hnat
      linarith
    have hhigh' : (c : ℚ) + 1 ≤ 10 ^ (decimalLength c : ℤ) := by
      rw [zpow_natCast] at hhigh ⊢
      exact_mod_cast hhigh
    refine log_eq_of_pow_le ?_ ?_
    · rw [zpow_neg, inv_le_comm₀ (by positivity) (by positivity), inv_div, div_le_iff₀ hn]
      exact habove.trans (by gcongr)
    · rw [show -(decimalLength c : ℤ) + 1 = -((decimalLength c : ℤ) - 1) by ring, zpow_neg,
        lt_inv_comm₀ (by positivity) (by positivity), inv_div, lt_div_iff₀ hn]
      exact lt_of_le_of_lt (by gcongr) hbelow

namespace Decimal

variable {d d' : Decimal} {r : ℚ} {k m : ℕ} {e : ℤ}

/-! ## Trailing zeros -/

theorem coefficient_dropZeros (fuel : ℕ) (d : Decimal) (hne : d.coefficient ≠ 0)
    (hlt : d.coefficient < 10 ^ fuel) : (dropZeros fuel d).coefficient % 10 ≠ 0 := by
  fun_induction dropZeros fuel d with
  | case1 d =>
    rw [pow_zero] at hlt
    omega
  | case2 fuel d h ih =>
    dsimp only at ih
    rw [pow_succ] at hlt
    exact ih (by omega) (by omega)
  | case3 fuel d h => exact h

theorem coefficient_trimZeros (hne : d.coefficient ≠ 0) : d.trimZeros.coefficient % 10 ≠ 0 := by
  rw [trimZeros, if_neg hne]
  exact coefficient_dropZeros _ d hne ((decimalLength_le_iff Nat.length_toDigits_pos).1 le_rfl)

/-- On the finer of two grids a decimal has zeros behind its digits. -/
theorem coefficient_eq_of_value_eq (h : d.value = d'.value) (hle : d'.exponent ≤ d.exponent) :
    d'.coefficient = d.coefficient * 10 ^ (d.exponent - d'.exponent).toNat := by
  have hpow : (10 : ℚ) ^ d'.exponent ≠ 0 := by positivity
  have hsplit : (10 : ℚ) ^ d.exponent =
      10 ^ (d.exponent - d'.exponent).toNat * 10 ^ d'.exponent := by
    rw [← zpow_natCast, Int.toNat_of_nonneg (by omega), ← zpow_add₀ (by norm_num), sub_add_cancel]
  rw [value, value, hsplit, ← mul_assoc, mul_left_inj' hpow] at h
  exact_mod_cast h.symm

/-- **A decimal without trailing zeros is the shortest one of its value.** -/
theorem coefficient_le_of_value_eq (hd : d.coefficient % 10 ≠ 0) (h : d.value = d'.value) :
    d.coefficient ≤ d'.coefficient := by
  rcases le_or_gt d'.exponent d.exponent with hle | hlt
  · rw [coefficient_eq_of_value_eq h hle]
    exact Nat.le_mul_of_pos_right _ (by positivity)
  · have heq := coefficient_eq_of_value_eq h.symm hlt.le
    obtain ⟨j, hj⟩ : ∃ j, (d'.exponent - d.exponent).toNat = j + 1 :=
      ⟨(d'.exponent - d.exponent).toNat - 1, by omega⟩
    rw [hj, pow_succ, ← mul_assoc] at heq
    exact absurd (by rw [heq]; exact Nat.mul_mod_left _ _) hd

theorem value_nonneg (d : Decimal) : 0 ≤ d.value := by
  rw [value]
  positivity

theorem decimalLength_trimZeros_le (hne : d.coefficient ≠ 0) (h : d.value = d'.value) :
    decimalLength d.trimZeros.coefficient ≤ decimalLength d'.coefficient :=
  decimalLength_mono
    (coefficient_le_of_value_eq (coefficient_trimZeros hne) ((value_trimZeros d).trans h))

/-! ## Neighbours -/

/-- The exponent of the decimals with so many digits that are of the size of a number. -/
def gridExponent (r : ℚ) (digits : ℕ) : ℤ := Int.log 10 r - digits + 1

/-- The largest decimal with so many digits that is not above a number. -/
def below (r : ℚ) (digits : ℕ) : Decimal :=
  ⟨⌊r / 10 ^ gridExponent r digits⌋₊, gridExponent r digits⟩

/-- The decimal next to it. -/
def above (r : ℚ) (digits : ℕ) : Decimal :=
  ⟨⌊r / 10 ^ gridExponent r digits⌋₊ + 1, gridExponent r digits⟩

theorem neighbours_eq {num den : ℕ} (hnum : 0 < num) (hden : 0 < den) (hr : r = (num : ℚ) / den) :
    neighbours num den k =
      if roundRat (r / 10 ^ gridExponent r k) = ⌊r / 10 ^ gridExponent r k⌋₊ then
        [below r k, above r k]
      else [above r k, below r k] := by
  have hexponent : floorLog10 num den - (k : ℤ) + 1 = gridExponent r k := by
    rw [floorLog10_eq_log hnum hden, gridExponent, hr]
  have hdiv := overPower_div (show 0 < 10 by decide) num den (gridExponent r k)
  have hpos := overPower_snd_pos (show 0 < 10 by decide) hden num (gridExponent r k)
  rw [Nat.cast_ofNat, ← hr] at hdiv
  unfold neighbours
  dsimp only
  rw [hexponent]
  generalize overPower 10 num den (gridExponent r k) = fraction at hdiv hpos ⊢
  obtain ⟨n, d⟩ := fraction
  dsimp only at hdiv hpos ⊢
  rw [roundHalfEven_eq_roundRat hpos, hdiv, ← Nat.floor_div_eq_div (K := ℚ), hdiv]
  rfl

theorem value_below_le (hr : 0 < r) (k : ℕ) : (below r k).value ≤ r := by
  have hpow : (0 : ℚ) < 10 ^ gridExponent r k := by positivity
  rw [value, below, ← le_div_iff₀ hpow]
  exact Nat.floor_le (by positivity)

theorem lt_value_above (r : ℚ) (k : ℕ) : r < (above r k).value := by
  have hpow : (0 : ℚ) < 10 ^ gridExponent r k := by positivity
  rw [value, above, ← div_lt_iff₀ hpow, Nat.cast_succ]
  exact Nat.lt_floor_add_one _

theorem value_above (r : ℚ) (k : ℕ) :
    (above r k).value = (below r k).value + 10 ^ gridExponent r k := by
  rw [value, value, above, below]
  push_cast
  ring

/-- The power of ten at the front of a number is one of the decimals with so many digits. -/
theorem zpow_log_eq (hk : 0 < k) (r : ℚ) :
    (10 : ℚ) ^ Int.log 10 r = (10 ^ (k - 1) : ℕ) * 10 ^ gridExponent r k := by
  rw [Nat.cast_pow, Nat.cast_ofNat, ← zpow_natCast, ← zpow_add₀ (by norm_num), gridExponent,
    Nat.cast_sub hk]
  congr 1
  ring

theorem zpow_log_le_value_below (hr : 0 < r) (hk : 0 < k) :
    (10 : ℚ) ^ Int.log 10 r ≤ (below r k).value := by
  have hpow : (0 : ℚ) < 10 ^ gridExponent r k := by positivity
  have hlog := Int.zpow_log_le_self (show 1 < 10 by decide) hr
  rw [Nat.cast_ofNat, zpow_log_eq hk r] at hlog
  rw [zpow_log_eq hk r, value, below]
  gcongr
  exact Nat.le_floor ((le_div_iff₀ hpow).2 hlog)

theorem coefficient_below_lt (hr : 0 < r) (k : ℕ) : (below r k).coefficient < 10 ^ k := by
  have hlog := Int.lt_zpow_succ_log_self (show 1 < 10 by decide) r
  rw [below, Nat.floor_lt (by positivity), div_lt_iff₀ (by positivity), Nat.cast_pow,
    Nat.cast_ofNat, ← zpow_natCast, ← zpow_add₀ (by norm_num), gridExponent]
  rw [Nat.cast_ofNat] at hlog
  refine hlog.trans_le (le_of_eq ?_)
  congr 1
  ring

/-- **No decimal with at most so many digits lies between the two neighbours.** -/
theorem value_le_below_or_above_le (hr : 0 < r) (hk : 0 < k)
    (hlength : decimalLength d.coefficient ≤ k) :
    d.value ≤ (below r k).value ∨ (above r k).value ≤ d.value := by
  have hten : (0 : ℚ) < 10 ^ d.exponent := by positivity
  rcases lt_or_ge d.value (10 ^ Int.log 10 r) with hlt | hge
  · exact .inl (hlt.le.trans (zpow_log_le_value_below hr hk))
  · -- a decimal that is not smaller than the power of ten is a multiple of the step
    have hcoefficient : (d.coefficient : ℚ) < 10 ^ (k : ℤ) := by
      rw [zpow_natCast]
      exact_mod_cast (decimalLength_le_iff hk).1 hlength
    have hexponent : gridExponent r k ≤ d.exponent := by
      have hlt : (10 : ℚ) ^ Int.log 10 r < 10 ^ ((k : ℤ) + d.exponent) := by
        rw [zpow_add₀ (by norm_num)]
        exact hge.trans_lt (by rw [value]; gcongr)
      have := (zpow_lt_zpow_iff_right₀ (by norm_num)).1 hlt
      rw [gridExponent]
      omega
    have hvalue : d.value = (d.coefficient * 10 ^ (d.exponent - gridExponent r k).toNat : ℕ) *
        10 ^ gridExponent r k := by
      rw [value, Nat.cast_mul, Nat.cast_pow, Nat.cast_ofNat, mul_assoc, ← zpow_natCast,
        Int.toNat_of_nonneg (by omega), ← zpow_add₀ (by norm_num), sub_add_cancel]
    rw [hvalue]
    rcases Nat.lt_or_ge ⌊r / 10 ^ gridExponent r k⌋₊
        (d.coefficient * 10 ^ (d.exponent - gridExponent r k).toNat) with hlt | hle
    · refine .inr ?_
      rw [value, above]
      gcongr
      exact hlt
    · refine .inl ?_
      rw [value, below]
      gcongr

/-- The decimal that is tried first is not the farther one. -/
theorem abs_sub_le_of_roundRat (hr : 0 < r) (k : ℕ) :
    if roundRat (r / 10 ^ gridExponent r k) = ⌊r / 10 ^ gridExponent r k⌋₊ then
      |(below r k).value - r| ≤ |(above r k).value - r|
    else |(above r k).value - r| ≤ |(below r k).value - r| := by
  have hpow : (0 : ℚ) < 10 ^ gridExponent r k := by positivity
  have hbelow : |(below r k).value - r| = r - (below r k).value := by
    rw [abs_sub_comm, abs_of_nonneg (sub_nonneg.2 (value_below_le hr k))]
  have habove : |(above r k).value - r| = (above r k).value - r :=
    abs_of_pos (sub_pos.2 (lt_value_above r k))
  have hscaled : 0 ≤ r / 10 ^ gridExponent r k := by positivity
  obtain ⟨hlow, hhigh⟩ := roundRat_near hscaled
  rw [hbelow, habove, value, value, below, above]
  dsimp only
  generalize (10 : ℚ) ^ gridExponent r k = p at hpow hlow hhigh hscaled ⊢
  have hr' : r = r / p * p := (div_mul_cancel₀ _ hpow.ne').symm
  generalize r / p = s at hlow hhigh hscaled hr' ⊢
  have hfloor := Nat.floor_le hscaled
  have hceil := Nat.lt_floor_add_one s
  rw [Nat.cast_succ]
  split
  · next heq =>
    rw [heq] at hlow
    rw [hr']
    nlinarith
  · next hne =>
    have hup : (⌊s⌋₊ : ℚ) + 1 ≤ roundRat s := by
      have hle : ⌊s⌋₊ ≤ roundRat s := le_roundRat hfloor
      exact_mod_cast Nat.lt_of_le_of_ne hle (Ne.symm hne)
    rw [hr']
    nlinarith

/-! ## Decimals that are read back -/

/-- Whether a decimal is the shortest one that is read back as a number: none that is read back has
fewer digits, and none with as many digits is closer to the number. -/
structure IsShortest (d : Decimal) (x : Binary64) : Prop where
  reads : d.toBinary64 = x
  length_le : ∀ d' : Decimal, d'.toBinary64 = x →
    decimalLength d.coefficient ≤ decimalLength d'.coefficient
  closest : ∀ d' : Decimal, d'.toBinary64 = x →
    decimalLength d'.coefficient = decimalLength d.coefficient →
      |d.value - x.value| ≤ |d'.value - x.value|

section Reads

variable {num den : ℕ}

theorem coefficient_ne_zero_of_reads (hm : m ≠ 0) (h : d.toBinary64 = .finite false m e) :
    d.coefficient ≠ 0 := by
  intro hzero
  rw [toBinary64_eq_nearest, value, hzero, Nat.cast_zero, zero_mul, Binary64.nearest_zero] at h
  cases h
  exact hm rfl

/-- **One of the two neighbours is as good as any decimal with at most so many digits.** -/
theorem exists_neighbour (hx : (Binary64.finite false m e).Canonical) (hm : m ≠ 0) (hk : 0 < k)
    (hreads : d.toBinary64 = .finite false m e) (hlength : decimalLength d.coefficient ≤ k) :
    ∃ d', (d' = below (m * 2 ^ e) k ∨ d' = above (m * 2 ^ e) k) ∧
      d'.toBinary64 = .finite false m e ∧
      |d'.value - m * 2 ^ e| ≤ |d.value - m * 2 ^ e| := by
  have hpos : (0 : ℚ) < m * 2 ^ e := by positivity
  have hself := Binary64.nearest_of_canonical hx
  rw [toBinary64_eq_nearest] at hreads
  have hbelow := value_below_le hpos k
  have habove := (lt_value_above ((m : ℚ) * 2 ^ e) k).le
  rcases value_le_below_or_above_le hpos hk hlength with hle | hge
  · refine ⟨_, .inl rfl, ?_, ?_⟩
    · rw [toBinary64_eq_nearest]
      exact Binary64.nearest_of_between d.value_nonneg hle hbelow hreads hself
    · rw [abs_sub_comm, abs_of_nonneg (sub_nonneg.2 hbelow), abs_sub_comm,
        abs_of_nonneg (sub_nonneg.2 (hle.trans hbelow))]
      linarith
  · refine ⟨_, .inr rfl, ?_, ?_⟩
    · rw [toBinary64_eq_nearest]
      exact Binary64.nearest_of_between hpos.le habove hge hself hreads
    · rw [abs_of_nonneg (sub_nonneg.2 habove), abs_of_nonneg (sub_nonneg.2 (habove.trans hge))]
      linarith

/-- **Seventeen digits are enough.** -/
theorem exists_reads_seventeen (hx : (Binary64.finite false m e).Canonical) (hm : m ≠ 0) :
    (below (m * 2 ^ e) 17).toBinary64 = .finite false m e ∨
      (above (m * 2 ^ e) 17).toBinary64 = .finite false m e := by
  have hpos : (0 : ℚ) < m * 2 ^ e := by positivity
  have hstep : (10 : ℚ) ^ gridExponent (m * 2 ^ e) 17 ≤ m * 2 ^ e / 10 ^ 16 := by
    have hlog := Int.zpow_log_le_self (show 1 < 10 by decide) hpos
    rw [Nat.cast_ofNat, zpow_log_eq (show 0 < 17 by decide), Nat.cast_pow, Nat.cast_ofNat] at hlog
    rw [le_div_iff₀ (by norm_num), mul_comm]
    exact hlog
  have hbelow := value_below_le hpos 17
  have habove := lt_value_above ((m : ℚ) * 2 ^ e) 17
  have hdistance := value_above ((m : ℚ) * 2 ^ e) 17
  rw [toBinary64_eq_nearest, toBinary64_eq_nearest]
  rcases le_or_gt ((m : ℚ) * 2 ^ e - (below (m * 2 ^ e) 17).value)
    (10 ^ gridExponent (m * 2 ^ e) 17 / 2) with hnear | hfar
  · refine .inl (Binary64.nearest_of_near hx (value_nonneg _) ?_)
    rw [abs_of_nonneg (sub_nonneg.2 hbelow)]
    linarith
  · refine .inr (Binary64.nearest_of_near hx (value_nonneg _) ?_)
    rw [abs_sub_comm, abs_of_pos (sub_pos.2 habove)]
    linarith

/-! ## The search -/

/-- What the search finds among the neighbours for one number of digits. -/
theorem find?_neighbours (hnum : 0 < num) (hden : 0 < den) (hr : r = (num : ℚ) / den)
    (p : Decimal → Bool) :
    match (neighbours num den k).find? p with
    | some d => (d = below r k ∨ d = above r k) ∧ p d = true ∧
        ∀ d', d' = below r k ∨ d' = above r k → p d' = true → |d.value - r| ≤ |d'.value - r|
    | none => p (below r k) = false ∧ p (above r k) = false := by
  have hpos : 0 < r := by
    rw [hr]
    positivity
  have hfirst := abs_sub_le_of_roundRat hpos k
  rw [neighbours_eq hnum hden hr]
  split at hfirst
  · next hround =>
    rw [if_pos hround]
    cases hb : p (below r k) <;> cases ha : p (above r k) <;> simp_all
  · next hround =>
    rw [if_neg hround]
    cases hb : p (below r k) <;> cases ha : p (above r k) <;> simp_all

/-- **What the search finds**: a neighbour for the least number of digits for which one is read
back, the closer one if both are. -/
theorem exists_shortest_eq (hx : (Binary64.finite false m e).Canonical) (hm : m ≠ 0) :
    ∃ k d, 0 < k ∧ shortest m e = d.trimZeros ∧
      (d = below (m * 2 ^ e) k ∨ d = above (m * 2 ^ e) k) ∧
      d.toBinary64 = .finite false m e ∧
      (∀ d', d' = below (m * 2 ^ e) k ∨ d' = above (m * 2 ^ e) k →
        d'.toBinary64 = .finite false m e → |d.value - m * 2 ^ e| ≤ |d'.value - m * 2 ^ e|) ∧
      ∀ j, 0 < j → j < k → (below (m * 2 ^ e) j).toBinary64 ≠ .finite false m e ∧
        (above (m * 2 ^ e) j).toBinary64 ≠ .finite false m e := by
  have hdiv := overPower_div two_pos m 1 (-e)
  have hden := overPower_snd_pos two_pos Nat.one_pos m (-e)
  rw [Nat.cast_one, div_one, Nat.cast_ofNat, zpow_neg, div_inv_eq_mul] at hdiv
  unfold shortest
  dsimp only
  generalize overPower 2 m 1 (-e) = fraction at hdiv hden ⊢
  obtain ⟨num, den⟩ := fraction
  dsimp only at hdiv hden ⊢
  have hnum : 0 < num := by
    refine Nat.pos_of_ne_zero fun hzero => ?_
    rw [hzero, Nat.cast_zero, zero_div, eq_comm, mul_eq_zero, Nat.cast_eq_zero] at hdiv
    exact hdiv.elim hm (zpow_ne_zero e two_ne_zero)
  have hfind := fun k => find?_neighbours (k := k) hnum hden hdiv.symm
    fun d => d.toBinary64 == .finite false m e
  rw [List.find?_flatMap]
  cases hfound : (List.range 17).findSome? _ with
  | none =>
    have hlast := List.findSome?_eq_none_iff.1 hfound 16 (by decide)
    have hnone := hfind 17
    rw [hlast] at hnone
    obtain ⟨hbelow, habove⟩ := hnone
    rcases exists_reads_seventeen hx hm with hreads | hreads
    · rw [hreads, beq_self_eq_true] at hbelow
      cases hbelow
    · rw [hreads, beq_self_eq_true] at habove
      cases habove
  | some d =>
    obtain ⟨front, i, back, hrange, hi, hfront⟩ := List.findSome?_eq_some_iff.1 hfound
    have hsome := hfind (i + 1)
    rw [hi] at hsome
    obtain ⟨hcases, hreads, hclosest⟩ := hsome
    refine ⟨i + 1, d, Nat.succ_pos i, rfl, hcases, beq_iff_eq.1 hreads,
      fun d' hd' hreads' => hclosest d' hd' (beq_iff_eq.2 hreads'), fun j hj hlt => ?_⟩
    -- all smaller numbers of digits have been tried before
    obtain ⟨j, rfl⟩ : ∃ j', j = j' + 1 := ⟨j - 1, by omega⟩
    have hordered : (front ++ i :: back).Pairwise (· < ·) := hrange ▸ List.pairwise_lt_range
    have hmem : j ∈ front ++ i :: back := by
      have hi' : i ∈ List.range 17 := hrange ▸ List.mem_append_right _ List.mem_cons_self
      rw [← hrange, List.mem_range]
      rw [List.mem_range] at hi'
      omega
    have hjfront : j ∈ front := by
      rcases List.mem_append.1 hmem with hin | hin
      · exact hin
      · rcases List.mem_cons.1 hin with rfl | hback
        · omega
        · have hgt := (List.pairwise_cons.1 (List.pairwise_append.1 hordered).2.1).1 j hback
          omega
    have hnone := hfind (j + 1)
    rw [hfront j hjfront] at hnone
    exact ⟨beq_eq_false_iff_ne.1 hnone.1, beq_eq_false_iff_ne.1 hnone.2⟩

/-- Without its trailing zeros a neighbour has no more digits than it should have. -/
theorem decimalLength_trimZeros_neighbour (hr : 0 < r) (hk : 0 < k)
    (hd : d = below r k ∨ d = above r k) (hne : d.coefficient ≠ 0) :
    decimalLength d.trimZeros.coefficient ≤ k := by
  have hle : d.coefficient ≤ 10 ^ k := by
    have hlt := coefficient_below_lt hr k
    rcases hd with rfl | rfl
    · exact hlt.le
    · exact hlt
  rcases hle.eq_or_lt with heq | hlt
  · -- the next power of ten has one digit only
    have hvalue : d.value = (⟨1, d.exponent + k⟩ : Decimal).value := by
      rw [value, value, heq, Nat.cast_pow, Nat.cast_ofNat, Nat.cast_one, one_mul,
        zpow_add₀ (by norm_num), zpow_natCast, mul_comm]
    exact (decimalLength_trimZeros_le hne hvalue).trans
      ((decimalLength_le_iff hk).2 (Nat.one_lt_pow hk.ne' (by decide)))
  · exact (decimalLength_trimZeros_le hne rfl).trans ((decimalLength_le_iff hk).2 hlt)

/-- **The shortest decimal is the shortest.** -/
theorem isShortest_shortest (hx : (Binary64.finite false m e).Canonical) (hm : m ≠ 0) :
    (shortest m e).IsShortest (.finite false m e) := by
  have hpos : (0 : ℚ) < m * 2 ^ e := by positivity
  have hvalue := Binary64.value_finite_false m e
  obtain ⟨k, d, hk, heq, hcases, hreads, hclosest, hleast⟩ := exists_shortest_eq hx hm
  have hne := coefficient_ne_zero_of_reads hm hreads
  have hlength := decimalLength_trimZeros_neighbour hpos hk hcases hne
  rw [heq]
  refine ⟨?_, fun d' hreads' => ?_, fun d' hreads' hlength' => ?_⟩
  · rw [toBinary64_eq_nearest, value_trimZeros, ← toBinary64_eq_nearest]
    exact hreads
  · by_contra hlt
    rw [not_le] at hlt
    have hlength' : 0 < decimalLength d'.coefficient := Nat.length_toDigits_pos
    obtain ⟨d'', hcases', hreads'', -⟩ := exists_neighbour hx hm hlength' hreads' le_rfl
    obtain ⟨hbelow, habove⟩ := hleast _ hlength' (hlt.trans_le hlength)
    rcases hcases' with rfl | rfl
    · exact hbelow hreads''
    · exact habove hreads''
  · obtain ⟨d'', hcases', hreads'', hle⟩ :=
      exists_neighbour hx hm hk hreads' (hlength'.le.trans hlength)
    rw [value_trimZeros, hvalue]
    exact (hclosest d'' hcases' hreads'').trans hle

end Reads

end Decimal

end FluidCss.Number
