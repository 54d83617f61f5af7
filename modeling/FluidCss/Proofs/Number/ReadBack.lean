import FluidCss.Proofs.Number.Literal

set_option autoImplicit false

/-! # Numerals are read back

The text of a finite number is a literal whose value is rounded to the number, so the number
is read back from it, also with a unit behind it (`Binary64.leadingNumber_text_append`). Only the
sign of zero is lost. A number that is not finite has a text that no number is read from. -/

namespace FluidCss.Number

open Text

/-! ## Texts that stand for a value -/

/-- Whether a text is a literal without a sign, of the given value. -/
def Denotes (text : List Char) (r : ℚ) : Prop :=
  ∃ l : Literal, l.IsWellFormed ∧ l.sign = none ∧ l.text = text ∧ l.value = r

namespace Denotes

variable {text rest : List Char} {r : ℚ}

theorem nonneg (h : Denotes text r) : 0 ≤ r := by
  obtain ⟨l, -, -, -, rfl⟩ := h
  exact l.value_nonneg

theorem exists_read?_append (h : Denotes text r) (hrest : EndsLiteral rest) :
    ∃ l, Literal.read? (text ++ rest) = some (l, rest) ∧ l.sign = none ∧ l.value = r := by
  obtain ⟨l, hl, hsign, rfl, hvalue⟩ := h
  exact ⟨l, Literal.read?_text_append hl (hrest.ends l), hsign, hvalue⟩

theorem leadingNumber_append (h : Denotes text r) (hrest : EndsLiteral rest) :
    leadingNumber (text ++ rest) = Binary64.nearest false r := by
  obtain ⟨l, hl, hsign, rfl, rfl⟩ := h
  rw [Literal.leadingNumber_text_append hl (hrest.ends l), hsign]
  rfl

/-- A text that stands for a value, with a minus sign in front of it. -/
theorem exists_minus (h : Denotes text r) :
    ∃ l : Literal, l.IsWellFormed ∧ l.sign = some .minus ∧ l.text = '-' :: text ∧
      l.value = r := by
  obtain ⟨⟨s, whole, fraction, exponent⟩, hl, rfl, rfl, rfl⟩ := h
  exact ⟨⟨some .minus, whole, fraction, exponent⟩,
    ⟨hl.whole, hl.fraction, hl.fraction_ne_nil, hl.mark, hl.exponent_ne_nil, hl.exponent⟩, rfl, rfl,
    rfl⟩

theorem exists_read?_minus_append (h : Denotes text r) (hrest : EndsLiteral rest) :
    ∃ l, Literal.read? ('-' :: text ++ rest) = some (l, rest) ∧ l.sign = some .minus ∧
      l.value = r := by
  obtain ⟨l, hl, hsign, htext, hvalue⟩ := h.exists_minus
  exact ⟨l, htext ▸ Literal.read?_text_append hl (hrest.ends l), hsign, hvalue⟩

theorem leadingNumber_minus_append (h : Denotes text r) (hrest : EndsLiteral rest) :
    leadingNumber ('-' :: text ++ rest) = Binary64.nearest true r := by
  obtain ⟨l, hl, hsign, htext, rfl⟩ := h.exists_minus
  rw [← htext, Literal.leadingNumber_text_append hl (hrest.ends l), hsign]
  rfl

end Denotes

/-- Digits stand for the number that they are read as. -/
theorem denotes_of_isDigit {ds : List Char} (hne : ds ≠ []) (h : ds.all Char.isDigit = true) :
    Denotes ds (digitsValue ds) := by
  refine ⟨⟨none, ds, none, none⟩,
    Literal.isWellFormed_mk hne (forall_isDigit_of_all h) (by simp), rfl, ?_, ?_⟩
  · simp [Literal.text, Sign.text, Literal.fractionText, ExponentPart.text]
  · simp [Literal.value, Literal.digits, ExponentPart.value]

/-- Digits around a point. -/
theorem denotes_point {ds es : List Char} (hne : ds ≠ []) (hds : ds.all Char.isDigit = true)
    (hes : es.all Char.isDigit = true) :
    Denotes (ds ++ '.' :: es) (digitsValue (ds ++ es) * (10 : ℚ) ^ (-(es.length : ℤ))) := by
  refine ⟨⟨none, ds, some es, none⟩,
    Literal.isWellFormed_mk hne (forall_isDigit_of_all hds) ?_, rfl, ?_, ?_⟩
  · rintro _ ⟨⟩
    exact forall_isDigit_of_all hes
  · simp [Literal.text, Sign.text, Literal.fractionText, ExponentPart.text]
  · simp [Literal.value, Literal.digits, ExponentPart.value]

theorem denotes_digitChars (n : ℕ) : Denotes (digitChars n) n := by
  have h := denotes_of_isDigit (digitChars_ne_nil n) (all_isDigit_digitChars n)
  rwa [digitsValue_digitChars] at h

/-! ## Decimals -/

namespace Decimal

/-- The value of a decimal. -/
def value (d : Decimal) : ℚ := d.coefficient * (10 : ℚ) ^ d.exponent

theorem toBinary64_eq_nearest (d : Decimal) : d.toBinary64 = Binary64.nearest false d.value :=
  Binary64.ofDecimal_eq_nearest _ _ _

theorem value_dropZeros (fuel : ℕ) (d : Decimal) : (dropZeros fuel d).value = d.value := by
  fun_induction dropZeros fuel d with
  | case1 d => rfl
  | case2 fuel d h ih =>
    have hcast : (d.coefficient : ℚ) = (d.coefficient / 10 : ℕ) * 10 := by
      exact_mod_cast (Nat.div_mul_cancel (Nat.dvd_of_mod_eq_zero h)).symm
    rw [ih, value, value, hcast, zpow_add_one₀ (by norm_num)]
    ring
  | case3 fuel d h => rfl

theorem value_trimZeros (d : Decimal) : d.trimZeros.value = d.value := by
  unfold trimZeros
  split
  · rfl
  · exact value_dropZeros _ d

theorem value_exact (m : ℕ) (e : ℤ) : (exact m e).value = m * (2 : ℚ) ^ e := by
  unfold exact
  split
  · next h =>
    rw [value, Nat.cast_mul, Nat.pow_eq, Nat.cast_pow, Nat.cast_ofNat, zpow_zero, mul_one,
      ← zpow_natCast, Int.toNat_of_nonneg h]
  · next h =>
    have hpow : (5 : ℚ) ^ (-e).toNat * 10 ^ e = 2 ^ e := by
      rw [← zpow_natCast, Int.toNat_of_nonneg (by omega), show (10 : ℚ) = 5 * 2 by norm_num,
        mul_zpow, ← mul_assoc, ← zpow_add₀ (by norm_num), neg_add_cancel, zpow_zero, one_mul]
    rw [value, Nat.cast_mul, Nat.pow_eq, Nat.cast_pow, Nat.cast_ofNat, mul_assoc, hpow]

/-- **The shortest decimal is rounded to the number.** -/
theorem nearest_shortest {m : ℕ} {e : ℤ} (h : (Binary64.finite false m e).Canonical) :
    Binary64.nearest false (shortest m e).value = .finite false m e := by
  unfold shortest
  dsimp only
  rw [value_trimZeros]
  generalize hfound : List.find? _ _ = found
  cases found with
  | none => rw [Option.getD_none, value_exact, Binary64.nearest_of_canonical h]
  | some d =>
    rw [Option.getD_some, ← toBinary64_eq_nearest]
    have h := List.find?_some hfound
    exact eq_of_beq h

/-- An exponent as a scientific numeral writes it. -/
def exponentPart (exponent : ℤ) : ExponentPart :=
  ⟨'e', some (if exponent < 0 then .minus else .plus), digitChars exponent.natAbs⟩

theorem text_exponentPart (exponent : ℤ) : ExponentPart.text (some (exponentPart exponent)) =
    'e' :: (if exponent < 0 then '-' else '+') :: digitChars exponent.natAbs := by
  unfold exponentPart
  split <;> rfl

theorem value_exponentPart (exponent : ℤ) :
    ExponentPart.value (some (exponentPart exponent)) = exponent := by
  rw [ExponentPart.value, exponentPart, digitsValue_digitChars, Sign.apply]
  split
  · next h => rw [if_pos rfl]; omega
  · next h => rw [if_neg (by simp)]; omega

theorem denotes_scientific {ds : List Char} (hne : ds ≠ []) (hds : ds.all Char.isDigit = true)
    (exponent : ℤ) : Denotes (scientific ds exponent)
      (digitsValue ds * (10 : ℚ) ^ (exponent - ((ds.length : ℤ) - 1))) := by
  obtain ⟨c, cs, rfl⟩ := List.exists_cons_of_ne_nil hne
  have hall := List.forall_mem_cons.1 (forall_isDigit_of_all hds)
  have hformed : ∀ fraction : Option (List Char),
      (∀ es, fraction = some es → ∀ c ∈ es, isDigit c = true) →
        Literal.IsWellFormed ⟨none, [c], fraction, some (exponentPart exponent)⟩ := by
    intro fraction hfraction
    refine ⟨by simp [hall.1], hfraction, by simp, ?_, ?_, ?_⟩
    · rintro p ⟨⟩
      exact .inl rfl
    · rintro p ⟨⟩
      exact digitChars_ne_nil _
    · rintro p ⟨⟩
      exact forall_isDigit_of_all (all_isDigit_digitChars _)
  cases cs with
  | nil =>
    refine ⟨_, hformed none (by simp), rfl, ?_, ?_⟩
    · rw [Literal.text, text_exponentPart]
      rfl
    · rw [Literal.value, value_exponentPart]
      rfl
  | cons c' cs =>
    refine ⟨_, hformed (some (c' :: cs)) (by simpa using hall.2), rfl, ?_, ?_⟩
    · rw [Literal.text, text_exponentPart]
      rfl
    · rw [Literal.value, value_exponentPart, List.length_cons, Nat.cast_succ, add_sub_cancel_right]
      rfl

/-- **The numeral of a decimal stands for its value.** -/
theorem denotes_numeral (d : Decimal) : Denotes d.numeral d.value := by
  obtain ⟨coefficient, e⟩ := d
  have hne := digitChars_ne_nil coefficient
  have hds := all_isDigit_digitChars coefficient
  have hvalue : value ⟨coefficient, e⟩ = digitsValue (digitChars coefficient) * (10 : ℚ) ^ e := by
    rw [digitsValue_digitChars]
    rfl
  rw [hvalue, numeral]
  generalize digitChars coefficient = ds at hne hds ⊢
  dsimp only
  split
  · have h := denotes_scientific hne hds ((ds.length : ℤ) + e - 1)
    rwa [show (ds.length : ℤ) + e - 1 - (ds.length - 1) = e by ring] at h
  · split
    · next hplaces =>
      -- the zeros around the point do not count as digits
      let zeros := List.replicate (-((ds.length : ℤ) + e)).toNat '0'
      have hlength : -((zeros ++ ds).length : ℤ) = e := by
        rw [List.length_append, List.length_replicate]
        omega
      have hzeros : digitsValue (['0'] ++ (zeros ++ ds)) = digitsValue ds :=
        digitsValue_zeros_append (_ + 1) hds
      have h : Denotes (['0'] ++ '.' :: (zeros ++ ds)) _ := denotes_point (by simp) (by decide)
        (all_isDigit_append (all_isDigit_replicate _) hds)
      rwa [hzeros, hlength] at h
    · split
      · next hplaces =>
        have hlength : -((ds.drop ((ds.length : ℤ) + e).toNat).length : ℤ) = e := by
          rw [List.length_drop]
          omega
        have hfront : ds.take ((ds.length : ℤ) + e).toNat ≠ [] := by
          rw [Ne, List.take_eq_nil_iff]
          exact not_or.2 ⟨by omega, hne⟩
        have hback : (ds.drop ((ds.length : ℤ) + e).toNat).all Char.isDigit = true :=
          List.all_eq_true.2 fun c hc => List.all_eq_true.1 hds c (List.mem_of_mem_drop hc)
        have h := denotes_point hfront
          (List.all_eq_true.2 fun c hc => List.all_eq_true.1 hds c (List.mem_of_mem_take hc)) hback
        rwa [List.take_append_drop, hlength] at h
      · next hplaces =>
        have hexponent : ((e.toNat : ℕ) : ℤ) = e := Int.toNat_of_nonneg (by omega)
        have h : Denotes (ds ++ List.replicate e.toNat '0') _ := denotes_of_isDigit (by simp [hne])
          (all_isDigit_append hds (all_isDigit_replicate _))
        rwa [digitsValue_append_zeros _ hds, Nat.cast_mul, Nat.cast_pow, Nat.cast_ofNat,
          ← zpow_natCast, hexponent] at h

end Decimal

namespace Binary64

variable {x : Binary64} {negative : Bool} {m n : ℕ} {e : ℤ} {r : ℚ} {rest : List Char}

/-! ## Numbers -/

theorem normalized_eq_finite {k : ℕ} {f : ℤ} (h : normalized false k f = finite false m e)
    (negative : Bool) : normalized negative k f = finite negative m e := by
  by_cases hk : k = 2 ^ 53
  · rw [hk, normalized_carry] at h ⊢
    split at h
    · cases h
    · next hle =>
      rw [if_neg hle]
      cases h
      rfl
  · rw [normalized_of_ne hk] at h ⊢
    split at h
    · cases h
    · next hle =>
      rw [if_neg hle]
      cases h
      rfl

/-- A rational is rounded to the same significand and exponent with either sign. -/
theorem nearest_eq_finite (hr : 0 ≤ r) (h : nearest false r = finite false m e) (negative : Bool) :
    nearest negative r = finite negative m e := by
  rcases hr.eq_or_lt with rfl | hr
  · cases h
    rfl
  · rw [nearest_of_pos hr] at h ⊢
    exact normalized_eq_finite h negative

/-- The whole number that a finite number is, if it is one. -/
theorem whole?_eq_some_iff : whole? m e = some n ↔ (m : ℚ) * 2 ^ e = n := by
  have hpos := overPower_snd_pos two_pos Nat.one_pos m (-e)
  have hdiv := overPower_div two_pos m 1 (-e)
  rw [Nat.cast_one, div_one, Nat.cast_ofNat, zpow_neg, div_inv_eq_mul] at hdiv
  rw [← hdiv, whole?]
  generalize overPower 2 m 1 (-e) = f at hpos ⊢
  obtain ⟨num, den⟩ := f
  dsimp only at hpos ⊢
  have hden : (den : ℚ) ≠ 0 := by exact_mod_cast hpos.ne'
  rw [div_eq_iff hden, ← Nat.cast_mul, Nat.cast_inj]
  constructor
  · intro h
    split at h
    · next hmod =>
      rw [← Option.some.inj h, Nat.div_mul_cancel (Nat.dvd_of_mod_eq_zero hmod)]
    · cases h
  · rintro rfl
    rw [if_pos (Nat.mul_mod_left n den), Nat.mul_div_cancel n hpos]

/-- The text of a number without its sign stands for a value that is rounded to it. -/
theorem exists_denotes (h : (finite false m e).Canonical) :
    ∃ r, Denotes (unsignedNumeral m e) r ∧ nearest false r = finite false m e := by
  have hshortest : ∃ r, Denotes (Decimal.shortest m e).numeral r ∧
      nearest false r = finite false m e :=
    ⟨_, Decimal.denotes_numeral _, Decimal.nearest_shortest h⟩
  unfold unsignedNumeral
  split
  · next n hn =>
    split
    · refine ⟨n, denotes_digitChars n, ?_⟩
      rw [← whole?_eq_some_iff.1 hn, nearest_of_canonical h]
    · exact hshortest
  · exact hshortest

/-- **A finite number is read back from its text**, whatever stands behind it that does not go on
with a literal. Zero is read back without its sign. -/
theorem leadingNumber_text_append (hx : x.Canonical) (hfinite : x.IsFinite)
    (hrest : EndsLiteral rest) :
    leadingNumber (x.text ++ rest) = if x.isZero then zero false else x := by
  cases x with
  | nan => exact False.elim hfinite
  | infinite negative => exact False.elim hfinite
  | finite negative m e =>
    obtain ⟨hlt, hmin, hmax, hle⟩ := hx
    obtain ⟨r, hr, hnearest⟩ := exists_denotes ⟨hlt, hmin, hmax, hle⟩
    have hsigned := nearest_eq_finite hr.nonneg hnearest
    unfold text
    dsimp only
    rw [isZero]
    rcases Nat.eq_zero_or_pos m with rfl | hpos
    · obtain rfl : e = minExponent := hle.resolve_left (by decide)
      rw [if_neg (by simp), hr.leadingNumber_append hrest, hnearest]
      rfl
    · rw [if_neg (c := (m == 0) = true) (by simpa using hpos.ne')]
      cases negative with
      | false => rw [if_neg (by simp), hr.leadingNumber_append hrest, hnearest]
      | true => rw [if_pos ⟨rfl, hpos.ne'⟩, hr.leadingNumber_minus_append hrest, hsigned]

/-- No number is read from the text of a number that is not finite. -/
theorem leadingNumber_text_append_of_not (h : ¬ x.IsFinite) (rest : List Char) :
    leadingNumber (x.text ++ rest) = nan := by
  have hletter : ∀ c ∈ ['N', 'I'], ∀ cs,
      leadingNumber (c :: cs) = nan ∧ leadingNumber ('-' :: c :: cs) = nan := by
    simp only [List.forall_mem_cons]
    exact ⟨fun _ => ⟨rfl, rfl⟩, fun _ => ⟨rfl, rfl⟩, by simp⟩
  cases x with
  | nan => exact (hletter 'N' (by simp) _).1
  | infinite negative =>
    cases negative with
    | false => exact (hletter 'I' (by simp) _).1
    | true => exact (hletter 'I' (by simp) _).2
  | finite negative m e => exact absurd trivial h

end Binary64

end FluidCss.Number
