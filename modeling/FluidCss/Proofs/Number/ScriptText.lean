import FluidCss.Proofs.Number.Shortest
import FluidCss.Proofs.Number.Whole

set_option autoImplicit false

/-! # Numbers as the scripts of a browser write them

`Binary64.IsScriptText` says which text the scripts of a browser give a number: the digits of its
shortest decimal, laid out by where the point falls. Most numbers are written in this way here too.
The exceptions are whole numbers below `10 ^ 21`: they are written out in full, which is another
text if the number has more digits than its shortest decimal, whose places scripts fill with zeros.
This cannot happen below `2 ^ 53` (`Binary64.isScriptText_toText_iff`). -/

namespace FluidCss.Number

open Text

/-! ## Layout -/

/-- A power of ten behind digits, as scripts write it. -/
def exponentText (n : ℤ) : List Char := 'e' :: (if n < 0 then '-' else '+') :: digitChars n.natAbs

/-- Digits laid out as scripts do it, with the point behind `places` of them. -/
def laidOut (digits : List Char) (places : ℤ) : List Char :=
  if (digits.length : ℤ) ≤ places ∧ places ≤ 21 then
    digits ++ List.replicate (places - digits.length).toNat '0'
  else if 0 < places ∧ places ≤ 21 then
    digits.take places.toNat ++ '.' :: digits.drop places.toNat
  else if -6 < places ∧ places ≤ 0 then
    ['0', '.'] ++ List.replicate (-places).toNat '0' ++ digits
  else if digits.length = 1 then digits ++ exponentText (places - 1)
  else digits.take 1 ++ '.' :: digits.drop 1 ++ exponentText (places - 1)

namespace Decimal

variable {d d' : Decimal} {x : Binary64} {m n k : ℕ} {e : ℤ}

/-- The digits of a decimal, laid out as scripts do it. -/
def scriptText (d : Decimal) : List Char :=
  laidOut (digitChars d.coefficient) ((digitChars d.coefficient).length + d.exponent)

theorem scientific_eq {ds : List Char} (hne : ds ≠ []) (n : ℤ) :
    scientific ds n =
      if ds.length = 1 then ds ++ exponentText n
      else ds.take 1 ++ '.' :: ds.drop 1 ++ exponentText n := by
  obtain ⟨c, cs, rfl⟩ := List.exists_cons_of_ne_nil hne
  cases cs with
  | nil => rfl
  | cons c' cs =>
    rw [if_neg (by simp)]
    rfl

/-- **Numerals are laid out as scripts do it.** -/
theorem numeral_eq_scriptText (d : Decimal) : d.numeral = d.scriptText := by
  rw [numeral, scriptText]
  have hne := digitChars_ne_nil d.coefficient
  generalize digitChars d.coefficient = ds at hne ⊢
  have hlength := List.length_pos_iff.2 hne
  rw [scientific_eq hne, laidOut, maxPlacesBefore, maxZerosAfter]
  split
  · next hfar =>
    generalize (ds.length : ℤ) + d.exponent = places at hfar ⊢
    have hwhole : ¬ ((ds.length : ℤ) ≤ places ∧ places ≤ 21) := by omega
    have hwithin : ¬ (0 < places ∧ places ≤ 21) := by omega
    have hbehind : ¬ (-6 < places ∧ places ≤ 0) := by omega
    rw [if_neg hwhole, if_neg hwithin, if_neg hbehind]
  · next hnear =>
    split
    · next hbehind =>
      rw [if_neg (by omega), if_neg (by omega), if_pos (by omega)]
      rfl
    · next hfront =>
      split
      · next hwithin => rw [if_neg (by omega), if_pos (by omega)]
      · next hwhole =>
        rw [if_pos (by omega)]
        congr 2
        omega

/-! ## Shortest decimals -/

/-- The shortest decimal has no trailing zero. -/
theorem IsShortest.coefficient_mod (h : d.IsShortest x) (hne : d.coefficient ≠ 0) :
    d.coefficient % 10 ≠ 0 := by
  intro hmod
  have hvalue : (⟨d.coefficient / 10, d.exponent + 1⟩ : Decimal).value = d.value := by
    have hcast : (d.coefficient : ℚ) = (d.coefficient / 10 : ℕ) * 10 := by
      exact_mod_cast (Nat.div_mul_cancel (Nat.dvd_of_mod_eq_zero hmod)).symm
    rw [value, value, hcast, zpow_add_one₀ (by norm_num)]
    ring
  have hreads : (⟨d.coefficient / 10, d.exponent + 1⟩ : Decimal).toBinary64 = x := by
    rw [toBinary64_eq_nearest, hvalue, ← toBinary64_eq_nearest, h.reads]
  have hpos : 0 < decimalLength (d.coefficient / 10) := Nat.length_toDigits_pos
  have hle := (decimalLength_le_iff hpos).1 (h.length_le _ hreads)
  have hlow := (decimalLength_spec (n := d.coefficient / 10) (by omega)).1
  obtain ⟨j, hj⟩ : ∃ j, decimalLength (d.coefficient / 10) = j + 1 :=
    ⟨decimalLength (d.coefficient / 10) - 1, by omega⟩
  rw [hj, Nat.cast_succ, add_sub_cancel_right, zpow_natCast] at hlow
  have hlow' : 10 ^ j ≤ d.coefficient / 10 := by exact_mod_cast hlow
  rw [hj, pow_succ] at hle
  omega

/-- All shortest decimals of a number are equal to it if one is. -/
theorem IsShortest.value_eq (h : d.IsShortest x) (h' : d'.IsShortest x)
    (hvalue : d.value = x.value) : d'.value = x.value := by
  have hlength := le_antisymm (h.length_le d' h'.reads) (h'.length_le d h.reads)
  have hle := h'.closest d h.reads hlength
  rw [hvalue, sub_self, abs_zero] at hle
  exact sub_eq_zero.1 (abs_eq_zero.1 (le_antisymm hle (abs_nonneg _)))

/-- Zeros behind the digits of a number multiply it by a power of ten. -/
theorem digitChars_mul_pow (hn : 0 < n) (k : ℕ) :
    digitChars (n * 10 ^ k) = digitChars n ++ List.replicate k '0' := by
  induction k with
  | zero => simp
  | succ k ih =>
    have hpos : 0 < n * 10 ^ k := by positivity
    have happend :=
      Nat.toDigits_append_toDigits (show 1 < 10 by decide) hpos (show 0 < 10 by decide)
    rw [pow_succ, ← mul_assoc, mul_comm _ 10, digitChars, ← add_zero (10 * (n * 10 ^ k)), ← happend,
      ← digitChars, ih, List.append_assoc, List.replicate_succ']
    rfl

/-- A text stands for one value at most. -/
theorem value_unique {text : List Char} {p q : ℚ} (hp : Denotes text p) (hq : Denotes text q) :
    p = q := by
  obtain ⟨l, hl, -, hpl⟩ := hp.exists_read?_append endsLiteral_nil
  obtain ⟨l', hl', -, hql⟩ := hq.exists_read?_append endsLiteral_nil
  rw [hl] at hl'
  obtain ⟨rfl, -⟩ := Prod.mk.inj (Option.some.inj hl')
  rw [← hpl, ← hql]

/-- **When a script writes a whole number out in full.** -/
theorem IsShortest.scriptText_eq_iff (h : d.IsShortest x) (hne : d.coefficient ≠ 0)
    (hn : n < 10 ^ 21) : d.scriptText = digitChars n ↔ d.value = n := by
  constructor
  · intro htext
    have hd := denotes_numeral d
    rw [numeral_eq_scriptText, htext] at hd
    exact value_unique hd (denotes_digitChars n)
  · intro hvalue
    have hexponent : 0 ≤ d.exponent := by
      by_contra hneg
      -- the coefficient would end in a zero
      have hself : (⟨n, 0⟩ : Decimal).value = d.value := by
        rw [hvalue]
        simp [value]
      have heq := coefficient_eq_of_value_eq hself (show d.exponent ≤ 0 by omega)
      obtain ⟨j, hj⟩ : ∃ j, ((0 : ℤ) - d.exponent).toNat = j + 1 :=
        ⟨((0 : ℤ) - d.exponent).toNat - 1, by omega⟩
      dsimp only at heq
      rw [hj, pow_succ, ← mul_assoc] at heq
      exact h.coefficient_mod hne (by rw [heq]; exact Nat.mul_mod_left _ _)
    obtain ⟨j, hj⟩ := Int.eq_ofNat_of_zero_le hexponent
    have hproduct : n = d.coefficient * 10 ^ j := by
      rw [value, hj, zpow_natCast] at hvalue
      exact_mod_cast hvalue.symm
    have hdigits := digitChars_mul_pow (Nat.pos_of_ne_zero hne) j
    have hlength : (digitChars d.coefficient).length + j ≤ 21 := by
      have hle := (decimalLength_le_iff (show 0 < 21 by decide)).2 hn
      rw [hproduct, decimalLength, ← digitChars, hdigits, List.length_append,
        List.length_replicate] at hle
      exact hle
    rw [hproduct, hdigits, scriptText, laidOut, hj, if_pos (by omega), add_sub_cancel_left,
      Int.toNat_natCast]

/-- **Below `2 ^ 53` the shortest decimal of a whole number is the number itself.** -/
theorem IsShortest.value_eq_natCast (hx : (Binary64.finite false m e).Canonical)
    (h : d.IsShortest (.finite false m e)) (hvalue : (m : ℚ) * 2 ^ e = n) (hn : n < 2 ^ 53)
    (hpos : 0 < n) : d.value = n := by
  have hvalue' : (Binary64.finite false m e).value = n := by
    rw [Binary64.value_finite_false, hvalue]
  have hself : Binary64.nearest false n = .finite false m e := by
    rw [← hvalue, Binary64.nearest_of_canonical hx]
  -- the number without its trailing zeros is read back
  let short := (⟨n, 0⟩ : Decimal).trimZeros
  have hshort : short.value = n := by
    rw [value_trimZeros]
    simp [value]
  have hreads : short.toBinary64 = .finite false m e := by
    rw [toBinary64_eq_nearest, hshort, hself]
  have hlength : decimalLength short.coefficient ≤ decimalLength n :=
    decimalLength_trimZeros_le (d := ⟨n, 0⟩) hpos.ne' rfl
  -- so it is enough that the shortest one has as many digits
  suffices hle : decimalLength short.coefficient ≤ decimalLength d.coefficient ∨ d.value = n by
    rcases hle with hle | hle
    · have hclose := h.closest short hreads (le_antisymm hle (h.length_le short hreads))
      rw [hshort, hvalue', sub_self, abs_zero] at hclose
      exact sub_eq_zero.1 (abs_eq_zero.1 (le_antisymm hclose (abs_nonneg _)))
    · exact hle
  have hne : ∀ k : ℕ, k ≤ 2 ^ 53 → Binary64.nearest false k = .finite false m e → k = n := by
    intro k hk heq
    have hrepresents := Binary64.represents_nearest hk false
    rw [heq, if_neg (by decide), one_mul] at hrepresents
    have hcast := hrepresents.value_eq.symm.trans hvalue'
    exact_mod_cast hcast
  have hround : Binary64.nearest false d.value = .finite false m e := by
    rw [← toBinary64_eq_nearest, h.reads]
  -- the decimal lies between the whole numbers next to the number
  have hbelow : ((n - 1 : ℕ) : ℚ) < d.value := by
    by_contra hge
    have hnear := Binary64.nearest_of_between d.value_nonneg (not_lt.1 hge)
      (by exact_mod_cast Nat.sub_le n 1) hround hself
    have := hne (n - 1) (by omega) hnear
    omega
  have habove : d.value < (n + 1 : ℕ) := by
    by_contra hge
    have hnear := Binary64.nearest_of_between n.cast_nonneg (by exact_mod_cast Nat.le_succ n)
      (not_lt.1 hge) hself hround
    have := hne (n + 1) (by omega) hnear
    omega
  rcases le_or_gt 0 d.exponent with hexponent | hexponent
  · -- a whole number between them is the number
    obtain ⟨j, hj⟩ := Int.eq_ofNat_of_zero_le hexponent
    rw [value, hj, zpow_natCast] at hbelow habove ⊢
    have hlow : n - 1 < d.coefficient * 10 ^ j := by exact_mod_cast hbelow
    have hhigh : d.coefficient * 10 ^ j < n + 1 := by exact_mod_cast habove
    refine .inr ?_
    exact_mod_cast (show d.coefficient * 10 ^ j = n by omega)
  · -- a decimal with digits behind the point has more digits
    refine .inl (hlength.trans ?_)
    obtain ⟨j, hj⟩ : ∃ j : ℕ, d.exponent = -((j + 1 : ℕ) : ℤ) :=
      ⟨(-d.exponent).toNat - 1, by omega⟩
    rw [value, hj, zpow_neg, zpow_natCast, ← div_eq_mul_inv, lt_div_iff₀ (by positivity)] at hbelow
    have hlow : (n - 1) * 10 ^ (j + 1) < d.coefficient := by exact_mod_cast hbelow
    have hten : (n - 1) * 10 ≤ (n - 1) * 10 ^ (j + 1) := by
      rw [pow_succ]
      exact Nat.mul_le_mul_left _ (Nat.le_mul_of_pos_left _ (by positivity))
    exact decimalLength_mono (by omega)

end Decimal

/-! ## Numbers -/

namespace Binary64

open Decimal

variable {x : Binary64} {m : ℕ} {e : ℤ}

/-- A number without its sign. -/
def unsigned : Binary64 → Binary64
  | nan => nan
  | infinite _ => infinite false
  | finite _ m e => finite false m e

/-- Whether a text is the one that scripts give to a number. Two decimals may be the shortest, and
equally close to the number: scripts may take either. Zero has no sign. -/
def IsScriptText : Binary64 → String → Prop
  | nan, text => text = "NaN"
  | infinite negative, text => text = if negative then "-Infinity" else "Infinity"
  | finite negative m e, text =>
    if m = 0 then text = "0"
    else ∃ d : Decimal, d.IsShortest (finite false m e) ∧
      text = String.ofList ((if negative then ['-'] else []) ++ d.scriptText)

/-- When a positive number is written as scripts do it. -/
theorem exists_unsignedNumeral_eq_iff (hx : (finite false m e).Canonical) (hm : m ≠ 0) :
    (∃ d : Decimal, d.IsShortest (finite false m e) ∧ unsignedNumeral m e = d.scriptText) ↔
      ∀ n : ℕ, (m : ℚ) * 2 ^ e = n → 2 ^ 53 ≤ n → n < 10 ^ 21 →
        ∃ d : Decimal, d.IsShortest (finite false m e) ∧ d.value = n := by
  have hshortest := isShortest_shortest hx hm
  have hnumeral := numeral_eq_scriptText (shortest m e)
  unfold unsignedNumeral
  cases hwhole : whole? m e with
  | none =>
    refine iff_of_true ⟨_, hshortest, hnumeral⟩ fun n hn => ?_
    rw [whole?_eq_some_iff.2 hn] at hwhole
    cases hwhole
  | some k =>
    have hk := whole?_eq_some_iff.1 hwhole
    have hunique : ∀ n : ℕ, (m : ℚ) * 2 ^ e = n → k = n := by
      intro n hn
      exact_mod_cast hk.symm.trans hn
    dsimp only
    split
    · next hlt =>
      constructor
      · rintro ⟨d, hd, htext⟩ n hn - -
        refine ⟨d, hd, ?_⟩
        rw [← hunique n hn]
        exact (hd.scriptText_eq_iff (coefficient_ne_zero_of_reads hm hd.reads) hlt).1 htext.symm
      · intro hexact
        obtain ⟨d, hd, hvalue⟩ : ∃ d : Decimal, d.IsShortest (finite false m e) ∧ d.value = k := by
          rcases lt_or_ge k (2 ^ 53) with hsmall | hlarge
          · have hpos : (0 : ℚ) < m * 2 ^ e := by positivity
            rw [hk] at hpos
            exact ⟨_, hshortest, hshortest.value_eq_natCast hx hk hsmall (by exact_mod_cast hpos)⟩
          · exact hexact k hk hlarge hlt
        refine ⟨d, hd, ?_⟩
        exact ((hd.scriptText_eq_iff (coefficient_ne_zero_of_reads hm hd.reads) hlt).2 hvalue).symm
    · next hge =>
      refine iff_of_true ⟨_, hshortest, hnumeral⟩ fun n hn _ hlt => ?_
      rw [← hunique n hn] at hlt
      exact absurd hlt hge

/-- The whole numbers of a finite number and of its absolute value are the same. -/
theorem represents_finite_iff {negative : Bool} {n : ℕ} :
    (finite negative m e).Represents (signed negative n : ℤ) ↔ (m : ℚ) * 2 ^ e = n := by
  have hvalue : (finite negative m e).value = (if negative then -1 else 1) * (m * 2 ^ e) := rfl
  have hsigned : ((signed negative n : ℤ) : ℚ) = (if negative then -1 else 1) * n := by
    cases negative <;> simp [signed]
  constructor
  · intro h
    have heq := h.value_eq
    rw [hvalue, hsigned] at heq
    exact mul_left_cancel₀ (by cases negative <;> norm_num) heq
  · intro h
    exact ⟨trivial, by rw [hvalue, hsigned, h]⟩

/-- **When a number is written as scripts do it**: always, if it is not a whole number between
`2 ^ 53` and `10 ^ 21` that has more digits than are needed to tell it from other numbers. A whole
number below `10 ^ 21` is written out in full. -/
theorem isScriptText_toText_iff (hx : x.Canonical) :
    (x.IsScriptText x.toText ↔
      ∀ n : ℤ, x.Represents n → 2 ^ 53 ≤ n.natAbs → n.natAbs < 10 ^ 21 →
        ∃ d : Decimal, d.IsShortest x.unsigned ∧ d.value = n.natAbs) ∧
      ∀ n : ℤ, x.Represents n → n.natAbs < 10 ^ 21 → x.toText = toString n := by
  refine ⟨?_, fun n hn hlt => hn.toText_eq hlt⟩
  cases x with
  | nan => exact iff_of_true rfl fun n hn => hn.isFinite.elim
  | infinite negative =>
    exact iff_of_true (by cases negative <;> rfl) fun n hn => hn.isFinite.elim
  | finite negative m e =>
    by_cases hm : m = 0
    · have hzero : (finite negative m e).value = (0 : ℤ) := by simp [value, hm]
      refine iff_of_true ?_ fun n hn hlarge => ?_
      · rw [IsScriptText, if_pos hm]
        exact Represents.toText_eq (x := finite negative m e) ⟨trivial, hzero⟩ (by decide)
      · have hn' := hn.value_eq
        rw [hzero, Int.cast_inj] at hn'
        rw [← hn'] at hlarge
        exact absurd hlarge (by decide)
    · have htext : ∀ d : Decimal, (finite negative m e).toText =
          String.ofList ((if negative then ['-'] else []) ++ d.scriptText) ↔
            unsignedNumeral m e = d.scriptText := by
        intro d
        rw [toText, String.ofList_inj]
        unfold text
        dsimp only
        cases negative with
        | false => rw [if_neg (by simp), if_neg (by simp), List.nil_append]
        | true =>
          rw [if_pos ⟨rfl, hm⟩, if_pos rfl, List.singleton_append, List.cons_inj_right]
      rw [IsScriptText, if_neg hm]
      simp only [htext]
      rw [exists_unsignedNumeral_eq_iff hx hm]
      constructor
      · intro h n hn
        refine h n.natAbs ?_
        rw [← abs_value_finite negative, hn.value_eq, Nat.cast_natAbs, Int.cast_abs]
      · intro h n hn hlarge hlt
        have hnatAbs : (signed negative n).natAbs = n := by cases negative <;> simp [signed]
        have h := h (signed negative n) (represents_finite_iff.2 hn)
        rw [hnatAbs] at h
        exact h hlarge hlt

/-- `10 ^ 20` has as many digits here as in scripts, since all but the first one are zeros. -/
theorem isScriptText_toText_tenPower :
    (finite false 6103515625000000 14).Canonical ∧
      (finite false 6103515625000000 14).IsScriptText
        (finite false 6103515625000000 14).toText := by
  have hx : (finite false 6103515625000000 14).Canonical := by decide
  refine ⟨hx, (isScriptText_toText_iff hx).1.2 fun n hn _ _ => ?_⟩
  refine ⟨_, isShortest_shortest hx (by decide), ?_⟩
  have hshortest : shortest 6103515625000000 14 = ⟨1, 20⟩ := by decide +kernel
  have hvalue : ((10 ^ 20 : ℤ) : ℚ) = n := by
    rw [← hn.value_eq]
    norm_num [value]
  rw [← Int.cast_inj.1 hvalue, hshortest]
  norm_num [Decimal.value]

/-- `2 ^ 60` is written with nineteen digits, of which scripts write sixteen. -/
theorem not_isScriptText_toText_twoPower :
    (finite false (2 ^ 52) 8).Canonical ∧
      (finite false (2 ^ 52) 8).toText = "1152921504606846976" ∧
      (finite false (2 ^ 52) 8).IsScriptText "1152921504606847000" ∧
      ¬ (finite false (2 ^ 52) 8).IsScriptText (finite false (2 ^ 52) 8).toText := by
  have hx : (finite false (2 ^ 52) 8).Canonical := by decide
  have hshortest : shortest (2 ^ 52) 8 = ⟨1152921504606847, 3⟩ := by decide +kernel
  have hd := isShortest_shortest hx (by decide)
  rw [hshortest] at hd
  have htext : (finite false (2 ^ 52) 8).toText = "1152921504606846976" := by decide +kernel
  refine ⟨hx, htext, ⟨_, hd, by decide +kernel⟩, ?_⟩
  rw [htext]
  rintro ⟨d, hd', heq⟩
  have hchars : d.scriptText = digitChars (2 ^ 60) := by
    rw [if_neg (by decide), List.nil_append] at heq
    exact (String.ofList_injective heq).symm
  -- then the number would be its own shortest decimal
  have hvalue := (hd'.scriptText_eq_iff
    (coefficient_ne_zero_of_reads (by decide) hd'.reads) (by norm_num)).1 hchars
  have hexact := hd'.value_eq hd (by rw [hvalue]; norm_num [value])
  norm_num [Decimal.value, value] at hexact

end Binary64

end FluidCss.Number
