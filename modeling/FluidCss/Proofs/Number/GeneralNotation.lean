import FluidCss.Proofs.Number.ScriptText

set_option autoImplicit false

/-! # Texts by way of the general notation

The general notation of numbers is scientific with fewer digits before and behind the point than the
one of style sheets, it writes the exponent with two digits at least, and it has a point in every
positional number. The text of a number can be had from it: whole numbers are written on their own,
numbers in the range where style sheets are positional are laid out again, and of all other ones the
exponent is rewritten (`Binary64.text_eq_rewrittenText`). The range is given by two double-precision
numbers and the layout goes by the digits of the shortest decimal, so the bounds have to be compared
with the places of the digits (`Decimal.bound_le_iff`). -/

namespace FluidCss.Number

open Text

/-- A number with at least two digits. -/
def twoDigits (n : ℕ) : List Char := if n < 10 then '0' :: digitChars n else digitChars n

/-- The digits behind the point, where it stands behind the first digit if there are more. -/
def mantissaFraction (digits : List Char) : Option (List Char) :=
  if digits.length = 1 then none else some (digits.drop 1)

/-- Digits with a point behind the first one, if there are more. -/
def mantissa (digits : List Char) : List Char :=
  digits.take 1 ++ Literal.fractionText (mantissaFraction digits)

/-- A text in scientific form, with the exponent written as numerals write it. -/
def rewriteExponent (text : List Char) : List Char :=
  let exponent := (text.dropWhile (· != 'e')).drop 1
  text.takeWhile (· != 'e') ++ 'e' :: (if exponent.head? = some '-' then '-' else '+') ::
    (exponent.dropWhile fun c => c == '+' || c == '-').dropWhile (· == '0')

/-- The decimal of a literal, without its sign. -/
def Literal.decimal (l : Literal) : Decimal :=
  ⟨digitsValue l.digits, ExponentPart.value l.exponent - (l.fraction.getD []).length⟩

namespace Decimal

/-- How many places the first digit of a decimal stands before the point. -/
def places (d : Decimal) : ℤ := (digitChars d.coefficient).length + d.exponent

/-- A decimal in general notation. -/
def general (d : Decimal) : List Char :=
  let digits := digitChars d.coefficient
  if 16 < d.places ∨ d.places ≤ -4 then
    mantissa digits ++
      'e' :: (if d.places - 1 < 0 then '-' else '+') :: twoDigits (d.places - 1).natAbs
  else if d.places ≤ 0 then
    '0' :: '.' :: (List.replicate (-d.places).toNat '0' ++ digits)
  else if d.places < digits.length then
    digits.take d.places.toNat ++ '.' :: digits.drop d.places.toNat
  else
    digits ++ List.replicate d.exponent.toNat '0' ++ ['.', '0']

/-- A decimal in positional form. -/
def positional (d : Decimal) : List Char :=
  let digits := digitChars d.coefficient
  if 0 ≤ d.exponent then
    digits ++ List.replicate d.exponent.toNat '0'
  else if d.places ≤ 0 then
    '0' :: '.' :: (List.replicate (-d.places).toNat '0' ++ digits)
  else
    digits.take d.places.toNat ++ '.' :: digits.drop d.places.toNat

end Decimal

namespace Binary64

/-- The least positive number that is written in positional form: the one nearest to `10 ^ -6`. -/
def positionalFrom : Binary64 := ofDecimal false 1 (-6)

/-- The least number that is written in scientific form again: `10 ^ 21`. -/
def positionalTo : Binary64 := ofDecimal false 1 21

/-- The numeral of a number that is not a whole one below `10 ^ 21`, rewritten from its general
notation. -/
def rewrittenNumeral (negative : Bool) (significand : ℕ) (exponent : ℤ) : List Char :=
  let general := (if negative then ['-'] else []) ++
    (Decimal.shortest significand exponent).general
  let magnitude := significand * (2 : ℚ) ^ exponent
  if 'e' ∉ general then general
  else if positionalFrom.value ≤ magnitude ∧ magnitude < positionalTo.value then
    match Literal.read? general with
    | some (l, _) => Sign.text l.sign ++ l.decimal.positional
    | none => general
  else rewriteExponent general

/-- The text of a number, rewritten from its general notation. -/
def rewrittenText : Binary64 → List Char
  | nan => "NaN".toList
  | infinite negative => if negative then "-Infinity".toList else "Infinity".toList
  | finite negative m e =>
    match whole? m e with
    | some n =>
      if n < 10 ^ 21 then if negative ∧ n ≠ 0 then '-' :: digitChars n else digitChars n
      else rewrittenNumeral negative m e
    | none => rewrittenNumeral negative m e

end Binary64

/-! ## Digits -/

/-- A number that is not zero is written without a zero in front. -/
theorem head?_digitChars {n : ℕ} (hn : n ≠ 0) : (digitChars n).head? ≠ some '0' := by
  induction n using Nat.strong_induction_on with
  | h n ih =>
    rw [digitChars, Nat.toDigits_eq_if (by decide)]
    split
    · next hlt =>
      have hdigits : ∀ k < 10, k ≠ 0 → [Nat.digitChar k].head? ≠ some '0' := by decide
      exact hdigits n hlt hn
    · next hge =>
      rw [List.head?_append_of_ne_nil _ Nat.toDigits_ne_nil]
      exact ih (n / 10) (by omega) (by omega)

theorem dropWhile_twoDigits {n : ℕ} (hn : n ≠ 0) :
    (twoDigits n).dropWhile (· == '0') = digitChars n := by
  have hplain : (digitChars n).dropWhile (· == '0') = digitChars n := by
    have hhead := head?_digitChars hn
    cases hds : digitChars n with
    | nil => rfl
    | cons c cs =>
      rw [hds] at hhead
      exact List.dropWhile_cons_of_neg (by simpa using hhead)
  rw [twoDigits]
  split
  · rw [List.dropWhile_cons_of_pos (by decide), hplain]
  · exact hplain

theorem ne_of_isDigit {c : Char} (h : c.isDigit = true) : c ≠ 'e' ∧ c ≠ '+' ∧ c ≠ '-' := by
  refine ⟨?_, ?_, ?_⟩
  all_goals
    rintro rfl
    exact absurd h (by decide)

theorem all_isDigit_twoDigits (n : ℕ) : (twoDigits n).all Char.isDigit = true := by
  rw [twoDigits]
  split
  · rw [List.all_cons, all_isDigit_digitChars]
    rfl
  · exact all_isDigit_digitChars n

theorem take_append_mantissaFraction (ds : List Char) :
    ds.take 1 ++ (mantissaFraction ds).getD [] = ds := by
  rw [mantissaFraction]
  split
  · next hone => rw [Option.getD_none, List.append_nil, List.take_of_length_le hone.le]
  · exact List.take_append_drop 1 ds

theorem mem_of_mem_mantissaFraction {ds es : List Char} (hes : mantissaFraction ds = some es)
    {c : Char} (hc : c ∈ es) : c ∈ ds := by
  rw [mantissaFraction] at hes
  split at hes
  · cases hes
  · obtain rfl := Option.some.inj hes
    exact List.mem_of_mem_drop hc

theorem forall_mantissa_ne {ds : List Char} (h : ds.all Char.isDigit = true) :
    ∀ c ∈ mantissa ds, c ≠ 'e' := by
  have hdigit : ∀ c ∈ ds, c ≠ 'e' := fun c hc => (ne_of_isDigit (List.all_eq_true.1 h c hc)).1
  intro c hc
  rcases List.mem_append.1 hc with hc | hc
  · exact hdigit c (List.mem_of_mem_take hc)
  · cases hes : mantissaFraction ds with
    | none =>
      rw [hes] at hc
      cases hc
    | some es =>
      rw [hes] at hc
      rcases List.mem_cons.1 hc with rfl | hc
      · decide
      · exact hdigit c (mem_of_mem_mantissaFraction hes hc)

theorem twoDigits_ne_nil (n : ℕ) : twoDigits n ≠ [] := by
  rw [twoDigits]
  split
  · exact List.cons_ne_nil _ _
  · exact digitChars_ne_nil _

theorem digitsValue_twoDigits (n : ℕ) : digitsValue (twoDigits n) = n := by
  rw [twoDigits]
  split
  · exact (digitsValue_zeros_append 1 (all_isDigit_digitChars n)).trans (digitsValue_digitChars n)
  · exact digitsValue_digitChars n

/-! ## Scientific form -/

/-- Only the exponent of a text in scientific form is rewritten. -/
theorem rewriteExponent_append {front : List Char} (hfront : ∀ c ∈ front, c ≠ 'e') {n : ℤ}
    (hn : n ≠ 0) :
    rewriteExponent (front ++ 'e' :: (if n < 0 then '-' else '+') :: twoDigits n.natAbs) =
      front ++ exponentText n := by
  have hpos : ∀ c ∈ front, (c != 'e') = true := by simpa using hfront
  have hsign : ∀ c, (twoDigits n.natAbs).head? = some c → ¬ (c == '+' || c == '-') = true := by
    intro c hc
    have hdigit := List.all_eq_true.1 (all_isDigit_twoDigits n.natAbs) c (List.mem_of_mem_head? hc)
    simpa using (ne_of_isDigit hdigit).2
  have hdigits : (twoDigits n.natAbs).dropWhile (fun c => c == '+' || c == '-') =
      twoDigits n.natAbs := by
    cases hds : twoDigits n.natAbs with
    | nil => rfl
    | cons c cs =>
      rw [hds] at hsign
      exact List.dropWhile_cons_of_neg (hsign c rfl)
  have hzeros := dropWhile_twoDigits (Int.natAbs_ne_zero.2 hn)
  rw [rewriteExponent, List.takeWhile_append_of_pos hpos, List.dropWhile_append_of_pos hpos,
    List.takeWhile_cons_of_neg (by decide), List.dropWhile_cons_of_neg (by decide), exponentText]
  split
  · simp [hdigits, hzeros]
  · simp [hdigits, hzeros]

namespace Decimal

variable {d : Decimal} {m m' : ℕ} {e e' t : ℤ}

theorem numeral_eq (d : Decimal) : d.numeral =
    if 21 < d.places ∨ d.places ≤ -6 then
      mantissa (digitChars d.coefficient) ++ exponentText (d.places - 1)
    else if d.places ≤ 0 then
      '0' :: '.' :: (List.replicate (-d.places).toNat '0' ++ digitChars d.coefficient)
    else if d.places < (digitChars d.coefficient).length then
      (digitChars d.coefficient).take d.places.toNat ++
        '.' :: (digitChars d.coefficient).drop d.places.toNat
    else digitChars d.coefficient ++ List.replicate d.exponent.toNat '0' := by
  have hscientific : mantissa (digitChars d.coefficient) ++ exponentText (d.places - 1) =
      scientific (digitChars d.coefficient) (d.places - 1) := by
    rw [scientific_eq (digitChars_ne_nil d.coefficient), mantissa, mantissaFraction]
    split
    · next hone => rw [Literal.fractionText, List.append_nil, List.take_of_length_le hone.le]
    · rfl
  rw [hscientific]
  rfl

/-- In the middle of the numbers the general notation is the numeral, but for the point behind a
whole number. -/
theorem general_eq_numeral (hlow : -4 < d.places) (hhigh : d.places ≤ 16)
    (hpoint : d.exponent < 0) : d.general = d.numeral := by
  have hbefore : d.places < (digitChars d.coefficient).length := by
    rw [places]
    omega
  have hnumeral : ¬ (21 < d.places ∨ d.places ≤ -6) := by omega
  have hgeneral : ¬ (16 < d.places ∨ d.places ≤ -4) := by omega
  rw [numeral_eq, general, if_neg hnumeral, if_neg hgeneral]
  simp only [if_pos hbefore]

theorem positional_eq_numeral (hlow : -6 < d.places) (hhigh : d.places ≤ 21) :
    d.positional = d.numeral := by
  have hnumeral : ¬ (21 < d.places ∨ d.places ≤ -6) := by omega
  rw [numeral_eq, positional, if_neg hnumeral]
  by_cases hexponent : 0 ≤ d.exponent
  · have hpositive := List.length_pos_iff.2 (digitChars_ne_nil d.coefficient)
    have hfront : ¬ d.places ≤ 0 := by
      rw [places]
      omega
    have hbehind : ¬ d.places < (digitChars d.coefficient).length := by
      rw [places]
      omega
    rw [if_pos hexponent, if_neg hfront, if_neg hbehind]
  · have hbefore : d.places < (digitChars d.coefficient).length := by
      rw [places]
      omega
    simp only [if_neg hexponent, if_pos hbefore]

theorem general_of_scientific (h : 16 < d.places ∨ d.places ≤ -4) :
    d.general = mantissa (digitChars d.coefficient) ++
      'e' :: (if d.places - 1 < 0 then '-' else '+') :: twoDigits (d.places - 1).natAbs :=
  if_pos h

/-- The literal that a decimal is in general notation, if that is scientific. -/
def generalLiteral (negative : Bool) (d : Decimal) : Literal :=
  ⟨if negative then some .minus else none, (digitChars d.coefficient).take 1,
    mantissaFraction (digitChars d.coefficient),
    some ⟨'e', some (if d.places - 1 < 0 then .minus else .plus), twoDigits (d.places - 1).natAbs⟩⟩

theorem isWellFormed_generalLiteral (negative : Bool) (d : Decimal) :
    (generalLiteral negative d).IsWellFormed where
  whole c hc := isDigit_of_asciiDigit c
    (List.all_eq_true.1 (all_isDigit_digitChars _) c (List.mem_of_mem_take hc))
  fraction es hes c hc := isDigit_of_asciiDigit c
    (List.all_eq_true.1 (all_isDigit_digitChars _) c (mem_of_mem_mantissaFraction hes hc))
  fraction_ne_nil hnil := by
    rcases List.take_eq_nil_iff.1 hnil with hone | hnil
    · cases hone
    · exact absurd hnil (digitChars_ne_nil _)
  mark := by
    rintro _ ⟨⟩
    exact .inl rfl
  exponent_ne_nil := by
    rintro _ ⟨⟩
    exact twoDigits_ne_nil _
  exponent := by
    rintro _ ⟨⟩
    exact forall_isDigit_of_all (all_isDigit_twoDigits _)

theorem text_generalLiteral (negative : Bool) (h : 16 < d.places ∨ d.places ≤ -4) :
    (generalLiteral negative d).text = (if negative then ['-'] else []) ++ d.general := by
  have hsign : Sign.text (generalLiteral negative d).sign = if negative then ['-'] else [] := by
    cases negative <;> rfl
  have hexponent : ExponentPart.text (generalLiteral negative d).exponent =
      'e' :: (if d.places - 1 < 0 then '-' else '+') :: twoDigits (d.places - 1).natAbs := by
    rw [generalLiteral]
    dsimp only
    split <;> rfl
  rw [Literal.text, hsign, hexponent, general_of_scientific h, mantissa, List.append_assoc,
    List.append_assoc, List.append_assoc]
  rfl

theorem decimal_generalLiteral (negative : Bool) (d : Decimal) :
    (generalLiteral negative d).decimal = d := by
  have hvalue : ExponentPart.value (generalLiteral negative d).exponent = d.places - 1 := by
    rw [generalLiteral, ExponentPart.value, digitsValue_twoDigits, Sign.apply]
    dsimp only
    split
    · next hneg =>
      rw [if_pos rfl]
      omega
    · next hneg =>
      rw [if_neg (by simp)]
      omega
  have hdigits := take_append_mantissaFraction (digitChars d.coefficient)
  have hlength := congrArg List.length hdigits
  have hpositive := List.length_pos_iff.2 (digitChars_ne_nil d.coefficient)
  rw [List.length_append, List.length_take] at hlength
  rw [Literal.decimal, hvalue, Literal.digits, generalLiteral]
  dsimp only
  rw [hdigits, digitsValue_digitChars, places]
  congr 1
  omega

/-! ## Bounds -/

/-- A decimal lies between two powers of ten. -/
theorem value_bounds (hne : d.coefficient ≠ 0) :
    (10 : ℚ) ^ (d.places - 1) ≤ d.value ∧ d.value < 10 ^ d.places := by
  obtain ⟨hlow, hhigh⟩ := decimalLength_spec hne
  have hpow : (0 : ℚ) < 10 ^ d.exponent := by positivity
  have hlength : ((digitChars d.coefficient).length : ℤ) = decimalLength d.coefficient := rfl
  have hsub : d.places - 1 = (decimalLength d.coefficient : ℤ) - 1 + d.exponent := by
    rw [places, hlength]
    ring
  rw [hsub, places, hlength, zpow_add₀ (by norm_num), zpow_add₀ (by norm_num), value]
  exact ⟨mul_le_mul_of_nonneg_right hlow hpow.le, mul_lt_mul_of_pos_right hhigh hpow⟩

/-- **Comparing a number with the one nearest to a power of ten is comparing the places of its
shortest decimal**, where the power itself is the shortest decimal of the other. -/
theorem bound_le_iff (hx : (Binary64.finite false m e).Canonical) (hm : m ≠ 0)
    (ht : Binary64.ofDecimal false 1 t = .finite false m' e') (hshort : shortest m' e' = ⟨1, t⟩) :
    (Binary64.ofDecimal false 1 t).value ≤ m * (2 : ℚ) ^ e ↔ t < (shortest m e).places := by
  rw [ht, Binary64.value_finite_false]
  rw [Binary64.ofDecimal_eq_nearest, Nat.cast_one, one_mul] at ht
  have hreads := (isShortest_shortest hx hm).reads
  obtain ⟨hlow, hhigh⟩ := value_bounds (coefficient_ne_zero_of_reads hm hreads)
  rw [toBinary64_eq_nearest] at hreads
  have hpow : (0 : ℚ) ≤ 10 ^ t := by positivity
  have hx' : (Binary64.finite false m' e').Canonical := ht ▸ Binary64.canonical_nearest false hpow
  constructor
  · intro hle
    by_contra hplaces
    have hbelow : (shortest m e).value ≤ 10 ^ t :=
      hhigh.le.trans (zpow_le_zpow_right₀ (by norm_num) (not_lt.1 hplaces))
    have hge := Binary64.mul_zpow_le_of_nearest (value_nonneg _) hbelow hreads ht
    -- then the two numbers are the same, and the power has one place more
    have heq := Binary64.eq_of_mul_zpow_eq hx hx' (le_antisymm hge hle)
    cases heq
    rw [hshort] at hplaces
    have hone : (digitChars 1).length = 1 := by decide
    rw [places] at hplaces
    dsimp only at hplaces
    rw [hone] at hplaces
    omega
  · intro hplaces
    have habove : (10 : ℚ) ^ t ≤ (shortest m e).value :=
      (zpow_le_zpow_right₀ (by norm_num) (by omega)).trans hlow
    exact Binary64.mul_zpow_le_of_nearest hpow habove ht hreads

theorem positionalFrom_le_iff (hx : (Binary64.finite false m e).Canonical) (hm : m ≠ 0) :
    Binary64.positionalFrom.value ≤ m * (2 : ℚ) ^ e ↔ -6 < (shortest m e).places := by
  have hbound : Binary64.ofDecimal false 1 (-6) = .finite false 4722366482869645 (-72) := by
    decide +kernel
  exact bound_le_iff hx hm hbound (by decide +kernel)

theorem positionalTo_le_iff (hx : (Binary64.finite false m e).Canonical) (hm : m ≠ 0) :
    Binary64.positionalTo.value ≤ m * (2 : ℚ) ^ e ↔ 21 < (shortest m e).places := by
  have hbound : Binary64.ofDecimal false 1 21 = .finite false 7629394531250000 17 := by
    decide +kernel
  exact bound_le_iff hx hm hbound (by decide +kernel)

/-- A number that is nearest to a whole number is one. -/
theorem exists_whole_of_nearest {n : ℕ} (hx : (Binary64.finite false m e).Canonical)
    (h : Binary64.nearest false n = .finite false m e) : ∃ k : ℕ, (m : ℚ) * 2 ^ e = k := by
  rcases le_or_gt 0 e with hexponent | hexponent
  · obtain ⟨j, rfl⟩ := Int.eq_ofNat_of_zero_le hexponent
    refine ⟨m * 2 ^ j, ?_⟩
    rw [zpow_natCast, Nat.cast_mul, Nat.cast_pow, Nat.cast_ofNat]
  · -- it has a fraction only if it is small, and then it is the whole number
    have hsmall := Binary64.mul_zpow_lt hx.1 hexponent
    rw [zpow_zero, mul_one] at hsmall
    have hn : n ≤ 2 ^ 53 := by
      by_contra hlarge
      have hself : Binary64.nearest false (2 ^ 53 : ℕ) = .finite false (2 ^ 52) 1 := by
        rw [← Binary64.nearest_of_canonical (show (Binary64.finite false (2 ^ 52) 1).Canonical by
          decide)]
        norm_num
      have hge := Binary64.mul_zpow_le_of_nearest (Nat.cast_nonneg _)
        (by exact_mod_cast (not_le.1 hlarge).le) hself h
      norm_num at hge
      linarith
    have hrepresents := (Binary64.represents_nearest hn false).value_eq
    rw [h, Binary64.value] at hrepresents
    exact ⟨n, by simpa using hrepresents⟩

/-- There is no mark in the general notation of a decimal that is not scientific. -/
theorem forall_general_ne (h : ¬ (16 < d.places ∨ d.places ≤ -4)) : ∀ c ∈ d.general, c ≠ 'e' := by
  have hdigit : ∀ c ∈ digitChars d.coefficient, c ≠ 'e' := fun c hc =>
    (ne_of_isDigit (List.all_eq_true.1 (all_isDigit_digitChars _) c hc)).1
  have hzero : ∀ n, ∀ c ∈ List.replicate n '0', c ≠ 'e' := by
    intro n c hc
    rw [List.eq_of_mem_replicate hc]
    decide
  intro c hc
  rw [general, if_neg h] at hc
  split at hc
  · simp only [List.mem_cons, List.mem_append] at hc
    rcases hc with rfl | rfl | hc | hc
    · decide
    · decide
    · exact hzero _ c hc
    · exact hdigit c hc
  · split at hc
    · simp only [List.mem_cons, List.mem_append] at hc
      rcases hc with hc | rfl | hc
      · exact hdigit c (List.mem_of_mem_take hc)
      · decide
      · exact hdigit c (List.mem_of_mem_drop hc)
    · simp only [List.mem_cons, List.mem_append, List.not_mem_nil, or_false] at hc
      rcases hc with (hc | hc) | rfl | rfl
      · exact hdigit c hc
      · exact hzero _ c hc
      · decide
      · decide

/-- The shortest decimal of a number that is not a whole one below `10 ^ 21` has digits behind its
point, if it has at most sixteen places before it. -/
theorem exponent_shortest_neg (hx : (Binary64.finite false m e).Canonical) (hm : m ≠ 0)
    (hwhole : ∀ n : ℕ, (m : ℚ) * 2 ^ e = n → 10 ^ 21 ≤ n) (hplaces : (shortest m e).places ≤ 16) :
    (shortest m e).exponent < 0 := by
  by_contra hexponent
  obtain ⟨j, hj⟩ := Int.eq_ofNat_of_zero_le (not_lt.1 hexponent)
  have hreads := (isShortest_shortest hx hm).reads
  have hvalue : (shortest m e).value = ((shortest m e).coefficient * 10 ^ j : ℕ) := by
    rw [value, hj, zpow_natCast, Nat.cast_mul, Nat.cast_pow, Nat.cast_ofNat]
  rw [toBinary64_eq_nearest, hvalue] at hreads
  obtain ⟨k, hk⟩ := exists_whole_of_nearest hx hreads
  have hbound : Binary64.positionalTo.value = 10 ^ 21 := by
    have hto : Binary64.positionalTo = .finite false 7629394531250000 17 := by decide +kernel
    rw [hto]
    norm_num [Binary64.value]
  have hlarge : Binary64.positionalTo.value ≤ m * (2 : ℚ) ^ e := by
    rw [hbound, hk]
    exact_mod_cast hwhole k hk
  have hfar := (positionalTo_le_iff hx hm).1 hlarge
  omega

end Decimal

namespace Binary64

variable {x : Binary64} {m : ℕ} {e : ℤ}

open Decimal

/-- Behind the whole numbers, rewriting the general notation gives the numeral. -/
theorem rewrittenNumeral_eq (negative : Bool) (hx : (finite false m e).Canonical) (hm : m ≠ 0)
    (hwhole : ∀ n : ℕ, (m : ℚ) * 2 ^ e = n → 10 ^ 21 ≤ n) :
    rewrittenNumeral negative m e =
      (if negative then ['-'] else []) ++ (shortest m e).numeral := by
  have hsign : ∀ c ∈ (if negative then ['-'] else []), c ≠ 'e' := by
    cases negative <;> simp
  rw [rewrittenNumeral]
  by_cases hscientific : 16 < (shortest m e).places ∨ (shortest m e).places ≤ -4
  · have hmark : 'e' ∈ (if negative then ['-'] else []) ++ (shortest m e).general := by
      rw [general_of_scientific hscientific]
      simp
    have hrange : (positionalFrom.value ≤ m * (2 : ℚ) ^ e ∧ m * (2 : ℚ) ^ e < positionalTo.value) ↔
        -6 < (shortest m e).places ∧ (shortest m e).places ≤ 21 := by
      refine and_congr (positionalFrom_le_iff hx hm) ?_
      rw [← not_le, positionalTo_le_iff hx hm, not_lt]
    rw [if_neg (not_not.2 hmark)]
    simp only [hrange]
    split
    · next hpositional =>
      have hread := Literal.read?_text_append
        (isWellFormed_generalLiteral negative (shortest m e)) (endsLiteral_nil.ends _)
      rw [List.append_nil, text_generalLiteral negative hscientific] at hread
      rw [hread]
      dsimp only
      rw [decimal_generalLiteral, positional_eq_numeral hpositional.1 hpositional.2]
      cases negative <;> rfl
    · next hpositional =>
      have hfront : ∀ c ∈ (if negative then ['-'] else []) ++
          mantissa (digitChars (shortest m e).coefficient), c ≠ 'e' := by
        intro c hc
        rcases List.mem_append.1 hc with hc | hc
        · exact hsign c hc
        · exact forall_mantissa_ne (all_isDigit_digitChars _) c hc
      have hfar : 21 < (shortest m e).places ∨ (shortest m e).places ≤ -6 := by omega
      rw [general_of_scientific hscientific, ← List.append_assoc,
        rewriteExponent_append hfront (by omega), numeral_eq, if_pos hfar, List.append_assoc]
  · have hmark : 'e' ∉ (if negative then ['-'] else []) ++ (shortest m e).general := by
      intro hmem
      rcases List.mem_append.1 hmem with hmem | hmem
      · exact hsign 'e' hmem rfl
      · exact forall_general_ne hscientific 'e' hmem rfl
    have hplaces := not_or.1 hscientific
    rw [if_pos hmark, general_eq_numeral (not_le.1 hplaces.2) (not_lt.1 hplaces.1)
      (exponent_shortest_neg hx hm hwhole (not_lt.1 hplaces.1))]

/-- **The text of a number can be rewritten from its general notation.** -/
theorem text_eq_rewrittenText (hx : x.Canonical) : x.text = x.rewrittenText := by
  cases x with
  | nan => rfl
  | infinite negative => cases negative <;> rfl
  | finite negative m e =>
    have hx' : (finite false m e).Canonical := hx
    have hnumeral : ∀ hm : m ≠ 0, (∀ n : ℕ, (m : ℚ) * 2 ^ e = n → 10 ^ 21 ≤ n) →
        (if negative = true ∧ m ≠ 0 then '-' :: (shortest m e).numeral
          else (shortest m e).numeral) = rewrittenNumeral negative m e := by
      intro hm hwhole
      rw [rewrittenNumeral_eq negative hx' hm hwhole]
      cases negative <;> simp [hm]
    unfold text rewrittenText unsignedNumeral
    dsimp only
    cases hwhole : whole? m e with
    | none =>
      have hnone : ∀ n : ℕ, (m : ℚ) * 2 ^ e ≠ n := by
        intro n hn
        rw [whole?_eq_some_iff.2 hn] at hwhole
        cases hwhole
      have hm : m ≠ 0 := by
        rintro rfl
        exact hnone 0 (by simp)
      exact hnumeral hm fun n hn => absurd hn (hnone n)
    | some n =>
      have hn := whole?_eq_some_iff.1 hwhole
      have hzero : m = 0 ↔ n = 0 := by
        rw [← Nat.cast_eq_zero (R := ℚ) (n := m), ← Nat.cast_eq_zero (R := ℚ) (n := n), ← hn,
          mul_eq_zero, or_iff_left (zpow_ne_zero e two_ne_zero)]
      dsimp only
      by_cases hlt : n < 10 ^ 21
      · rw [if_pos hlt, if_pos (show n < Nat.pow 10 21 from hlt)]
        simp only [ne_eq, hzero]
      · have hlarge : 10 ^ 21 ≤ n := not_lt.1 hlt
        rw [if_neg hlt, if_neg (show ¬ n < Nat.pow 10 21 from hlt)]
        refine hnumeral (fun hm => ?_) fun k hk => ?_
        · rw [hzero.1 hm] at hlarge
          exact absurd hlarge (by decide)
        · have hnk : n = k := by exact_mod_cast hn.symm.trans hk
          exact hnk ▸ hlarge

end Binary64

end FluidCss.Number
