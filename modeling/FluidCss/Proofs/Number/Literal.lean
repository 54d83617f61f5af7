import FluidCss.Number.Literal
import FluidCss.Number.Numeral
import FluidCss.Proofs.Number.Arithmetic

set_option autoImplicit false

/-! # Reading a literal that has been written

A literal that is made of the right parts is read back from its text, if it does not go on with what
stands behind it (`Literal.read?_text_append`). The number that it is read as is the one nearest to
its value (`Literal.toBinary64_eq_nearest`). -/

namespace FluidCss.Number

open Text

/-! ## Digits -/

section Digits

variable {c : Char} {cs ds : List Char}

theorem toNat_of_isDigit (h : c.isDigit = true) : 48 ≤ c.toNat ∧ c.toNat ≤ 57 := by
  simp only [Char.isDigit, Bool.and_eq_true, decide_eq_true_eq] at h
  exact h

theorem digitValue?_of_isDigit (h : c.isDigit = true) : digitValue? c = some (c.toNat - 48) := by
  obtain ⟨hlow, hhigh⟩ := toNat_of_isDigit h
  have hzero : (48 ≤ c.toNat && c.toNat < 48 + 10) = true := by simp; omega
  simp [digitValue?, digitZeros, hzero]

/-- A digit of any script is one of the ten from a zero on. -/
theorem exists_zero_of_isDigit (h : isDigit c = true) :
    ∃ z ∈ digitZeros, z ≤ c.toNat ∧ c.toNat < z + 10 := by
  obtain ⟨d, hd⟩ := Option.isSome_iff_exists.1 h
  obtain ⟨z, hz, -⟩ := Option.map_eq_some_iff.1 hd
  have hin := List.find?_some hz
  simp only [Bool.and_eq_true, decide_eq_true_eq] at hin
  exact ⟨z, List.mem_of_find?_eq_some hz, hin⟩

/-- No digit is white space. -/
theorem isBlank_of_isDigit (h : isDigit c = true) : isBlank c = false := by
  obtain ⟨z, hz, hlow, hhigh⟩ := exists_zero_of_isDigit h
  have hzeros : ∀ z ∈ digitZeros, z = 0x30 ∨ (0xa1 ≤ z ∧ z ≤ 0x1676) ∨
      (0x1681 ≤ z ∧ z ≤ 0x1ff6) ∨ 0x3001 ≤ z := by
    decide
  have hbetween := hzeros z hz
  rw [← Bool.not_eq_true, isBlank]
  simp only [Bool.or_eq_true, Bool.and_eq_true, decide_eq_true_eq, beq_iff_eq]
  omega

/-- What digits of the ASCII range are read as. -/
theorem digitsValue_eq_ofDigitChars (h : cs.all Char.isDigit = true) :
    digitsValue cs = Nat.ofDigitChars 10 cs 0 := by
  have hfold : ∀ init, (cs.filterMap digitValue?).foldl (fun n d => 10 * n + d) init =
      Nat.ofDigitChars 10 cs init := by
    induction cs with
    | nil => exact fun init => Nat.ofDigitChars_nil.symm
    | cons c cs ih =>
      intro init
      rw [List.all_cons, Bool.and_eq_true] at h
      rw [List.filterMap_cons_some (digitValue?_of_isDigit h.1), List.foldl_cons, ih h.2,
        Nat.ofDigitChars_cons]
      rfl
  exact hfold 0

theorem forall_isDigit_of_all (h : cs.all Char.isDigit = true) : ∀ c ∈ cs, isDigit c = true :=
  fun c hc => isDigit_of_asciiDigit c (List.all_eq_true.1 h c hc)

theorem all_isDigit_digitChars (n : ℕ) : (digitChars n).all Char.isDigit = true :=
  List.all_eq_true.2 fun _ hc => Nat.isDigit_of_mem_toDigits (by decide) (by decide) hc

theorem digitChars_ne_nil (n : ℕ) : digitChars n ≠ [] := Nat.toDigits_ne_nil

theorem digitsValue_digitChars (n : ℕ) : digitsValue (digitChars n) = n := by
  rw [digitsValue_eq_ofDigitChars (all_isDigit_digitChars n), digitChars,
    Nat.ofDigitChars_toDigits (by decide) (by decide)]

theorem all_isDigit_replicate (n : ℕ) : (List.replicate n '0').all Char.isDigit = true := by
  rw [List.all_eq_true]
  intro c hc
  rw [List.eq_of_mem_replicate hc]
  rfl

theorem all_isDigit_append (hcs : cs.all Char.isDigit = true) (hds : ds.all Char.isDigit = true) :
    (cs ++ ds).all Char.isDigit = true := by
  rw [List.all_append, hcs, hds]
  rfl

/-- Zeros in front of digits do not count. -/
theorem digitsValue_zeros_append (n : ℕ) (h : cs.all Char.isDigit = true) :
    digitsValue (List.replicate n '0' ++ cs) = digitsValue cs := by
  rw [digitsValue_eq_ofDigitChars (all_isDigit_append (all_isDigit_replicate n) h),
    digitsValue_eq_ofDigitChars h, Nat.ofDigitChars_append, Nat.ofDigitChars_replicate_zero,
    Nat.mul_zero]

/-- Zeros behind digits shift them to the left. -/
theorem digitsValue_append_zeros (n : ℕ) (h : cs.all Char.isDigit = true) :
    digitsValue (cs ++ List.replicate n '0') = digitsValue cs * 10 ^ n := by
  rw [digitsValue_eq_ofDigitChars (all_isDigit_append h (all_isDigit_replicate n)),
    digitsValue_eq_ofDigitChars h, Nat.ofDigitChars_append, Nat.ofDigitChars_replicate_zero,
    Nat.mul_comm]

end Digits

/-! ## Literals -/

/-- Whether no literal that stands in front of a text goes on with it. -/
structure EndsLiteral (rest : List Char) : Prop where
  not_isDigit : ∀ c, rest.head? = some c → isDigit c = false
  ne_point : ∀ c, rest.head? = some c → c ≠ '.'
  no_exponent : ExponentPart.read rest = (none, rest)

theorem endsLiteral_cons {c : Char} {cs : List Char} (hdigit : isDigit c = false) (hpoint : c ≠ '.')
    (hexponent : ExponentPart.read (c :: cs) = (none, c :: cs)) : EndsLiteral (c :: cs) where
  not_isDigit := by
    rintro _ ⟨⟩
    exact hdigit
  ne_point := by
    rintro _ ⟨⟩
    exact hpoint
  no_exponent := hexponent

theorem endsLiteral_nil : EndsLiteral [] := ⟨by simp, by simp, rfl⟩

/-- No literal goes on with a text that starts with neither a digit, a point nor a mark. -/
theorem endsLiteral_of_head? {cs : List Char}
    (h : ∀ c, cs.head? = some c → isDigit c = false ∧ c ≠ '.' ∧ c ≠ 'e' ∧ c ≠ 'E') :
    EndsLiteral cs := by
  cases cs with
  | nil => exact endsLiteral_nil
  | cons c cs =>
    obtain ⟨hdigit, hpoint, hlower, hupper⟩ := h c rfl
    exact endsLiteral_cons hdigit hpoint (if_neg (not_or.2 ⟨hlower, hupper⟩))

namespace Literal

variable {l : Literal} {rest : List Char}

/-- Whether a literal is made of the right parts: digits, of which one has to stand before or behind
the point, and an exponent with a mark and digits. -/
structure IsWellFormed (l : Literal) : Prop where
  whole : ∀ c ∈ l.whole, isDigit c = true
  fraction : ∀ ds, l.fraction = some ds → ∀ c ∈ ds, isDigit c = true
  fraction_ne_nil : l.whole = [] → ∃ ds, l.fraction = some ds ∧ ds ≠ []
  mark : ∀ p, l.exponent = some p → p.mark = 'e' ∨ p.mark = 'E'
  exponent_ne_nil : ∀ p, l.exponent = some p → p.digits ≠ []
  exponent : ∀ p, l.exponent = some p → ∀ c ∈ p.digits, isDigit c = true

/-- A literal with digits before its point and without an exponent. -/
theorem isWellFormed_mk {s : Option Sign} {whole : List Char} {fraction : Option (List Char)}
    (hne : whole ≠ []) (hwhole : ∀ c ∈ whole, isDigit c = true)
    (hfraction : ∀ ds, fraction = some ds → ∀ c ∈ ds, isDigit c = true) :
    IsWellFormed ⟨s, whole, fraction, none⟩ :=
  ⟨hwhole, hfraction, fun h => absurd h hne, by simp, by simp, by simp⟩

/-- Whether a literal does not go on with a text. -/
structure Ends (l : Literal) (rest : List Char) : Prop where
  not_isDigit : ∀ c, rest.head? = some c → isDigit c = false
  ne_point : l.fraction = none → l.exponent = none → ∀ c, rest.head? = some c → c ≠ '.'
  no_exponent : l.exponent = none → ExponentPart.read rest = (none, rest)

/-- The value of a literal. -/
def value (l : Literal) : ℚ :=
  digitsValue l.digits * (10 : ℚ) ^ (ExponentPart.value l.exponent - (l.fraction.getD []).length)

theorem value_nonneg (l : Literal) : 0 ≤ l.value := by
  unfold value
  positivity

/-- **A literal is read as the nearest number.** -/
theorem toBinary64_eq_nearest (l : Literal) :
    l.toBinary64 = Binary64.nearest (l.sign == some .minus) l.value :=
  Binary64.ofDecimal_eq_nearest _ _ _

theorem span_isDigit {cs : List Char} (h : ∀ c ∈ cs, isDigit c = true)
    (hrest : ∀ c, rest.head? = some c → isDigit c = false) :
    (cs ++ rest).takeWhile isDigit = cs ∧ (cs ++ rest).dropWhile isDigit = rest := by
  rw [List.takeWhile_append_of_pos h, List.dropWhile_append_of_pos h]
  cases rest with
  | nil => simp
  | cons c rest => simp [hrest c rfl]

/-- A sign is read back in front of a text that does not start with one. -/
theorem signRead_text_append (s : Option Sign)
    (h : ∀ c, rest.head? = some c → c ≠ '+' ∧ c ≠ '-') :
    Sign.read (Sign.text s ++ rest) = (s, rest) := by
  cases s with
  | none =>
    change Sign.read rest = (none, rest)
    unfold Sign.read
    split
    · exact absurd rfl (h _ rfl).1
    · exact absurd rfl (h _ rfl).2
    · rfl
  | some s => cases s <;> rfl

theorem exponentRead_text_append {p : ExponentPart} (hmark : p.mark = 'e' ∨ p.mark = 'E')
    (hne : p.digits ≠ []) (hdigits : ∀ c ∈ p.digits, isDigit c = true)
    (hrest : ∀ c, rest.head? = some c → isDigit c = false) :
    ExponentPart.read (ExponentPart.text (some p) ++ rest) = (some p, rest) := by
  obtain ⟨mark, s, ds⟩ := p
  obtain ⟨htake, hdrop⟩ := span_isDigit hdigits hrest
  -- the digits do not start with a sign
  have hsign : ∀ c, (ds ++ rest).head? = some c → c ≠ '+' ∧ c ≠ '-' := by
    intro c hc
    rw [List.head?_append_of_ne_nil _ hne] at hc
    have hdigit := hdigits c (List.mem_of_mem_head? hc)
    constructor
    · rintro rfl
      exact absurd hdigit (by decide)
    · rintro rfl
      exact absurd hdigit (by decide)
  change ExponentPart.read (mark :: (Sign.text s ++ ds ++ rest)) = _
  rw [List.append_assoc, ExponentPart.read, if_pos hmark, signRead_text_append s hsign]
  dsimp only at htake hdrop ⊢
  rw [htake, hdrop, if_neg (by simpa using hne)]

/-- The exponent of a literal, if there is one, is read back. -/
theorem IsWellFormed.exponentRead (h : l.IsWellFormed) (hrest : l.Ends rest) :
    ExponentPart.read (ExponentPart.text l.exponent ++ rest) = (l.exponent, rest) := by
  cases hp : l.exponent with
  | none => exact hrest.no_exponent hp
  | some p =>
    exact exponentRead_text_append (h.mark p hp) (h.exponent_ne_nil p hp) (h.exponent p hp)
      hrest.not_isDigit

/-- An exponent does not go on with the digits in front of it. -/
theorem IsWellFormed.head?_exponentText (h : l.IsWellFormed) (hrest : l.Ends rest) {c : Char}
    (hc : (ExponentPart.text l.exponent ++ rest).head? = some c) :
    isDigit c = false ∧ (l.fraction = none → c ≠ '.') := by
  cases hp : l.exponent with
  | none =>
    rw [hp] at hc
    exact ⟨hrest.not_isDigit c hc, fun hfraction => hrest.ne_point hfraction hp c hc⟩
  | some p =>
    rw [hp] at hc
    obtain rfl : p.mark = c := Option.some.inj hc
    rcases h.mark p hp with hmark | hmark
    · rw [hmark]
      exact ⟨by decide, fun _ => by decide⟩
    · rw [hmark]
      exact ⟨by decide, fun _ => by decide⟩

/-- The digits behind the point are read back, if there are any that have to be there. -/
theorem readFraction_text_append {bare : Bool} {fraction : Option (List Char)}
    (h : ∀ ds, fraction = some ds → ∀ c ∈ ds, isDigit c = true)
    (hbare : bare = true → ∃ ds, fraction = some ds ∧ ds ≠ [])
    (hrest : ∀ c, rest.head? = some c → isDigit c = false ∧ (fraction = none → c ≠ '.')) :
    readFraction bare (fractionText fraction ++ rest) = (fraction, rest) := by
  cases fraction with
  | none =>
    change readFraction bare rest = (none, rest)
    unfold readFraction
    split
    · exact absurd rfl ((hrest _ rfl).2 rfl)
    · rfl
  | some ds =>
    obtain ⟨htake, hdrop⟩ := span_isDigit (h ds rfl) fun c hc => (hrest c hc).1
    have hkept : (bare && ds.isEmpty) = false := by
      cases bare with
      | false => rfl
      | true =>
        obtain ⟨es, heq, hne⟩ := hbare rfl
        obtain rfl := Option.some.inj heq
        simpa using hne
    change readFraction bare ('.' :: (ds ++ rest)) = _
    rw [readFraction, htake, hdrop, hkept]
    rfl

/-- Behind its sign a literal starts with a digit or with the point. -/
theorem IsWellFormed.head?_unsigned (h : l.IsWellFormed) {c : Char}
    (hc : (l.whole ++ (fractionText l.fraction ++ rest)).head? = some c) :
    isDigit c = true ∨ c = '.' := by
  by_cases hwhole : l.whole = []
  · obtain ⟨ds, hds, -⟩ := h.fraction_ne_nil hwhole
    rw [hwhole, hds] at hc
    exact .inr (Option.some.inj hc).symm
  · rw [List.head?_append_of_ne_nil _ hwhole] at hc
    exact .inl (h.whole c (List.mem_of_mem_head? hc))

theorem IsWellFormed.text_ne_nil (h : l.IsWellFormed) : l.text ≠ [] := by
  intro hnil
  simp only [text, List.append_eq_nil_iff] at hnil
  obtain ⟨ds, hds, -⟩ := h.fraction_ne_nil hnil.1.1.2
  rw [hds] at hnil
  cases hnil.1.2

/-- **A literal is read back** in front of a text that it does not go on with. -/
theorem read?_text_append (h : l.IsWellFormed) (hrest : l.Ends rest) :
    read? (l.text ++ rest) = some (l, rest) := by
  -- what stands behind the digits before the point does not go on with them
  have hpoint : ∀ c,
      (fractionText l.fraction ++ (ExponentPart.text l.exponent ++ rest)).head? = some c →
        isDigit c = false := by
    intro c hc
    cases hfraction : l.fraction with
    | none =>
      rw [hfraction] at hc
      exact (h.head?_exponentText hrest hc).1
    | some ds =>
      rw [hfraction] at hc
      obtain rfl : '.' = c := Option.some.inj hc
      decide
  have hsign : ∀ c, (l.whole ++ (fractionText l.fraction ++
      (ExponentPart.text l.exponent ++ rest))).head? = some c → c ≠ '+' ∧ c ≠ '-' := by
    intro c hc
    constructor
    · rintro rfl
      exact absurd (h.head?_unsigned hc) (by decide)
    · rintro rfl
      exact absurd (h.head?_unsigned hc) (by decide)
  obtain ⟨htake, hdrop⟩ := span_isDigit h.whole hpoint
  have hfraction := readFraction_text_append h.fraction
    (fun hbare => h.fraction_ne_nil (List.isEmpty_iff.1 hbare)) fun c => h.head?_exponentText hrest
  have hsome : (l.whole.isEmpty && l.fraction.isNone) = false := by
    by_cases hwhole : l.whole = []
    · obtain ⟨ds, hds, -⟩ := h.fraction_ne_nil hwhole
      rw [hds]
      simp
    · simp [hwhole]
  rw [text, List.append_assoc, List.append_assoc, List.append_assoc, read?,
    signRead_text_append l.sign hsign]
  dsimp only
  rw [htake, hdrop, hfraction]
  dsimp only
  rw [hsome, h.exponentRead hrest]
  rfl

/-- A literal has no blank at its front. -/
theorem trimStart_text_append (h : l.IsWellFormed) (rest : List Char) :
    trimStart (l.text ++ rest) = l.text ++ rest := by
  have hhead : ∀ c, (l.text ++ rest).head? = some c → isBlank c = false := by
    intro c hc
    rw [text, List.append_assoc, List.append_assoc, List.append_assoc] at hc
    cases hs : l.sign with
    | some s =>
      rw [hs] at hc
      obtain rfl : s.char = c := Option.some.inj hc
      cases s <;> rfl
    | none =>
      rw [hs] at hc
      rcases h.head?_unsigned hc with hdigit | rfl
      · exact isBlank_of_isDigit hdigit
      · rfl
  cases hcs : l.text ++ rest with
  | nil => rfl
  | cons c cs =>
    rw [hcs] at hhead
    rw [trimStart, List.dropWhile_cons_of_neg (by simp [hhead c rfl])]

/-- **The number of a text that starts with a literal.** -/
theorem leadingNumber_text_append (h : l.IsWellFormed) (hrest : l.Ends rest) :
    leadingNumber (l.text ++ rest) = Binary64.nearest (l.sign == some .minus) l.value := by
  rw [leadingNumber, trimStart_text_append h, read?_text_append h hrest]
  exact toBinary64_eq_nearest l

end Literal

theorem EndsLiteral.ends {rest : List Char} (h : EndsLiteral rest) (l : Literal) : l.Ends rest :=
  ⟨h.not_isDigit, fun _ _ => h.ne_point, fun _ => h.no_exponent⟩

end FluidCss.Number
