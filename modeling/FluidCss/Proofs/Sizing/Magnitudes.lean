import FluidCss.Proofs.Number.Closest
import FluidCss.Proofs.Number.Longest
import FluidCss.Proofs.Sizing.Lengths

set_option autoImplicit false

/-! # The number of a length

The number of a length is that of the longest literal at its front, behind blanks, correctly rounded
(`magnitude_longest`). What is written for a finite number is such a literal, with a unit behind it
or without, and it is rounded to the number; so numbers are told apart by their texts
(`magnitude_toText`). The numbers that this is said of, those in canonical form, are those that 64
bits stand for. -/

namespace FluidCss

open Number Text

/-! ## Bits -/

namespace Number.Binary64

/-- All bits stand for a number in canonical form. -/
theorem canonical_ofBits (bits : UInt64) : (ofBits bits).Canonical := by
  have hfraction : bits.toNat % Nat.pow 2 52 < Nat.pow 2 52 := Nat.mod_lt _ (by decide)
  have hbiased : bits.toNat / Nat.pow 2 52 % Nat.pow 2 11 < 2048 := Nat.mod_lt _ (by decide)
  have hdouble : Nat.pow 2 53 = Nat.pow 2 52 + Nat.pow 2 52 := by decide
  unfold ofBits
  dsimp only
  generalize bits.toNat / Nat.pow 2 52 % Nat.pow 2 11 = biased at hbiased ⊢
  generalize bits.toNat % Nat.pow 2 52 = fraction at hfraction ⊢
  split
  · split <;> trivial
  · split
    · exact ⟨by omega, le_rfl, by decide, .inr rfl⟩
    · refine ⟨by omega, ?_, ?_, .inl (Nat.le_add_right _ _)⟩
      · rw [minExponent]
        omega
      · rw [maxExponent]
        omega

/-- The number whose sign, exponent and fraction are put together from left to right. -/
theorem ofBits_fields (negative : Bool) {biased fraction : ℕ} (hbiased : biased < 2047)
    (hfraction : fraction < Nat.pow 2 52) :
    ofBits (UInt64.ofNat
        ((if negative then Nat.pow 2 63 else 0) + biased * Nat.pow 2 52 + fraction)) =
      if biased = 0 then finite negative fraction minExponent
      else finite negative (Nat.pow 2 52 + fraction) ((biased : ℤ) - 1075) := by
  have h52 : Nat.pow 2 52 = 4503599627370496 := by decide
  have h63 : Nat.pow 2 63 = 9223372036854775808 := by decide
  have h11 : Nat.pow 2 11 = 2048 := by decide
  rw [h52] at hfraction
  generalize hn : (if negative then Nat.pow 2 63 else 0) + biased * Nat.pow 2 52 + fraction = n
  have hsmall : n < 18446744073709551616 := by
    rw [← hn, h52, h63]
    split <;> omega
  have hsign : n / Nat.pow 2 63 = if negative then 1 else 0 := by
    rw [← hn, h52, h63]
    split <;> omega
  have hmiddle : n / Nat.pow 2 52 % Nat.pow 2 11 = biased := by
    rw [← hn, h52, h63, h11]
    split <;> omega
  have hend : n % Nat.pow 2 52 = fraction := by
    rw [← hn, h52, h63]
    split <;> omega
  rw [ofBits, UInt64.toNat_ofNat', Nat.mod_eq_of_lt hsmall, hsign, hmiddle, hend,
    if_neg hbiased.ne]
  cases negative <;> rfl

/-- **Every number in canonical form has bits.** -/
theorem ofBits_toBits {x : Binary64} (hx : x.Canonical) : ofBits x.toBits = x := by
  cases x with
  | nan => rfl
  | infinite negative => cases negative <;> rfl
  | finite negative m e =>
    obtain ⟨hm, hmin, hmax, hle⟩ := hx
    have hdouble : Nat.pow 2 53 = Nat.pow 2 52 + Nat.pow 2 52 := by decide
    rw [minExponent] at hmin hle
    rw [maxExponent] at hmax
    rw [toBits, ofBits_fields negative (by split <;> omega) (Nat.mod_lt _ (by decide))]
    by_cases hsubnormal : m < Nat.pow 2 52
    · obtain rfl : e = -1074 := hle.resolve_left (not_le.2 hsubnormal)
      rw [if_pos hsubnormal, if_pos rfl, Nat.mod_eq_of_lt hsubnormal]
      rfl
    · have hfraction : m % Nat.pow 2 52 = m - Nat.pow 2 52 := by
        rw [Nat.mod_eq_sub_mod (not_lt.1 hsubnormal), Nat.mod_eq_of_lt (by omega)]
      rw [if_neg hsubnormal, if_neg (by omega), hfraction, Nat.add_sub_of_le (not_lt.1 hsubnormal),
        Int.toNat_of_nonneg (by omega), add_sub_cancel_right]

end Number.Binary64

/-! ## Texts -/

/-- **The longest literal is read, and rounded correctly.** There is no number exactly if there is
no literal; and the number of a literal does not change when something is put behind it that no
literal goes on with. -/
theorem magnitude_longest (text : String) :
    (∀ l : Literal, l.IsLongestAt (trimStart text.toList) →
      Binary64.IsRounding (l.sign == some .minus) l.value (magnitude text)) ∧
    ((∃ l : Literal, l.IsAt (trimStart text.toList)) →
      ∃! l : Literal, l.IsLongestAt (trimStart text.toList)) ∧
    (magnitude text = .nan ↔ ∀ l : Literal, ¬ l.IsAt (trimStart text.toList)) ∧
    ∀ l : Literal, l.IsWellFormed → trimStart text.toList = l.text → ∀ rest : String,
      (∀ c, rest.toList.head? = some c → isDigit c = false ∧ c ≠ '.' ∧ c ≠ 'e' ∧ c ≠ 'E') →
        magnitude (text ++ rest) = magnitude text := by
  refine ⟨fun l hl => ?_, ?_, leadingNumber_eq_nan_iff, fun l hl htext rest hrest => ?_⟩
  · rw [magnitude, leadingNumber_of_isLongestAt hl, Literal.toBinary64_eq_nearest]
    exact Binary64.isRounding_nearest _ l.value_nonneg
  · rintro ⟨l, hl⟩
    obtain ⟨k, hk⟩ := hl.exists_isLongestAt
    obtain ⟨tail, hread⟩ := Literal.read?_eq_some_iff.2 hk
    refine ⟨k, hk, fun k' hk' => ?_⟩
    obtain ⟨tail', hread'⟩ := Literal.read?_eq_some_iff.2 hk'
    rw [hread] at hread'
    exact (Prod.mk.inj (Option.some.inj hread')).1.symm
  · have hfront : trimStart (text ++ rest).toList = l.text ++ rest.toList := by
      rw [String.toList_append, trimStart, List.dropWhile_append, ← trimStart, htext,
        if_neg (by simpa using hl.text_ne_nil)]
    have hlong := Literal.read?_text_append hl ((endsLiteral_of_head? hrest).ends l)
    have hshort := Literal.read?_text_append hl (endsLiteral_nil.ends l)
    rw [List.append_nil] at hshort
    rw [magnitude, magnitude, leadingNumber, leadingNumber, hfront, htext, hlong, hshort]

/-- A mark without digits is not read, and a unit behind a literal does not change its number. -/
theorem magnitude_longest_halfExponent :
    (⟨some .minus, ['1'], some ['5'], none⟩ : Literal).IsLongestAt
        (trimStart " -1.5e+px".toList) ∧
      (∃! l : Literal, l.IsLongestAt (trimStart " -1.5e+px".toList)) ∧
      Binary64.IsRounding true (3 / 2) (magnitude " -1.5e+px") ∧
      magnitude ("-1.5" ++ "px") = magnitude "-1.5" := by
  have hlongest : (⟨some .minus, ['1'], some ['5'], none⟩ : Literal).IsLongestAt
      (trimStart " -1.5e+px".toList) :=
    Literal.read?_eq_some_iff.1 ⟨"e+px".toList, by decide⟩
  have hvalue : (⟨some .minus, ['1'], some ['5'], none⟩ : Literal).value = 3 / 2 := by
    have hdigits : digitsValue ['1', '5'] = 15 := by decide
    norm_num [Literal.value, Literal.digits, hdigits, ExponentPart.value]
  obtain ⟨hround, hunique, -, -⟩ := magnitude_longest " -1.5e+px"
  obtain ⟨-, -, -, happend⟩ := magnitude_longest "-1.5"
  have hround := hround _ hlongest
  rw [hvalue] at hround
  refine ⟨hlongest, hunique ⟨_, hlongest.1⟩, hround,
    happend _ hlongest.1.1 (by decide) "px" ?_⟩
  rintro _ ⟨⟩
  decide

/-! ## Numbers -/

/-- **A number is read back from its text**, with a unit behind it or without; only zero loses its
sign. So no other number has the same text, apart from the other zero. -/
theorem magnitude_toText {x : Binary64} (hx : x.Canonical) (hfinite : x.IsFinite) :
    magnitude x.toText = (if x.isZero then .zero false else x) ∧
    (∀ u : LengthUnit, magnitude (x.toText ++ u.name) = if x.isZero then .zero false else x) ∧
    ∀ y : Binary64, y.Canonical → y.toText = x.toText →
      y = x ∨ (y.isZero = true ∧ x.isZero = true) := by
  have hread : ∀ {z : Binary64}, z.Canonical → z.IsFinite →
      magnitude z.toText = if z.isZero then .zero false else z := by
    intro z hz hzfinite
    have h := Binary64.leadingNumber_text_append hz hzfinite endsLiteral_nil
    rw [List.append_nil] at h
    rw [magnitude, Binary64.toText, String.toList_ofList, h]
  refine ⟨hread hx hfinite, magnitude_toText_append hx hfinite, fun y hy heq => ?_⟩
  have hboth := congrArg magnitude heq
  rw [hread hx hfinite] at hboth
  by_cases hyfinite : y.IsFinite
  · rw [hread hy hyfinite] at hboth
    split at hboth
    · next hyzero =>
      split at hboth
      · next hxzero => exact .inr ⟨hyzero, hxzero⟩
      · next hxzero => exact absurd (hboth ▸ rfl) hxzero
    · next hyzero =>
      split at hboth
      · exact absurd (hboth ▸ rfl) hyzero
      · exact .inl hboth
  · -- a text that no number is read from is not that of a finite number
    have hnan := Binary64.leadingNumber_text_append_of_not hyfinite []
    rw [List.append_nil] at hnan
    rw [magnitude, Binary64.toText, String.toList_ofList, hnan] at hboth
    split at hboth
    · cases hboth
    · rw [← hboth] at hfinite
      exact hfinite.elim

/-- The least number in scientific form, in front of a unit that starts with a mark. -/
theorem magnitude_toText_tenPower :
    (Binary64.finite false 7629394531250000 17).toText = "1e+21" ∧
      magnitude "1e+21em" = .finite false 7629394531250000 17 := by
  have htext : (Binary64.finite false 7629394531250000 17).toText = "1e+21" := by decide +kernel
  have hread := (magnitude_toText (x := .finite false 7629394531250000 17) (by decide)
    trivial).2.1 .em
  rw [htext] at hread
  exact ⟨htext, hread⟩

end FluidCss
