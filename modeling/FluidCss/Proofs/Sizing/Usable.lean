import FluidCss.Proofs.Number.Arithmetic
import FluidCss.Proofs.Sizing.Lengths
import FluidCss.Proofs.Sizing.RootSizes

set_option autoImplicit false

/-! # When an interpolation can be used

A `calc()` can be used if its numbers are finite and its divisor is not zero. That no warning is
given says that the units go together, and nothing about the numbers: whether they can be used
depends on the numbers that the four bounds start with (`Interpolation.isUsable_iff`). The widths
pass through a division and through text before they are subtracted from each other, which changes
neither whether they are finite nor their values. -/

namespace FluidCss

open Number Text

namespace Number.Binary64

/-- Whether a number can stand for another: finite exactly if that is, and then of its value. -/
structure SameValue (x y : Binary64) : Prop where
  isFinite_iff : x.IsFinite ↔ y.IsFinite
  value_eq : y.IsFinite → x.value = y.value

theorem SameValue.refl (x : Binary64) : x.SameValue x := ⟨.rfl, fun _ => rfl⟩

/-- When one can divide by a difference, and what is subtracted is finite. -/
theorem isFinite_sub_and_ne_zero_iff {x y x' y' : Binary64} (hx : x.SameValue x')
    (hy : y.SameValue y') (hcx : x.Canonical) (hcy : y.Canonical) :
    (x.IsFinite ∧ (y - x).IsFinite ∧ (y - x).isZero = false) ↔
      x'.IsFinite ∧ y'.IsFinite ∧ x'.value ≠ y'.value ∧ |y'.value - x'.value| < overflowBound := by
  rw [← hx.isFinite_iff, ← hy.isFinite_iff]
  refine and_congr_right fun hfx => ?_
  by_cases hfy : y.IsFinite
  · have hzero := isZero_sub_iff hfy hfx hcy hcx
    rw [hx.value_eq (hx.isFinite_iff.1 hfx), hy.value_eq (hy.isFinite_iff.1 hfy)] at hzero
    have hfinite := isFinite_sub_iff (x := y) (y := x)
    rw [hx.value_eq (hx.isFinite_iff.1 hfx), hy.value_eq (hy.isFinite_iff.1 hfy)] at hfinite
    change (y.sub x).IsFinite ∧ (y.sub x).isZero = false ↔ _
    rw [hfinite, ← Bool.not_eq_true, hzero]
    constructor
    · rintro ⟨⟨-, -, hlt⟩, hne⟩
      exact ⟨hfy, Ne.symm hne, hlt⟩
    · rintro ⟨-, hne, hlt⟩
      exact ⟨⟨hfy, hfx, hlt⟩, hne.symm⟩
  · exact iff_of_false (fun h => hfy (isFinite_of_sub h.1).1) fun h => hfy h.1

end Number.Binary64

namespace Bounds

/-- Whether the sizes are given in one unit and the widths in one that goes with it. -/
def HasFittingUnits (b : Bounds) : Prop :=
  ∃ u v, LengthUnit.of? b.minSize = some u ∧ LengthUnit.of? b.maxSize = some u ∧
    LengthUnit.of? b.minWidth = some v ∧ LengthUnit.of? b.maxWidth = some v ∧ (u = v ∨ u = .rem)

/-- The number of a width as it is needed: as it is given, or in multiples of the root font size. -/
def widthNumber (b : Bounds) (rootFontSize width : String) : Binary64 :=
  if b.convertsWidths then
    (Binary64.div? (magnitude width) (magnitude rootFontSize)).getD .nan
  else magnitude width

/-- Whether the numbers that the bounds start with, those of the widths as they are needed, make a
`calc()` that can be used: all four are finite, the widths are different, and neither difference is
so large that it is rounded to infinity. -/
structure HasUsableNumbers (b : Bounds) (rootFontSize : String) : Prop where
  minSize_finite : (magnitude b.minSize).IsFinite
  maxSize_finite : (magnitude b.maxSize).IsFinite
  sizes_near : |(magnitude b.maxSize).value - (magnitude b.minSize).value| < Binary64.overflowBound
  minWidth_finite : (b.widthNumber rootFontSize b.minWidth).IsFinite
  maxWidth_finite : (b.widthNumber rootFontSize b.maxWidth).IsFinite
  widths_ne : (b.widthNumber rootFontSize b.minWidth).value ≠
    (b.widthNumber rootFontSize b.maxWidth).value
  widths_near : |(b.widthNumber rootFontSize b.maxWidth).value -
    (b.widthNumber rootFontSize b.minWidth).value| < Binary64.overflowBound

end Bounds

/-- Whether the numbers of a `calc()` can be calculated with. -/
structure Interpolation.IsUsable (i : Interpolation) : Prop where
  sizeDifference_finite : i.scaled.sizeDifference.IsFinite
  minWidth_finite : (magnitude i.scaled.minWidth).IsFinite
  widthDifference_finite : i.scaled.widthDifference.IsFinite
  widthDifference_ne_zero : i.scaled.widthDifference.isZero = false

/-! ## Units -/

namespace Bounds

variable {b scaled : Bounds} {rootFontSize : String}

theorem endComplaints_eq_nil_iff : b.endComplaints = [] ↔
    LengthUnit.of? b.minSize = LengthUnit.of? b.maxSize ∧
      LengthUnit.of? b.minWidth = LengthUnit.of? b.maxWidth := by
  unfold endComplaints
  split
  · next h => exact iff_of_false (by simp) (not_and_or.2 h)
  · next h => exact iff_of_true rfl (not_or.1 h |>.imp not_not.1 not_not.1)

theorem widthComplaints_eq_nil_iff : b.widthComplaints = [] ↔
    LengthUnit.of? b.minSize = LengthUnit.of? b.minWidth ∨
      LengthUnit.of? b.minSize = some .rem ∧ LengthUnit.of? b.minWidth ≠ none := by
  have hfit : (b.convertsWidths = true ∨ LengthUnit.of? b.minSize = LengthUnit.of? b.minWidth ∨
      LengthUnit.of? b.minSize = some .rem ∧ LengthUnit.of? b.minWidth = some .em) ↔
      LengthUnit.of? b.minSize = LengthUnit.of? b.minWidth ∨
        LengthUnit.of? b.minSize = some .rem ∧ LengthUnit.of? b.minWidth ≠ none := by
    rw [b.convertsWidths_iff]
    constructor
    · rintro (⟨hu, hv⟩ | hsame | ⟨hu, hv⟩)
      · exact .inr ⟨hu, by simp [hv]⟩
      · exact .inl hsame
      · exact .inr ⟨hu, by simp [hv]⟩
    · rintro (hsame | ⟨hu, hv⟩)
      · exact .inr (.inl hsame)
      · obtain ⟨v, hv⟩ := Option.ne_none_iff_exists'.1 hv
        cases v with
        | px => exact .inl ⟨hu, hv⟩
        | rem => exact .inr (.inl (hu.trans hv.symm))
        | em => exact .inr (.inr ⟨hu, hv⟩)
  unfold widthComplaints
  rw [← hfit]
  split
  · next h => exact iff_of_true rfl h
  · next h => exact iff_of_false (by simp) h

/-- There is nothing to warn of exactly if the units go together. -/
theorem complaints_eq_nil_iff (h : LengthUnit.of? b.minSize ≠ none) :
    b.endComplaints ++ b.widthComplaints = [] ↔ b.HasFittingUnits := by
  obtain ⟨u, hu⟩ := Option.ne_none_iff_exists'.1 h
  rw [List.append_eq_nil_iff, endComplaints_eq_nil_iff, widthComplaints_eq_nil_iff, hu,
    HasFittingUnits]
  constructor
  · rintro ⟨⟨hsizes, hwidths⟩, hfit⟩
    rcases hfit with hsame | ⟨hrem, hsome⟩
    · exact ⟨u, u, hu, hsizes.symm, hsame.symm, hwidths ▸ hsame.symm, .inl rfl⟩
    · obtain ⟨v, hv⟩ := Option.ne_none_iff_exists'.1 hsome
      exact ⟨u, v, hu, hsizes.symm, hv, hwidths ▸ hv, .inr (Option.some.inj hrem)⟩
  · rintro ⟨u', v, hu', hsizes, hv, hwidths, hfit⟩
    obtain rfl : u' = u := Option.some.inj (hu'.symm.trans hu)
    refine ⟨⟨hsizes.symm, hv.trans hwidths.symm⟩, ?_⟩
    rcases hfit with rfl | rfl
    · exact .inl hv.symm
    · exact .inr ⟨rfl, by simp [hv]⟩

/-! ## Widths -/

/-- The number that is read from a converted width is the quotient, or like it not finite. -/
theorem magnitude_pxToRem? {width text : String} (hconverts : b.convertsWidths = true)
    (h : pxToRem? width rootFontSize = some text) :
    (magnitude text).SameValue (b.widthNumber rootFontSize width) := by
  obtain ⟨q, hq, rfl⟩ := Option.map_eq_some_iff.1 h
  have hcanonical := Binary64.canonical_of_div? hq
  rw [widthNumber, if_pos hconverts, hq]
  exact ⟨isFinite_magnitude_toText_append_iff hcanonical .rem,
    fun hfinite => value_magnitude_toText_append hcanonical hfinite .rem⟩

/-- The sizes stay as they are, and the widths become what they are needed as. -/
theorem sameValue_scaled (h : b.scaled? rootFontSize = some scaled) :
    scaled.minSize = b.minSize ∧ scaled.maxSize = b.maxSize ∧
      (magnitude scaled.minWidth).SameValue (b.widthNumber rootFontSize b.minWidth) ∧
      (magnitude scaled.maxWidth).SameValue (b.widthNumber rootFontSize b.maxWidth) := by
  unfold scaled? at h
  split at h
  · next hconverts =>
    split at h
    · next lower upper hlower hupper =>
      obtain rfl := Option.some.inj h
      exact ⟨rfl, rfl, magnitude_pxToRem? hconverts hlower, magnitude_pxToRem? hconverts hupper⟩
    · cases h
  · next hconverts =>
    obtain rfl := Option.some.inj h
    have hsame : ∀ width, (magnitude width).SameValue (b.widthNumber rootFontSize width) := by
      intro width
      rw [widthNumber, if_neg hconverts]
      exact .refl _
    exact ⟨rfl, rfl, hsame _, hsame _⟩

end Bounds

namespace Interpolation

variable {site : Site} {prop rootFontSize : String} {b : Bounds} {i : Interpolation} {r r' : Report}

/-- **What a missing warning says, and when an interpolation can be used.** There is no warning
exactly if the units go together; the interpolation can be used exactly if the numbers of the bounds
can. -/
theorem isUsable_iff (h : build site prop b rootFontSize r = .ok i r') :
    (r'.warnings = r.warnings ↔ b.HasFittingUnits) ∧
      (i.IsUsable ↔ b.HasUsableNumbers rootFontSize) := by
  obtain ⟨hunit, ⟨scaled, hscaled, rfl⟩, rfl⟩ := build_eq_ok_iff.1 h
  refine ⟨?units, ?numbers⟩
  case units =>
    rw [← Bounds.complaints_eq_nil_iff hunit, List.append_right_eq_self, List.map_eq_nil_iff]
  case numbers =>
    obtain ⟨hmin, hmax, hlower, hupper⟩ := Bounds.sameValue_scaled hscaled
    have hsizes : scaled.sizeDifference = (magnitude b.maxSize).sub (magnitude b.minSize) := by
      rw [Bounds.sizeDifference, hmin, hmax]
      rfl
    have hwidths := Binary64.isFinite_sub_and_ne_zero_iff hlower hupper (canonical_magnitude _)
      (canonical_magnitude _)
    constructor
    · rintro ⟨hsize, hwidth, hdifference, hzero⟩
      obtain ⟨hmaxSize, hminSize, hsizesNear⟩ := Binary64.isFinite_sub_iff.1 (hsizes ▸ hsize)
      obtain ⟨hminWidth, hmaxWidth, hne, hwidthsNear⟩ := hwidths.1 ⟨hwidth, hdifference, hzero⟩
      exact ⟨hminSize, hmaxSize, hsizesNear, hminWidth, hmaxWidth, hne, hwidthsNear⟩
    · rintro ⟨hminSize, hmaxSize, hsizesNear, hminWidth, hmaxWidth, hne, hwidthsNear⟩
      have hsize := Binary64.isFinite_sub_iff.2 ⟨hmaxSize, hminSize, hsizesNear⟩
      obtain ⟨hwidth, hdifference, hzero⟩ := hwidths.2 ⟨hminWidth, hmaxWidth, hne, hwidthsNear⟩
      exact ⟨hsizes ▸ hsize, hwidth, hdifference, hzero⟩

/-- Widths in pixels as multiples of a root font size of `20px`. -/
theorem isUsable_iff_convertedWidths : ∃ i,
    build ⟨"a", none, none, none⟩ "font-size" ⟨"1rem", "2rem", "400px", "1200px"⟩ "20px" .empty =
        .ok i .empty ∧
      (⟨"1rem", "2rem", "400px", "1200px"⟩ : Bounds).HasFittingUnits ∧ i.IsUsable ∧
      (⟨"1rem", "2rem", "400px", "1200px"⟩ : Bounds).HasUsableNumbers "20px" := by
  let i : Interpolation := ⟨"font-size", ⟨"1rem", "2rem", "400px", "1200px"⟩,
    ⟨"1rem", "2rem", "20rem", "60rem"⟩, "a", none⟩
  have hbuild : build ⟨"a", none, none, none⟩ "font-size" ⟨"1rem", "2rem", "400px", "1200px"⟩ "20px"
    .empty = .ok i .empty := rfl
  have husable : i.IsUsable := ⟨by decide, by decide, by decide, by decide⟩
  have h := isUsable_iff hbuild
  exact ⟨i, hbuild, h.1.1 rfl, husable, h.2.1 husable⟩

/-- Widths that are equal are no reason for a warning, but the interpolation cannot be used. -/
theorem not_isUsable_equalWidths : ¬ ∀ (site : Site) (prop rootFontSize : String) (b : Bounds)
    (i : Interpolation) (r r' : Report), build site prop b rootFontSize r = .ok i r' →
      r'.warnings = r.warnings → i.IsUsable := by
  intro h
  have husable := h ⟨"a", none, none, none⟩ "font-size" "16px" ⟨"1px", "2px", "420px", "420px"⟩
    ⟨"font-size", ⟨"1px", "2px", "420px", "420px"⟩, ⟨"1px", "2px", "420px", "420px"⟩, "a", none⟩
    .empty .empty rfl rfl
  exact absurd husable.widthDifference_ne_zero (by decide)

end Interpolation

end FluidCss
