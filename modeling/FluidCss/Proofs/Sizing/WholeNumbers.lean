import FluidCss.Proofs.Number.Whole
import FluidCss.Proofs.Sizing.Usable

set_option autoImplicit false

/-! # Interpolations between whole numbers

Where the bounds are whole numbers and the widths, if they are converted, stay whole, nothing is
rounded: the interpolation is written in whole numbers, and, read as rational arithmetic, it is the
one size at the one width and the other at the other (`Interpolation.build_whole`). -/

namespace FluidCss

open Number Text

/-! ## Reading a `calc()` -/

/-- The value of a literal with its sign. -/
def Number.Literal.signedValue (l : Literal) : ℚ :=
  if l.sign = some .minus then -l.value else l.value

/-- The rational at the front of a text and the rest of the text. -/
def readNumber? (cs : List Char) : Option (ℚ × List Char) :=
  (Literal.read? cs).map fun (l, rest) => (l.signedValue, rest)

/-- The unit at the front of a text and the rest of the text. -/
def readUnit? (cs : List Char) : Option (LengthUnit × List Char) :=
  LengthUnit.all.findSome? fun u => (u.name.toList.isPrefixOf? cs).map fun rest => (u, rest)

/-- The length at the front of a text, as a rational and its unit, and the rest of the text. -/
def readLength? (cs : List Char) : Option (ℚ × LengthUnit × List Char) := do
  let (number, cs) ← readNumber? cs
  let (unit, cs) ← readUnit? cs
  pure (number, unit, cs)

/-- The value of a `calc()` that grows with the viewport, as a rational and its unit, where the
viewport is so many of a unit wide. There is none if the width that is subtracted is given in
another unit. -/
def calcValue? (viewport : ℚ) (unit : LengthUnit) (text : String) : Option (ℚ × LengthUnit) := do
  let cs ← "calc(".toList.isPrefixOf? text.toList
  let (size, sizeUnit, cs) ← readLength? cs
  let cs ← " + ".toList.isPrefixOf? cs
  let (sizeDifference, cs) ← readNumber? cs
  let cs ← " * ((100vw - ".toList.isPrefixOf? cs
  let (width, widthUnit, cs) ← readLength? cs
  let cs ← ") / ".toList.isPrefixOf? cs
  let (widthDifference, cs) ← readNumber? cs
  if cs = "))".toList ∧ widthUnit = unit then
    pure (size + sizeDifference * ((viewport - width) / widthDifference), sizeUnit)
  else none

namespace LengthUnit

/-- So many of a unit, written out. -/
def text (u : LengthUnit) (n : ℤ) : String := toString n ++ u.name

/-- Sizes in one unit and widths given in a second need the widths in a third, of which one is so many
of the second. -/
inductive Needs (rootFontSize : String) : LengthUnit → LengthUnit → LengthUnit → ℤ → Prop
  | same (u : LengthUnit) : Needs rootFontSize u u u 1
  | em : Needs rootFontSize rem em em 1
  | px (pixels : ℤ) (pos : 0 < pixels) (root : rootFontSize = px.text pixels) :
    Needs rootFontSize rem px rem pixels

end LengthUnit

/-- The `calc()` of an interpolation between whole numbers. -/
def wholeCalc (sizeUnit widthUnit : LengthUnit) (size sizeDifference width widthDifference : ℤ) :
    String :=
  "calc(" ++ sizeUnit.text size ++ " + " ++ toString sizeDifference ++ " * ((100vw - " ++
    widthUnit.text width ++ ") / " ++ toString widthDifference ++ "))"

section Reading

variable {rest : List Char}

theorem readNumber?_toString_append (n : ℤ) (hrest : EndsLiteral rest) :
    readNumber? ((toString n).toList ++ rest) = some ((n : ℚ), rest) := by
  have hdigits := denotes_digitChars n.natAbs
  rw [toList_toString]
  by_cases hneg : n < 0
  · obtain ⟨l, hread, hsign, hvalue⟩ := hdigits.exists_read?_minus_append hrest
    have hsigned : l.signedValue = n := by
      rw [Literal.signedValue, if_pos hsign, hvalue, ← sign_mul_natAbs, if_pos hneg, neg_one_mul]
    rw [if_pos hneg, readNumber?, hread, ← hsigned]
    rfl
  · obtain ⟨l, hread, hsign, hvalue⟩ := hdigits.exists_read?_append hrest
    have hsigned : l.signedValue = n := by
      rw [Literal.signedValue, if_neg (by simp [hsign]), hvalue, ← sign_mul_natAbs n, if_neg hneg,
        one_mul]
    rw [if_neg hneg, readNumber?, hread, ← hsigned]
    rfl

theorem readUnit?_append (u : LengthUnit) (rest : List Char) :
    readUnit? (u.name.toList ++ rest) = some (u, rest) := by
  cases u <;> rfl

theorem readLength?_text_append (u : LengthUnit) (n : ℤ) (rest : List Char) :
    readLength? ((u.text n).toList ++ rest) = some ((n : ℚ), u, rest) := by
  rw [LengthUnit.text, String.toList_append, List.append_assoc, readLength?,
    readNumber?_toString_append n (u.endsLiteral_name_append rest)]
  change (readUnit? (u.name.toList ++ rest)).bind _ = _
  rw [readUnit?_append]
  rfl

/-- **A `calc()` between whole numbers, read as rational arithmetic.** -/
theorem calcValue?_wholeCalc (u w : LengthUnit) (size sizeDifference width widthDifference : ℤ)
    (viewport : ℚ) :
    calcValue? viewport w (wholeCalc u w size sizeDifference width widthDifference) =
      some (size + sizeDifference * ((viewport - width) / widthDifference), u) := by
  have hblank : ∀ rest, EndsLiteral (" * ((100vw - ".toList ++ rest) := fun rest =>
    endsLiteral_cons (by decide) (by decide) rfl
  have hparen : EndsLiteral "))".toList := endsLiteral_cons (by decide) (by decide) rfl
  have hprefix : ∀ cs rest : List Char, cs.isPrefixOf? (cs ++ rest) = some rest := fun cs rest =>
    List.isPrefixOf?_eq_some_iff_append_eq.2 rfl
  unfold calcValue? wholeCalc
  simp only [String.toList_append, List.append_assoc, hprefix, readLength?_text_append,
    readNumber?_toString_append _ (hblank _), readNumber?_toString_append _ hparen,
    Option.bind_eq_bind, Option.bind_some]
  exact if_pos ⟨trivial, trivial⟩

end Reading

/-! ## Lengths in whole numbers -/

theorem magnitude_text {n : ℤ} (u : LengthUnit) (hn : n.natAbs ≤ 2 ^ 53) :
    (magnitude (u.text n)).Represents n := by
  rw [magnitude, LengthUnit.text, String.toList_append]
  exact Binary64.represents_leadingNumber hn u.endsLiteral_name

/-- A difference of whole numbers is written as what it is. -/
theorem toText_sub_text {m n : ℤ} (u : LengthUnit) (hm : m.natAbs ≤ 2 ^ 52)
    (hn : n.natAbs ≤ 2 ^ 52) :
    (magnitude (u.text m) - magnitude (u.text n)).toText = toString (m - n) := by
  have hdifference := (magnitude_text u (n := m) (by omega)).sub
    (magnitude_text u (n := n) (by omega)) (Int.cast_sub m n).symm (by omega)
  exact hdifference.toText_eq (by omega)

/-- No unit begins within a whole number. -/
theorem of?_text (u : LengthUnit) (n : ℤ) : LengthUnit.of? (u.text n) = some u := by
  have hdigits : ∀ c ∈ digitChars n.natAbs, c ≠ 'p' ∧ c ≠ 'r' ∧ c ≠ 'e' := by
    intro c hc
    have hdigit := List.all_eq_true.1 (all_isDigit_digitChars n.natAbs) c hc
    refine ⟨?_, ?_, ?_⟩ <;> (rintro rfl; exact absurd hdigit (by decide))
  have hchars : ∀ c ∈ (toString n).toList, c ≠ 'p' ∧ c ≠ 'r' ∧ c ≠ 'e' := by
    rw [toList_toString]
    split
    · exact List.forall_mem_cons.2 ⟨by decide, hdigits⟩
    · exact hdigits
  rw [LengthUnit.of?, LengthUnit.text, String.toList_append, LengthUnit.find?_append hchars,
    LengthUnit.find?_name]

/-- A quotient of whole numbers that is whole is written as what it is. -/
theorem pxToRem?_text {pixels size : ℤ} (hsize : size ≠ 0) (hdvd : size ∣ pixels)
    (hpixels : pixels.natAbs ≤ 2 ^ 53) (hle : size.natAbs ≤ 2 ^ 53) :
    pxToRem? (LengthUnit.px.text pixels) (LengthUnit.px.text size) =
      some (LengthUnit.rem.text (pixels / size)) := by
  have hsize' : (size : ℚ) ≠ 0 := by exact_mod_cast hsize
  have hquotient : (pixels / size).natAbs ≤ 2 ^ 53 :=
    (Int.natAbs_ediv_le_natAbs pixels size).trans hpixels
  obtain ⟨z, hz, hrepresents⟩ := (magnitude_text .px hpixels).div? (magnitude_text .px hle) hsize'
    (Int.cast_div hdvd hsize').symm hquotient
  rw [pxToRem?, hz, Option.map_some, hrepresents.toText_eq (by omega)]
  rfl

namespace LengthUnit.Needs

variable {rootFontSize : String} {u v w : LengthUnit} {k : ℤ}

theorem fits (h : Needs rootFontSize u v w k) : u = v ∨ u = .rem := by
  cases h with
  | same => exact .inl rfl
  | em => exact .inr rfl
  | px => exact .inr rfl

end LengthUnit.Needs

/-- What divides two numbers is not larger than one of them, if they are different. -/
theorem natAbs_le_of_dvd_of_ne {c d k : ℤ} {bound : ℕ} (hkc : k ∣ c) (hkd : k ∣ d) (hcd : c ≠ d)
    (hc : c.natAbs ≤ bound) (hd : d.natAbs ≤ bound) : k.natAbs ≤ bound := by
  by_cases h : c = 0
  · have hne : d ≠ 0 := h ▸ hcd.symm
    exact (Nat.le_of_dvd (Int.natAbs_pos.2 hne) (Int.natAbs_dvd_natAbs.2 hkd)).trans hd
  · exact (Nat.le_of_dvd (Int.natAbs_pos.2 h) (Int.natAbs_dvd_natAbs.2 hkc)).trans hc

namespace Interpolation

variable {rootFontSize : String} {u v w : LengthUnit} {a b c d k : ℤ}

/-- The widths as they are needed. -/
theorem scaled?_text (h : LengthUnit.Needs rootFontSize u v w k) (hcd : c ≠ d)
    (hc : c.natAbs ≤ 2 ^ 52) (hd : d.natAbs ≤ 2 ^ 52) (hkc : k ∣ c) (hkd : k ∣ d) :
    Bounds.scaled? ⟨u.text a, u.text b, v.text c, v.text d⟩ rootFontSize =
      some ⟨u.text a, u.text b, w.text (c / k), w.text (d / k)⟩ := by
  have hconverts := Bounds.convertsWidths_iff ⟨u.text a, u.text b, v.text c, v.text d⟩
  simp only [of?_text] at hconverts
  unfold Bounds.scaled?
  cases h with
  | same u =>
    rw [if_neg, Int.ediv_one, Int.ediv_one]
    rw [hconverts]
    rintro ⟨hrem, hpx⟩
    cases hrem.symm.trans hpx
  | em =>
    rw [if_neg, Int.ediv_one, Int.ediv_one]
    rw [hconverts]
    rintro ⟨-, hpx⟩
    cases hpx
  | px pixels pos root =>
    have hle := natAbs_le_of_dvd_of_ne hkc hkd hcd hc hd
    rw [if_pos (hconverts.2 ⟨rfl, rfl⟩), root,
      pxToRem?_text pos.ne' hkc (by omega) (by omega),
      pxToRem?_text pos.ne' hkd (by omega) (by omega)]
    rfl

/-- **An interpolation between whole numbers meets both bounds exactly.** -/
theorem build_whole (site : Site) (prop : String) (r : Report) (ha : |a| ≤ 2 ^ 52)
    (hb : |b| ≤ 2 ^ 52) (hc : |c| ≤ 2 ^ 52) (hd : |d| ≤ 2 ^ 52) (hcd : c ≠ d)
    (h : LengthUnit.Needs rootFontSize u v w k) (hkc : k ∣ c) (hkd : k ∣ d) :
    ∃ i, build site prop ⟨u.text a, u.text b, v.text c, v.text d⟩ rootFontSize r = .ok i r ∧
      i.expression = wholeCalc u w a (b - a) (c / k) (d / k - c / k) ∧
      calcValue? (c / k : ℤ) w i.expression = some ((a : ℚ), u) ∧
      calcValue? (d / k : ℤ) w i.expression = some ((b : ℚ), u) := by
  rw [Int.abs_eq_natAbs] at ha hb hc hd
  have hc' := Int.natAbs_ediv_le_natAbs c k
  have hd' := Int.natAbs_ediv_le_natAbs d k
  have hne : c / k ≠ d / k := by
    intro heq
    exact hcd (by rw [← Int.ediv_mul_cancel hkc, heq, Int.ediv_mul_cancel hkd])
  have hsizes := toText_sub_text u (m := b) (n := a) (by omega) (by omega)
  have hwidths := toText_sub_text w (m := d / k) (n := c / k) (by omega) (by omega)
  have hscaled := scaled?_text (a := a) (b := b) h hcd (by omega) (by omega) hkc hkd
  have hcomplaints := (Bounds.complaints_eq_nil_iff
    (b := ⟨u.text a, u.text b, v.text c, v.text d⟩) (by simp [of?_text])).2
    ⟨u, v, of?_text u a, of?_text u b, of?_text v c, of?_text v d, h.fits⟩
  have hexpression : Bounds.expression ⟨u.text a, u.text b, w.text (c / k), w.text (d / k)⟩ =
      wholeCalc u w a (b - a) (c / k) (d / k - c / k) := by
    rw [Bounds.expression, Bounds.sizeDifference, Bounds.widthDifference, hsizes, hwidths]
    rfl
  refine ⟨_, build_eq_ok_iff.2 ⟨by simp [of?_text], ⟨_, hscaled, rfl⟩, ?report⟩, hexpression,
    ?lower, ?upper⟩
  case report =>
    rw [hcomplaints, List.map_nil, List.append_nil]
  case lower =>
    rw [expression, hexpression, calcValue?_wholeCalc, sub_self, zero_div, mul_zero, add_zero]
  case upper =>
    have hrange : ((d / k : ℤ) : ℚ) - (c / k : ℤ) ≠ 0 :=
      sub_ne_zero.2 fun heq => hne (by exact_mod_cast heq.symm)
    rw [expression, hexpression, calcValue?_wholeCalc, Int.cast_sub, Int.cast_sub, div_self hrange,
      mul_one, add_sub_cancel]

/-- Sizes in `rem` from three to minus two, and widths from 320 to 1280 pixels at a root font size
of `16px`. -/
theorem build_whole_converted : ∃ i,
    build ⟨"a", none, none, none⟩ "font-size" ⟨"3rem", "-2rem", "320px", "1280px"⟩ "16px" .empty =
        .ok i .empty ∧
      i.expression = "calc(3rem + -5 * ((100vw - 20rem) / 60))" ∧
      calcValue? 20 .rem i.expression = some (3, .rem) ∧
      calcValue? 80 .rem i.expression = some (-2, .rem) := by
  obtain ⟨i, hbuild, hexpression, hlower, hupper⟩ :=
    build_whole ⟨"a", none, none, none⟩ "font-size" .empty (a := 3) (b := -2) (c := 320) (d := 1280)
      (by norm_num) (by norm_num) (by norm_num) (by norm_num) (by norm_num)
      (.px 16 (by norm_num) rfl) (by norm_num) (by norm_num)
  exact ⟨i, hbuild, hexpression, by simpa using hlower, by simpa using hupper⟩

end Interpolation

end FluidCss
