import FluidCss.Proofs.Number.ReadBack
import FluidCss.Sizing.Length

set_option autoImplicit false

/-! # Lengths that are written and read again

A number with a unit behind it is read back as that number, and its unit is found, since no unit
begins within a number. The number of a length is finite exactly if it starts with a literal that is
small enough (`isFinite_magnitude_iff`). -/

namespace FluidCss

open Number Text

namespace LengthUnit

/-- A literal does not go on with a unit behind it. -/
theorem endsLiteral_name_append (u : LengthUnit) (rest : List Char) :
    EndsLiteral (u.name.toList ++ rest) := by
  cases u
  case px => exact endsLiteral_cons (by decide) (by decide) rfl
  case rem => exact endsLiteral_cons (by decide) (by decide) rfl
  case em => exact endsLiteral_cons (by decide) (by decide) rfl

theorem endsLiteral_name (u : LengthUnit) : EndsLiteral u.name.toList := by
  have h := u.endsLiteral_name_append []
  rwa [List.append_nil] at h

/-- No unit begins with a character that none begins with. -/
theorem find?_cons_of_ne {c : Char} (hp : c ≠ 'p') (hr : c ≠ 'r') (he : c ≠ 'e') (cs : List Char) :
    find? (c :: cs) = find? cs := by
  rw [find?]
  · rintro rest rfl
    exact absurd rfl hp
  · rintro rest rfl
    exact absurd rfl hr
  · rintro rest rfl
    exact absurd rfl he

theorem find?_append {cs : List Char} (h : ∀ c ∈ cs, c ≠ 'p' ∧ c ≠ 'r' ∧ c ≠ 'e')
    (rest : List Char) : find? (cs ++ rest) = find? rest := by
  induction cs with
  | nil => rfl
  | cons c cs ih =>
    obtain ⟨⟨hp, hr, he⟩, hcs⟩ := List.forall_mem_cons.1 h
    rw [List.cons_append, find?_cons_of_ne hp hr he, ih hcs]

theorem find?_name (u : LengthUnit) : find? u.name.toList = some u := by cases u <;> rfl

end LengthUnit

theorem canonical_magnitude (length : String) : (magnitude length).Canonical := by
  unfold magnitude leadingNumber
  split
  · next l rest _ =>
    rw [Literal.toBinary64_eq_nearest]
    exact Binary64.canonical_nearest _ l.value_nonneg
  · trivial

/-- **When the number of a length is finite.** -/
theorem isFinite_magnitude_iff (length : String) : (magnitude length).IsFinite ↔
    ∃ l rest, Literal.read? (trimStart length.toList) = some (l, rest) ∧
      l.value < Binary64.overflowBound := by
  unfold magnitude leadingNumber
  split
  · next l rest hread =>
    rw [Literal.toBinary64_eq_nearest, Binary64.isFinite_nearest_iff _ l.value_nonneg]
    simp [hread]
  · next hread => exact iff_of_false id (by simp [hread])

section Written

variable {x : Binary64}

theorem magnitude_toText_append (hx : x.Canonical) (hfinite : x.IsFinite) (u : LengthUnit) :
    magnitude (x.toText ++ u.name) = if x.isZero then .zero false else x := by
  rw [magnitude, String.toList_append, Binary64.toText, String.toList_ofList,
    Binary64.leadingNumber_text_append hx hfinite u.endsLiteral_name]

theorem isFinite_magnitude_toText_append_iff (hx : x.Canonical) (u : LengthUnit) :
    (magnitude (x.toText ++ u.name)).IsFinite ↔ x.IsFinite := by
  by_cases hfinite : x.IsFinite
  · rw [magnitude_toText_append hx hfinite]
    split
    · exact iff_of_true trivial hfinite
    · rfl
  · rw [magnitude, String.toList_append, Binary64.toText, String.toList_ofList,
      Binary64.leadingNumber_text_append_of_not hfinite]
    exact iff_of_false id hfinite

theorem value_magnitude_toText_append (hx : x.Canonical) (hfinite : x.IsFinite) (u : LengthUnit) :
    (magnitude (x.toText ++ u.name)).value = x.value := by
  rw [magnitude_toText_append hx hfinite]
  split
  · next hzero => rw [(Binary64.isZero_iff.1 hzero).2, (Binary64.isZero_iff.1 rfl).2]
  · rfl

end Written

end FluidCss
