import FluidCss.Text.DecimalDigit
import FluidCss.Text.WordCharacter

set_option autoImplicit false

/-! # Numbers within a text

Finding every number in a text, each with the sign and the unit written at it. A number is a run
of digits, possibly with a point before its last digits; word characters that follow are its unit,
and a hyphen directly before it its sign. -/

namespace FluidCss.Number

open Text

/-- The unsigned number that a text starts with, and the rest of the text. The point belongs to it
only when a digit follows. -/
def splitNumber? (cs : List Char) : Option (List Char × List Char) :=
  let whole := cs.takeWhile isDigit
  let rest := cs.dropWhile isDigit
  let bare := if whole.isEmpty then none else some (whole, rest)
  match rest with
  | '.' :: afterPoint =>
    let fraction := afterPoint.takeWhile isDigit
    if fraction.isEmpty then bare
    else some (whole ++ '.' :: fraction, afterPoint.dropWhile isDigit)
  | _ => bare

theorem splitNumber?_append (cs number rest : List Char)
    (h : splitNumber? cs = some (number, rest)) : number ++ rest = cs ∧ number ≠ [] := by
  have hsplit : cs.takeWhile isDigit ++ cs.dropWhile isDigit = cs := List.takeWhile_append_dropWhile
  have bare : (if (cs.takeWhile isDigit).isEmpty then none
      else some (cs.takeWhile isDigit, cs.dropWhile isDigit)) = some (number, rest) →
      number ++ rest = cs ∧ number ≠ [] := by
    intro h
    split at h
    · simp at h
    · next hne =>
      simp only [Option.some.injEq, Prod.mk.injEq] at h
      obtain ⟨rfl, rfl⟩ := h
      exact ⟨hsplit, by simpa using hne⟩
  simp only [splitNumber?] at h
  split at h
  · next afterPoint hrest =>
    split at h
    · exact bare h
    · simp only [Option.some.injEq, Prod.mk.injEq] at h
      obtain ⟨rfl, rfl⟩ := h
      exact ⟨by rw [hrest] at hsplit; simpa using hsplit, by simp⟩
  · exact bare h

/-- The number that a text starts with, its sign and unit included, and the rest of the text. -/
def splitToken? (cs : List Char) : Option (List Char × List Char) :=
  match cs with
  | '-' :: afterSign =>
    (splitNumber? afterSign).map fun (number, rest) =>
      ('-' :: number ++ rest.takeWhile isWordCharacter, rest.dropWhile isWordCharacter)
  | _ =>
    (splitNumber? cs).map fun (number, rest) =>
      (number ++ rest.takeWhile isWordCharacter, rest.dropWhile isWordCharacter)

/-- What is split off and what is left make up the text, and something is split off. -/
theorem splitToken?_append (cs token rest : List Char) (h : splitToken? cs = some (token, rest)) :
    token ++ rest = cs ∧ token ≠ [] := by
  unfold splitToken? at h
  split at h
  · simp only [Option.map_eq_some_iff, Prod.exists, Prod.mk.injEq] at h
    obtain ⟨number, tail, hs, rfl, rfl⟩ := h
    obtain ⟨happ, -⟩ := splitNumber?_append _ _ _ hs
    exact ⟨by simp [← happ], by simp⟩
  · simp only [Option.map_eq_some_iff, Prod.exists, Prod.mk.injEq] at h
    obtain ⟨number, tail, hs, rfl, rfl⟩ := h
    obtain ⟨happ, hne⟩ := splitNumber?_append _ _ _ hs
    exact ⟨by simp [← happ], by simp [hne]⟩

theorem splitToken?_length_lt (cs token rest : List Char)
    (h : splitToken? cs = some (token, rest)) : rest.length < cs.length := by
  obtain ⟨happ, hne⟩ := splitToken?_append cs token rest h
  have := List.length_pos_iff.2 hne
  rw [← happ, List.length_append]
  omega

/-- Every number of a text with its sign and unit, in order. -/
def numericTokens (cs : List Char) : List (List Char) :=
  match _h : splitToken? cs with
  | some (token, rest) => token :: numericTokens rest
  | none =>
    match cs with
    | [] => []
    | _ :: rest => numericTokens rest
termination_by cs.length
decreasing_by
  · exact splitToken?_length_lt _ _ _ _h
  · simp

end FluidCss.Number
