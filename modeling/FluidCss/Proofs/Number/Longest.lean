import FluidCss.Proofs.Number.Literal
import Mathlib.Data.List.TakeWhile

set_option autoImplicit false

/-! # The longest literal

Of the literals that a text starts with, reading takes the longest one
(`Literal.read?_eq_some_iff`). The reader looks ahead by a few characters only, so the reason is not
to be found in the reader: a literal that goes on with what stands behind it is a part of a longer
one (`Literal.IsLongestAt.ends`), and one that does not go on is read back. -/

namespace FluidCss.Number

open Text

/-! ## What is read is a literal -/

/-- What is read as an exponent is made of the right parts. -/
theorem exponentRead_eq_some {cs rest : List Char} {p : ExponentPart}
    (h : ExponentPart.read cs = (some p, rest)) :
    (p.mark = 'e' ∨ p.mark = 'E') ∧ p.digits ≠ [] ∧ ∀ c ∈ p.digits, isDigit c = true := by
  unfold ExponentPart.read at h
  split at h
  · cases h
  · next mark afterMark =>
    dsimp only at h
    split at h
    · next hmark =>
      split at h
      · cases h
      · next hne =>
        cases h
        exact ⟨hmark, by simpa using hne, fun c hc => List.mem_takeWhile_imp hc⟩
    · cases h

namespace Literal

variable {l l' : Literal} {cs rest : List Char} {c : Char}

/-- What is read as a fraction is made of digits, and there are some where they have to be. -/
theorem readFraction_fst (bare : Bool) (cs : List Char) (ds : List Char)
    (h : (readFraction bare cs).1 = some ds) :
    (∀ c ∈ ds, isDigit c = true) ∧ (bare = true → ds ≠ []) := by
  unfold readFraction at h
  split at h
  · dsimp only at h
    split at h
    · cases h
    · next hkept =>
      obtain rfl := Option.some.inj h
      refine ⟨fun c hc => List.mem_takeWhile_imp hc, fun hbare hnil => hkept ?_⟩
      rw [hbare, hnil]
      rfl
  · cases h

/-- **What is read is a literal.** -/
theorem isWellFormed_of_read? (h : read? cs = some (l, rest)) : l.IsWellFormed := by
  simp only [read?] at h
  split at h
  · cases h
  next hsome =>
  obtain ⟨rfl, -⟩ := Prod.mk.inj (Option.some.inj h)
  have hfraction := readFraction_fst ((Sign.read cs).2.takeWhile isDigit).isEmpty
    ((Sign.read cs).2.dropWhile isDigit)
  generalize readFraction _ _ = fraction at hfraction hsome ⊢
  obtain ⟨fraction, afterFraction⟩ := fraction
  dsimp only at hfraction hsome ⊢
  have hexponent : ∀ p, (ExponentPart.read afterFraction).1 = some p →
      (p.mark = 'e' ∨ p.mark = 'E') ∧ p.digits ≠ [] ∧ ∀ c ∈ p.digits, isDigit c = true :=
    fun p hp => exponentRead_eq_some (Prod.ext hp rfl)
  refine ⟨fun c hc => List.mem_takeWhile_imp hc, fun ds hds => (hfraction ds hds).1, fun hnil => ?_,
    fun p hp => (hexponent p hp).1, fun p hp => (hexponent p hp).2.1,
    fun p hp => (hexponent p hp).2.2⟩
  dsimp only at hnil
  cases fraction with
  | none => exact absurd (by rw [hnil]; rfl) hsome
  | some ds => exact ⟨ds, rfl, (hfraction ds rfl).2 (by rw [hnil]; rfl)⟩

/-! ## Longer literals -/

/-- Whether a text starts with a literal. -/
def IsAt (l : Literal) (cs : List Char) : Prop := l.IsWellFormed ∧ l.text <+: cs

/-- Whether a literal is the longest one that a text starts with. -/
def IsLongestAt (l : Literal) (cs : List Char) : Prop :=
  l.IsAt cs ∧ ∀ l' : Literal, l'.IsAt cs → l'.text.length ≤ l.text.length

/-- A literal with one more digit in its last part. -/
def push (l : Literal) (c : Char) : Literal :=
  match l.exponent, l.fraction with
  | some p, _ => { l with exponent := some { p with digits := p.digits ++ [c] } }
  | none, some ds => { l with fraction := some (ds ++ [c]) }
  | none, none => { l with whole := l.whole ++ [c] }

theorem text_push (l : Literal) (c : Char) : (l.push c).text = l.text ++ [c] := by
  obtain ⟨s, whole, _ | ds, _ | p⟩ := l <;> simp [push, text, fractionText, ExponentPart.text]

theorem isWellFormed_push (h : l.IsWellFormed) (hc : isDigit c = true) :
    (l.push c).IsWellFormed := by
  have hconcat : ∀ ds : List Char, (∀ d ∈ ds, isDigit d = true) →
      ∀ d ∈ ds ++ [c], isDigit d = true := by
    intro ds hds
    simpa [or_imp, forall_and, hc] using hds
  obtain ⟨s, whole, fraction, exponent⟩ := l
  cases exponent with
  | some p =>
    refine ⟨h.whole, h.fraction, h.fraction_ne_nil, ?_, ?_, ?_⟩
    · rintro _ ⟨⟩
      exact h.mark p rfl
    · rintro _ ⟨⟩
      simp
    · rintro _ ⟨⟩
      exact hconcat _ (h.exponent p rfl)
  | none =>
    cases fraction with
    | some ds =>
      refine ⟨h.whole, ?_, fun _ => ⟨ds ++ [c], rfl, by simp⟩, ?_, ?_, ?_⟩
      · rintro _ ⟨⟩
        exact hconcat _ (h.fraction ds rfl)
      all_goals simp [push]
    | none =>
      refine ⟨hconcat _ h.whole, ?_, fun hnil => ?_, ?_, ?_, ?_⟩
      · simp [push]
      · simp [push] at hnil
      all_goals simp [push]

/-- The longest literal is not a part of a longer one. -/
theorem IsLongestAt.not_longer (h : l.IsLongestAt (l.text ++ rest)) (hl' : l'.IsWellFormed)
    (more : List Char) {tail : List Char} (hmore : more ≠ []) (htext : l'.text = l.text ++ more)
    (hrest : rest = more ++ tail) : False := by
  have hat : l'.IsAt (l.text ++ rest) := by
    refine ⟨hl', ?_⟩
    rw [htext, hrest, ← List.append_assoc]
    exact List.prefix_append _ _
  have hle := h.2 l' hat
  have hpos := List.length_pos_iff.2 hmore
  rw [htext, List.length_append] at hle
  omega

/-- **The longest literal does not go on with what stands behind it.** -/
theorem IsLongestAt.ends (h : l.IsLongestAt (l.text ++ rest)) : l.Ends rest where
  not_isDigit c hc := by
    obtain ⟨tail, rfl⟩ := List.head?_eq_some_iff.1 hc
    by_contra hdigit
    rw [Bool.not_eq_false] at hdigit
    exact h.not_longer (isWellFormed_push h.1.1 hdigit) [c] (by simp) (text_push l c) rfl
  ne_point hfraction hexponent c hc := by
    obtain ⟨tail, rfl⟩ := List.head?_eq_some_iff.1 hc
    rintro rfl
    -- a point may stand behind the last digit
    have hne : l.whole ≠ [] := by
      intro hnil
      obtain ⟨ds, hds, -⟩ := h.1.1.fraction_ne_nil hnil
      rw [hfraction] at hds
      cases hds
    have hformed : IsWellFormed ⟨l.sign, l.whole, some [], none⟩ :=
      isWellFormed_mk hne h.1.1.whole (by simp)
    refine h.not_longer hformed ['.'] (by simp) ?_ rfl
    rw [text, text, hfraction, hexponent]
    simp [fractionText, ExponentPart.text]
  no_exponent hexponent := by
    have hread := ExponentPart.read_text rest
    cases hp : ExponentPart.read rest with
    | mk p tail =>
      rw [hp] at hread
      cases p with
      | none => rw [← hread]; rfl
      | some p =>
        obtain ⟨hmark, hne, hdigits⟩ := exponentRead_eq_some hp
        have hformed : IsWellFormed { l with exponent := some p } := by
          refine ⟨h.1.1.whole, h.1.1.fraction, h.1.1.fraction_ne_nil, ?_, ?_, ?_⟩
          · rintro _ ⟨⟩
            exact hmark
          · rintro _ ⟨⟩
            exact hne
          · rintro _ ⟨⟩
            exact hdigits
        have hpart : ExponentPart.text (some p) ≠ [] := List.cons_ne_nil _ _
        refine (h.not_longer hformed _ hpart ?_ hread.symm).elim
        rw [text, text, hexponent]
        simp [ExponentPart.text]

theorem IsAt.exists_isLongestAt (h : l.IsAt cs) : ∃ l', IsLongestAt l' cs := by
  induction hn : cs.length - l.text.length using Nat.strong_induction_on generalizing l with
  | h n ih =>
    by_cases hlongest : ∀ l' : Literal, l'.IsAt cs → l'.text.length ≤ l.text.length
    · exact ⟨l, h, hlongest⟩
    · push Not at hlongest
      obtain ⟨l', hl', hlt⟩ := hlongest
      have hle := hl'.2.length_le
      exact ih _ (by omega) hl' rfl

/-- **The longest literal is read**, and nothing else is. -/
theorem read?_eq_some_iff : (∃ rest, read? cs = some (l, rest)) ↔ l.IsLongestAt cs := by
  have hlongest : ∀ {k : Literal}, k.IsLongestAt cs → ∃ rest, read? cs = some (k, rest) := by
    intro k hk
    obtain ⟨rest, rfl⟩ := hk.1.2
    exact ⟨rest, read?_text_append hk.1.1 hk.ends⟩
  refine ⟨?_, hlongest⟩
  rintro ⟨rest, hread⟩
  have hat : l.IsAt cs :=
    ⟨isWellFormed_of_read? hread, rest, read?_text cs l rest hread⟩
  obtain ⟨k, hk⟩ := hat.exists_isLongestAt
  obtain ⟨tail, hread'⟩ := hlongest hk
  rw [hread'] at hread
  obtain ⟨rfl, -⟩ := Prod.mk.inj (Option.some.inj hread)
  exact hk

/-- Nothing is read exactly if the text starts with no literal. -/
theorem read?_eq_none_iff : read? cs = none ↔ ∀ l : Literal, ¬ l.IsAt cs := by
  constructor
  · intro h l hl
    obtain ⟨k, hk⟩ := hl.exists_isLongestAt
    obtain ⟨rest, hread⟩ := read?_eq_some_iff.2 hk
    rw [h] at hread
    cases hread
  · intro h
    rw [Option.eq_none_iff_forall_ne_some]
    rintro ⟨l, rest⟩ hread
    exact h l (read?_eq_some_iff.1 ⟨rest, hread⟩).1

end Literal

theorem leadingNumber_of_isLongestAt {l : Literal} {cs : List Char}
    (h : l.IsLongestAt (trimStart cs)) : leadingNumber cs = l.toBinary64 := by
  obtain ⟨rest, hread⟩ := Literal.read?_eq_some_iff.2 h
  rw [leadingNumber, hread]

/-- There is no number at the front of a text exactly if it starts with no literal. -/
theorem leadingNumber_eq_nan_iff {cs : List Char} :
    leadingNumber cs = .nan ↔ ∀ l : Literal, ¬ l.IsAt (trimStart cs) := by
  rw [← Literal.read?_eq_none_iff, leadingNumber]
  split
  · next l rest hread =>
    rw [hread, Literal.toBinary64_eq_nearest]
    exact iff_of_false (Binary64.nearest_ne_nan _ l.value_nonneg) (by simp)
  · next hread => exact iff_of_true rfl hread

end FluidCss.Number
