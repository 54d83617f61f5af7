import FluidCss.Number.Token
import FluidCss.Proofs.Number.Longest
import FluidCss.Proofs.Number.ReadBack

set_option autoImplicit false

/-! # The numbers of a text

The numbers of a text are found by a scan from its front. They are stretches of the text, one behind
the other, and the scan passes over a character only if no number starts with it. As a number starts
with every digit, each digit is part of one of them (`IsScan.areFoundOnce`). What is found is also
read as a number (`leadingNumber_ne_nan_of_mem`). Numbers that stand one by one between blanks are
found as they have been written (`Spaced.numericTokens_fluid_append`). -/

namespace FluidCss.Number

open Text

variable {cs number token rest : List Char} {c : Char}

/-! ## Classes of characters -/

theorem isAlpha_bounds (h : c.isAlpha = true) :
    (65 ≤ c.toNat ∧ c.toNat ≤ 90) ∨ (97 ≤ c.toNat ∧ c.toNat ≤ 122) := by
  have hcases : (c.isUpper || c.isLower) = true := h
  rw [Bool.or_eq_true] at hcases
  rcases hcases with hupper | hlower
  · have hboth : decide (c.val ≥ 'A'.val ∧ c.val ≤ 'Z'.val) = true := hupper
    exact .inl (of_decide_eq_true hboth)
  · have hboth : (decide (c.val ≥ 'a'.val) && decide (c.val ≤ 'z'.val)) = true := hlower
    rw [Bool.and_eq_true, decide_eq_true_eq, decide_eq_true_eq] at hboth
    exact .inr hboth

theorem isDigit_of_isAlpha (h : c.isAlpha = true) : isDigit c = false := by
  rw [← Bool.not_eq_true]
  intro hdigit
  obtain ⟨z, hz, hlow, hhigh⟩ := exists_zero_of_isDigit hdigit
  have hzeros : ∀ z ∈ digitZeros, z = 0x30 ∨ 0x80 ≤ z := by decide
  have hzero := hzeros z hz
  have hletter := isAlpha_bounds h
  omega

/-- White space does not belong to a word. -/
theorem isWordCharacter_of_isBlank (h : isBlank c = true) : isWordCharacter c = false := by
  simp only [isBlank, Bool.or_eq_true, Bool.and_eq_true, decide_eq_true_eq, beq_iff_eq] at h
  rw [← Bool.not_eq_true, isWordCharacter, Bool.or_eq_true, inRanges_iff, beq_iff_eq]
  have hranges : ∀ r ∈ letterOrNumberRanges,
      (0x30 ≤ r.first ∧ r.last ≤ 0x7a) ∨ (0xa1 ≤ r.first ∧ r.last ≤ 0x167f) ∨
        (0x1681 ≤ r.first ∧ r.last ≤ 0x1fff) ∨ (0x2030 ≤ r.first ∧ r.last ≤ 0x205e) ∨
        (0x2060 ≤ r.first ∧ r.last ≤ 0x2fff) ∨ 0x3001 ≤ r.first := by
    decide +kernel
  rintro (rfl | ⟨r, hr, hlow, hhigh⟩)
  · exact absurd h (by decide)
  · have hrange := hranges r hr
    omega

/-- Whether no number starts with a character. -/
def isOther (c : Char) : Bool := !isDigit c && c != '.' && c != '-'

theorem isOther_iff : isOther c = true ↔ isDigit c = false ∧ c ≠ '.' ∧ c ≠ '-' := by
  simp [isOther, and_assoc]

theorem isOther_of_isBlank (h : isBlank c = true) : isOther c = true := by
  rw [isOther_iff]
  refine ⟨?_, ?_, ?_⟩
  · rw [← Bool.not_eq_true]
    intro hdigit
    rw [isBlank_of_isDigit hdigit] at h
    cases h
  · rintro rfl
    exact absurd h (by decide)
  · rintro rfl
    exact absurd h (by decide)

/-! ## One number -/

theorem splitToken?_of_ne (h : ∀ c, cs.head? = some c → c ≠ '-') : splitToken? cs =
    (splitNumber? cs).map fun (number, rest) =>
      (number ++ rest.takeWhile isWordCharacter, rest.dropWhile isWordCharacter) := by
  unfold splitToken?
  split
  · exact absurd rfl (h _ rfl)
  · rfl

/-- A number starts with every digit. -/
theorem splitToken?_of_isDigit (h : isDigit c = true) (cs : List Char) :
    splitToken? (c :: cs) ≠ none := by
  have hne : ∀ d, (c :: cs).head? = some d → d ≠ '-' := by
    rintro _ ⟨⟩ rfl
    exact absurd h (by decide)
  rw [splitToken?_of_ne hne, Ne, Option.map_eq_none_iff]
  simp only [splitNumber?, List.takeWhile_cons_of_pos h, List.isEmpty_cons]
  split
  · split <;> simp
  · simp

theorem splitToken?_of_isOther (h : isOther c = true) (cs : List Char) :
    splitToken? (c :: cs) = none := by
  obtain ⟨hdigit, hpoint, hsign⟩ := isOther_iff.1 h
  have hnot : ¬ isDigit c = true := by simp [hdigit]
  have hne : ∀ d, (c :: cs).head? = some d → d ≠ '-' := by
    rintro _ ⟨⟩
    exact hsign
  rw [splitToken?_of_ne hne, Option.map_eq_none_iff]
  simp only [splitNumber?, List.takeWhile_cons_of_neg hnot, List.dropWhile_cons_of_neg hnot]
  split
  · next afterPoint heq => exact absurd (List.cons.inj heq).1 hpoint
  · rfl

/-- What is split off as a number stands for a value. -/
theorem exists_denotes_of_splitNumber? (h : splitNumber? cs = some (number, rest)) :
    ∃ r, Denotes number r := by
  have hwhole : ∀ c ∈ cs.takeWhile isDigit, isDigit c = true := fun c hc =>
    List.mem_takeWhile_imp hc
  have hbare : (if (cs.takeWhile isDigit).isEmpty then none
      else some (cs.takeWhile isDigit, cs.dropWhile isDigit)) = some (number, rest) →
      ∃ r, Denotes number r := by
    intro h
    split at h
    · cases h
    · next hne =>
      cases h
      refine ⟨_, ⟨none, cs.takeWhile isDigit, none, none⟩,
        Literal.isWellFormed_mk (by simpa using hne) hwhole (by simp), rfl, ?_, rfl⟩
      simp [Literal.text, Sign.text, Literal.fractionText, ExponentPart.text]
  simp only [splitNumber?] at h
  split at h
  · next afterPoint _ =>
    split at h
    · exact hbare h
    · next hne =>
      cases h
      refine ⟨_, ⟨none, cs.takeWhile isDigit, some (afterPoint.takeWhile isDigit), none⟩,
        ⟨hwhole, ?_, fun _ => ⟨_, rfl, by simpa using hne⟩, by simp, by simp, by simp⟩, rfl, ?_,
        rfl⟩
      · rintro _ ⟨⟩
        exact fun c hc => List.mem_takeWhile_imp hc
      · simp [Literal.text, Sign.text, Literal.fractionText, ExponentPart.text]
  · exact hbare h

/-- What is found starts with a literal. -/
theorem exists_isAt_of_splitToken? (h : splitToken? cs = some (token, rest)) :
    ∃ l : Literal, l.IsAt token := by
  unfold splitToken? at h
  split at h
  · obtain ⟨⟨number, tail⟩, hnumber, heq⟩ := Option.map_eq_some_iff.1 h
    cases heq
    obtain ⟨r, hr⟩ := exists_denotes_of_splitNumber? hnumber
    obtain ⟨l, hl, -, htext, -⟩ := hr.exists_minus
    exact ⟨l, hl, htext ▸ List.prefix_append _ _⟩
  · obtain ⟨⟨number, tail⟩, hnumber, heq⟩ := Option.map_eq_some_iff.1 h
    cases heq
    obtain ⟨r, l, hl, -, htext, -⟩ := exists_denotes_of_splitNumber? hnumber
    exact ⟨l, hl, htext ▸ List.prefix_append _ _⟩

theorem leadingNumber_ne_nan {l : Literal} (h : l.IsAt cs) : leadingNumber cs ≠ .nan := by
  rw [Ne, leadingNumber_eq_nan_iff]
  obtain ⟨hl, tail, rfl⟩ := h
  rw [Literal.trimStart_text_append hl]
  exact fun hnone => hnone l ⟨hl, List.prefix_append _ _⟩

/-! ## The scan -/

theorem numericTokens_of_some (h : splitToken? cs = some (token, rest)) :
    numericTokens cs = token :: numericTokens rest := by
  rw [numericTokens]
  split
  · next heq =>
    rw [h] at heq
    cases heq
    rfl
  · next heq =>
    rw [h] at heq
    cases heq

theorem numericTokens_of_none (h : splitToken? (c :: cs) = none) :
    numericTokens (c :: cs) = numericTokens cs := by
  rw [numericTokens]
  split
  · next heq =>
    rw [h] at heq
    cases heq
  · rfl

theorem numericTokens_nil : numericTokens [] = [] := by
  rw [numericTokens]
  rfl

/-- The scan passes over what no number starts with. -/
theorem numericTokens_append (h : ∀ c ∈ cs, isOther c = true) (rest : List Char) :
    numericTokens (cs ++ rest) = numericTokens rest := by
  induction cs with
  | nil => rfl
  | cons c cs ih =>
    obtain ⟨hc, hcs⟩ := List.forall_mem_cons.1 h
    rw [List.cons_append, numericTokens_of_none (splitToken?_of_isOther hc _), ih hcs]

/-- **What is found is read as a number.** -/
theorem leadingNumber_ne_nan_of_mem (h : token ∈ numericTokens cs) :
    leadingNumber token ≠ .nan := by
  induction cs using numericTokens.induct with
  | case1 cs found rest hsplit ih =>
    rw [numericTokens_of_some hsplit] at h
    rcases List.mem_cons.1 h with rfl | h
    · obtain ⟨l, hl⟩ := exists_isAt_of_splitToken? hsplit
      exact leadingNumber_ne_nan hl
    · exact ih h
  | case2 hsplit =>
    rw [numericTokens_nil] at h
    cases h
  | case3 c cs hsplit ih =>
    rw [numericTokens_of_none hsplit] at h
    exact ih h

/-- A stretch of a text, with the position where it starts. -/
structure Occurrence where
  start : ℕ
  chars : List Char

namespace Occurrence

/-- The position behind the stretch. -/
def stop (s : Occurrence) : ℕ := s.start + s.chars.length

/-- Whether the stretch stands at its position in a text. -/
def IsIn (s : Occurrence) (cs : List Char) : Prop := s.chars <+: cs.drop s.start

/-- Whether a position lies in the stretch. -/
def Covers (s : Occurrence) (i : ℕ) : Prop := s.start ≤ i ∧ i < s.stop

end Occurrence

/-- What a scan finds in a text that starts at a position: it takes a stretch from where it is, or it
passes over a character that is no digit. -/
inductive IsScan : ℕ → List Char → List Occurrence → Prop where
  | done (n : ℕ) : IsScan n [] []
  | skip {n : ℕ} {c : Char} {cs : List Char} {ss : List Occurrence} (hc : isDigit c = false)
      (hrest : IsScan (n + 1) cs ss) : IsScan n (c :: cs) ss
  | found {n : ℕ} (token : List Char) {rest : List Char} {ss : List Occurrence}
      (hrest : IsScan (n + token.length) rest ss) : IsScan n (token ++ rest) (⟨n, token⟩ :: ss)

/-- The numbers of a text are found by a scan. -/
theorem exists_isScan (n : ℕ) (cs : List Char) :
    ∃ ss, IsScan n cs ss ∧ ss.map Occurrence.chars = numericTokens cs := by
  induction cs using numericTokens.induct generalizing n with
  | case1 cs token rest hsplit ih =>
    obtain ⟨ss, hss, htokens⟩ := ih (n + token.length)
    refine ⟨⟨n, token⟩ :: ss, ?_, ?_⟩
    · rw [← (splitToken?_append cs token rest hsplit).1]
      exact .found token hss
    · rw [numericTokens_of_some hsplit, List.map_cons, htokens]
  | case2 hsplit => exact ⟨[], .done n, numericTokens_nil.symm⟩
  | case3 c cs hsplit ih =>
    obtain ⟨ss, hss, htokens⟩ := ih (n + 1)
    refine ⟨ss, .skip ?_ hss, ?_⟩
    · rw [← Bool.not_eq_true]
      exact fun hdigit => splitToken?_of_isDigit hdigit cs hsplit
    · rw [numericTokens_of_none hsplit, htokens]

/-- Whether stretches of a text lie in it one behind the other, with each digit in one of them. -/
structure AreFoundOnce (cs : List Char) (ss : List Occurrence) : Prop where
  isIn : ∀ s ∈ ss, s.IsIn cs
  ordered : ss.Pairwise fun s t => s.stop ≤ t.start
  digit : ∀ i c, cs[i]? = some c → isDigit c = true → ∃! s, s ∈ ss ∧ s.Covers i

namespace IsScan

variable {n : ℕ} {ss : List Occurrence}

theorem le_start (h : IsScan n cs ss) : ∀ s ∈ ss, n ≤ s.start := by
  induction h with
  | done n => simp
  | skip hc hrest ih => exact fun s hs => (Nat.le_succ _).trans (ih s hs)
  | found token hrest ih =>
    exact List.forall_mem_cons.2 ⟨le_rfl, fun s hs => (Nat.le_add_right _ _).trans (ih s hs)⟩

theorem ordered (h : IsScan n cs ss) : ss.Pairwise fun s t => s.stop ≤ t.start := by
  induction h with
  | done n => exact .nil
  | skip hc hrest ih => exact ih
  | found token hrest ih => exact .cons hrest.le_start ih

theorem isIn (h : IsScan n cs ss) (front : List Char) (hn : front.length = n) :
    ∀ s ∈ ss, s.IsIn (front ++ cs) := by
  induction h generalizing front with
  | done n => simp
  | @skip n c cs ss hc hrest ih =>
    have hskip := ih (front ++ [c]) (by simp [hn])
    rwa [List.append_assoc] at hskip
  | @found n token rest ss hrest ih =>
    have htail := ih (front ++ token) (by simp [hn])
    rw [List.append_assoc] at htail
    refine List.forall_mem_cons.2 ⟨?_, htail⟩
    rw [Occurrence.IsIn, ← hn, List.drop_left]
    exact List.prefix_append _ _

/-- Each digit is part of a stretch. -/
theorem exists_covers (h : IsScan n cs ss) {i : ℕ} (hi : cs[i]? = some c)
    (hdigit : isDigit c = true) : ∃ s ∈ ss, s.Covers (n + i) := by
  induction h generalizing i with
  | done n => simp at hi
  | @skip n d cs ss hd hrest ih =>
    cases i with
    | zero =>
      obtain rfl : d = c := Option.some.inj hi
      rw [hdigit] at hd
      cases hd
    | succ i =>
      obtain ⟨s, hs, hcovers⟩ := ih hi
      rw [Nat.add_right_comm] at hcovers
      exact ⟨s, hs, hcovers⟩
  | @found n token rest ss hrest ih =>
    rcases Nat.lt_or_ge i token.length with hlt | hge
    · exact ⟨_, List.mem_cons_self, Nat.le_add_right _ _, Nat.add_lt_add_left hlt n⟩
    · rw [List.getElem?_append_right hge] at hi
      obtain ⟨s, hs, hcovers⟩ := ih hi
      rw [Nat.add_assoc, Nat.add_sub_of_le hge] at hcovers
      exact ⟨s, List.mem_cons_of_mem _ hs, hcovers⟩

/-- **What a scan finds stands in the text one behind the other, and each digit is found once.** -/
theorem areFoundOnce (h : IsScan 0 cs ss) : AreFoundOnce cs ss where
  isIn := h.isIn [] rfl
  ordered := h.ordered
  digit i c hi hdigit := by
    obtain ⟨s, hs, hcovers⟩ := h.exists_covers hi hdigit
    rw [Nat.zero_add] at hcovers
    refine ⟨s, ⟨hs, hcovers⟩, fun t ⟨ht, hcovers'⟩ => ?_⟩
    -- of two stretches one behind the other, only one covers the position
    have hapart : ∀ {s t : Occurrence}, s.stop ≤ t.start → s.Covers i → ¬ t.Covers i :=
      fun hle hs ht => absurd (hs.2.trans_le (hle.trans ht.1)) (lt_irrefl i)
    have hsame : ss.Pairwise fun s t => s.Covers i → t.Covers i → s = t :=
      h.ordered.imp fun hle hs ht => absurd ht (hapart hle hs)
    have hflip : ss.Pairwise (flip fun s t => s.Covers i → t.Covers i → s = t) :=
      h.ordered.imp fun hle ht hs => absurd ht (hapart hle hs)
    exact hsame.forall_of_forall_of_flip (fun _ _ _ _ => rfl) hflip ht hs hcovers' hcovers

end IsScan

/-! ## Numbers between blanks -/

/-- A number with a unit, as it is written in the value of a declaration: without a plus sign or an
exponent, with a digit behind its point if it has one, and with letters of the ASCII range, or
nothing, as its unit. -/
structure Quantity where
  number : Literal
  unit : List Char
  isWellFormed : number.IsWellFormed
  sign_ne : number.sign ≠ some .plus
  fraction_ne : number.fraction ≠ some []
  exponent_eq : number.exponent = none
  isAlpha : unit.all Char.isAlpha = true

/-- A literal without a sign and an exponent is split off in front of a text that it does not go on
with. -/
theorem splitNumber?_append_of_isWellFormed {l : Literal} (h : l.IsWellFormed)
    (hfraction : l.fraction ≠ some [])
    (hrest : ∀ c, rest.head? = some c → isDigit c = false ∧ c ≠ '.') :
    splitNumber? (l.whole ++ Literal.fractionText l.fraction ++ rest) =
      some (l.whole ++ Literal.fractionText l.fraction, rest) := by
  cases hds : l.fraction with
  | none =>
    obtain ⟨htake, hdrop⟩ := Literal.span_isDigit h.whole fun c hc => (hrest c hc).1
    have hne : l.whole ≠ [] := by
      intro hnil
      obtain ⟨ds, hds', -⟩ := h.fraction_ne_nil hnil
      rw [hds] at hds'
      cases hds'
    rw [Literal.fractionText, List.append_nil]
    simp only [splitNumber?]
    rw [htake, hdrop]
    split
    · exact absurd rfl (hrest _ rfl).2
    · rw [if_neg (by simpa using hne)]
  | some ds =>
    have hpoint : ∀ c, ('.' :: (ds ++ rest)).head? = some c → isDigit c = false := by
      rintro _ ⟨⟩
      decide
    obtain ⟨htake, hdrop⟩ := Literal.span_isDigit h.whole hpoint
    obtain ⟨htake', hdrop'⟩ := Literal.span_isDigit (h.fraction ds hds) fun c hc => (hrest c hc).1
    have hne : ds ≠ [] := by
      rintro rfl
      exact hfraction hds
    rw [Literal.fractionText, List.append_assoc, List.cons_append]
    simp only [splitNumber?]
    rw [htake, hdrop]
    simp only [htake', hdrop']
    rw [if_neg (by simpa using hne)]

namespace Quantity

/-- A number with a unit, written out. -/
def text (q : Quantity) : List Char := q.number.text ++ q.unit

/-- The number is split off with its unit. -/
theorem splitToken?_text_append (q : Quantity)
    (hrest : ∀ c, rest.head? = some c → isBlank c = true) :
    splitToken? (q.text ++ rest) = some (q.text, rest) := by
  have hunit : ∀ c, (q.unit ++ rest).head? = some c → isDigit c = false ∧ c ≠ '.' := by
    intro c hc
    cases hu : q.unit with
    | nil =>
      rw [hu] at hc
      have hother := isOther_iff.1 (isOther_of_isBlank (hrest c hc))
      exact ⟨hother.1, hother.2.1⟩
    | cons d ds =>
      rw [hu] at hc
      obtain rfl : d = c := Option.some.inj hc
      have halpha := List.all_eq_true.1 q.isAlpha d (by rw [hu]; exact List.mem_cons_self)
      refine ⟨isDigit_of_isAlpha halpha, ?_⟩
      rintro rfl
      exact absurd halpha (by decide)
  have hword : (q.unit ++ rest).takeWhile isWordCharacter = q.unit ∧
      (q.unit ++ rest).dropWhile isWordCharacter = rest := by
    have hletters : ∀ c ∈ q.unit, isWordCharacter c = true := by
      intro c hc
      refine isWordCharacter_of_isAlphanum c ?_
      rw [Char.isAlphanum, List.all_eq_true.1 q.isAlpha c hc, Bool.true_or]
    rw [List.takeWhile_append_of_pos hletters, List.dropWhile_append_of_pos hletters]
    cases rest with
    | nil => simp
    | cons c rest => simp [isWordCharacter_of_isBlank (hrest c rfl)]
  have hnumber := splitNumber?_append_of_isWellFormed q.isWellFormed q.fraction_ne hunit
  have htext : q.text ++ rest = Sign.text q.number.sign ++
      (q.number.whole ++ Literal.fractionText q.number.fraction ++ (q.unit ++ rest)) := by
    rw [text, Literal.text, q.exponent_eq]
    simp [ExponentPart.text]
  have htoken : q.text = Sign.text q.number.sign ++
      (q.number.whole ++ Literal.fractionText q.number.fraction ++ q.unit) := by
    rw [text, Literal.text, q.exponent_eq]
    simp [ExponentPart.text]
  rw [htext, htoken]
  cases hsign : q.number.sign with
  | some s =>
    cases s with
    | plus => exact absurd hsign q.sign_ne
    | minus =>
      change splitToken? ('-' :: (_ ++ (q.unit ++ rest))) = _
      simp only [splitToken?]
      rw [hnumber, Option.map_some, hword.1, hword.2]
      rfl
  | none =>
    have hhead : ∀ c, (q.number.whole ++ Literal.fractionText q.number.fraction ++
        (q.unit ++ rest)).head? = some c → c ≠ '-' := by
      intro c hc
      rw [List.append_assoc] at hc
      rintro rfl
      exact absurd (q.isWellFormed.head?_unsigned hc) (by decide)
    change splitToken? (_ ++ (q.unit ++ rest)) = _
    rw [splitToken?_of_ne hhead, hnumber, Option.map_some]
    dsimp only
    rw [hword.1, hword.2]
    rfl

end Quantity

/-- A number with a unit behind at least one blank. -/
structure Spaced where
  blanks : List Char
  quantity : Quantity
  blanks_ne : blanks ≠ []
  isBlank : blanks.all isBlank = true

namespace Spaced

variable {ss : List Spaced}

/-- A number with a unit, written out behind its blanks. -/
def text (s : Spaced) : List Char := s.blanks ++ s.quantity.text

theorem isBlank_of_head?_flatMap (h : (ss.flatMap text).head? = some c) :
    Text.isBlank c = true := by
  cases ss with
  | nil => cases h
  | cons s ss =>
    rw [List.flatMap_cons, text, List.append_assoc, List.head?_append_of_ne_nil _ s.blanks_ne] at h
    exact List.all_eq_true.1 s.isBlank c (List.mem_of_mem_head? h)

/-- Numbers with blanks between them are found one by one. -/
theorem numericTokens_flatMap (ss : List Spaced) :
    numericTokens (ss.flatMap text) = ss.map fun s => s.quantity.text := by
  induction ss with
  | nil => exact numericTokens_nil
  | cons s ss ih =>
    have hblanks : ∀ c ∈ s.blanks, isOther c = true := fun c hc =>
      isOther_of_isBlank (List.all_eq_true.1 s.isBlank c hc)
    have hquantity : splitToken? (s.quantity.text ++ ss.flatMap text) =
        some (s.quantity.text, ss.flatMap text) :=
      s.quantity.splitToken?_text_append fun c => isBlank_of_head?_flatMap
    rw [List.flatMap_cons, text, List.append_assoc, numericTokens_append hblanks,
      numericTokens_of_some hquantity, ih, List.map_cons]

/-- **Behind the word `fluid`, numbers are found as they are written.** -/
theorem numericTokens_fluid_append (ss : List Spaced) :
    numericTokens ("fluid".toList ++ ss.flatMap text) = ss.map fun s => s.quantity.text := by
  have hword : "fluid".toList.all isOther = true := by decide
  rw [numericTokens_append (List.all_eq_true.1 hword), numericTokens_flatMap]

end Spaced

end FluidCss.Number
