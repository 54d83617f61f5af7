import FluidCss.Proofs.Grammar.Layout
import FluidCss.Proofs.Grammar.Reading

set_option autoImplicit false

/-! # Cutting tokens in front of another text

A token is split off with regard to what stands behind it: a selector needs a brace, a `url(` is
closed somewhere further on, a string may be left open. `Terminal.Ends` says for each kind in front
of which texts a token of it ends, and `split?_exchange` that a token that ends in front of one text
is the same in front of another one, unless that has a closing parenthesis which the first one does
not have.

The text behind a token is then exchanged from some place on only. What takes the place of the rest
is made of characters that can close whatever is open but open nothing (`isClosing`), so kinds that
were tried in vain are tried in vain again (`first?_exchange`). -/

namespace FluidCss

open Text

namespace Terminal

/-! ## Where a token ends -/

/-- Whether a token of the kind ends in front of a text. -/
def Ends : Terminal → List Char → Prop
  | selector, cs => cs.head? = some '\x7b'
  | value, cs => piece? cs = none
  | property, cs => ∀ c ∈ cs.head?, isNamePart c = false
  | atKeyword, cs => ∀ c ∈ cs.head?, isKeywordPart c = false
  | atParams, cs => ∀ c ∈ cs.head?, isPlain c = false
  | blank, cs => ∀ c ∈ cs.head?, isGap c = false
  | _, _ => True

theorem not_of_mem_head?_dropWhile {p : Char → Bool} {cs : List Char} :
    ∀ c ∈ (cs.dropWhile p).head?, p c = false := by
  intro c hc
  have hnot := List.head?_dropWhile_not p cs
  rw [Option.mem_def.1 hc] at hnot
  exact hnot

theorem not_of_headed? {head tail : Char → Bool} {cs lexeme rest : List Char}
    (h : headed? head tail cs = some (lexeme, rest)) : ∀ c ∈ rest.head?, tail c = false := by
  unfold headed? at h
  split at h
  · exact absurd h (by simp)
  · split at h
    · obtain ⟨-, rfl⟩ := Prod.mk.inj (Option.some.inj h)
      exact not_of_mem_head?_dropWhile
    · exact absurd h (by simp)

/-- A token ends in front of what is left. -/
theorem ends_of_split? {t : Terminal} {cs lexeme rest : List Char}
    (h : t.split? cs = some (lexeme, rest)) : t.Ends rest := by
  cases t with
  | selector =>
    change splitSelector? cs = _ at h
    unfold splitSelector? at h
    split at h
    · obtain ⟨-, rfl⟩ := Prod.mk.inj (Option.some.inj h)
      rfl
    · exact absurd h (by simp)
  | value =>
    change splitValue? cs = _ at h
    unfold splitValue? at h
    split at h
    · exact absurd h (by simp)
    · split at h
      · exact absurd h (by simp)
      · obtain ⟨⟨first, others⟩, -, heq⟩ := Option.map_eq_some_iff.1 h
        obtain ⟨-, rfl⟩ := Prod.mk.inj heq
        exact piece?_pieces others
  | property =>
    change splitProperty? cs = _ at h
    unfold splitProperty? at h
    split at h
    · obtain ⟨⟨l, r⟩, hl, heq⟩ := Option.map_eq_some_iff.1 h
      obtain ⟨-, rfl⟩ := Prod.mk.inj heq
      exact not_of_headed? hl
    · obtain ⟨⟨l, r⟩, hl, heq⟩ := Option.map_eq_some_iff.1 h
      obtain ⟨-, rfl⟩ := Prod.mk.inj heq
      exact not_of_headed? hl
    · exact not_of_headed? h
  | atKeyword =>
    change splitKeyword? cs = _ at h
    unfold splitKeyword? at h
    split at h
    · obtain ⟨⟨l, r⟩, hl, heq⟩ := Option.map_eq_some_iff.1 h
      obtain ⟨-, rfl⟩ := Prod.mk.inj heq
      exact not_of_headed? hl
    · exact absurd h (by simp)
  | atParams => exact not_of_headed? h
  | blank =>
    change run? isGap cs = _ at h
    unfold run? at h
    dsimp only at h
    split at h
    · exact absurd h (by simp)
    · obtain ⟨-, rfl⟩ := Prod.mk.inj (Option.some.inj h)
      exact not_of_mem_head?_dropWhile
  | comment | colon | openBrace | closeBrace | semicolon => trivial

/-! ## The same token in front of another text -/

theorem headed?_exchange {head tail : Char → Bool} {cs lexeme rest rest' : List Char}
    (h : headed? head tail cs = some (lexeme, rest)) (hrest : ∀ c ∈ rest'.head?, tail c = false) :
    headed? head tail (lexeme ++ rest') = some (lexeme, rest') := by
  have hlexeme := headed?_lexeme h
  cases rest' with
  | nil => rw [List.append_nil, hlexeme]
  | cons d rest' =>
    obtain ⟨c, l, rfl, hc, hl⟩ := all_of_headed? hlexeme
    exact headed?_append_of_all hc hl (hrest d rfl) rest'

theorem splitProperty?_exchange {cs lexeme rest rest' : List Char}
    (h : splitProperty? cs = some (lexeme, rest))
    (hrest : ∀ c ∈ rest'.head?, isNamePart c = false) :
    splitProperty? (lexeme ++ rest') = some (lexeme, rest') := by
  have htext := isPropertyText_of_split? h
  cases rest' with
  | nil =>
    rw [List.append_nil]
    exact beq_iff_eq.1 htext
  | cons d rest' => exact splitProperty?_append_of_isPropertyText htext (hrest d rfl) rest'

theorem splitKeyword?_exchange {cs lexeme rest rest' : List Char}
    (h : splitKeyword? cs = some (lexeme, rest))
    (hrest : ∀ c ∈ rest'.head?, isKeywordPart c = false) :
    splitKeyword? (lexeme ++ rest') = some (lexeme, rest') := by
  obtain ⟨hlexeme, htext⟩ := isKeywordText_of_split? h
  rw [hlexeme]
  cases rest' with
  | nil =>
    rw [List.append_nil]
    exact beq_iff_eq.1 htext
  | cons d rest' => exact splitKeyword?_append_of_isKeywordText htext (hrest d rfl) rest'

theorem splitSelector?_exchange {cs lexeme rest rest' : List Char}
    (h : splitSelector? cs = some (lexeme, rest)) (hrest : rest'.head? = some '\x7b') :
    splitSelector? (lexeme ++ rest') = some (lexeme, rest') := by
  unfold splitSelector? at h
  split at h
  · next hs =>
    obtain ⟨rfl, -⟩ := Prod.mk.inj (Option.some.inj h)
    obtain ⟨rest', rfl⟩ := List.head?_eq_some_iff.1 hrest
    have hcut := @headed?_exchange _ _ _ _ _ ('\x7b' :: rest') hs (by simp [isPlain, isDelimiter])
    rw [splitSelector?, hcut]
    rfl
  · exact absurd h (by simp)

theorem commentRest?_exchange {cs lexeme rest : List Char}
    (h : commentRest? cs = some (lexeme, rest)) (rest' : List Char) :
    commentRest? (lexeme ++ rest') = some (lexeme, rest') := by
  fun_induction commentRest? cs generalizing lexeme rest with
  | case1 cs =>
    obtain ⟨rfl, -⟩ := Prod.mk.inj (Option.some.inj h)
    rfl
  | case2 => exact absurd h (by simp)
  | case3 c cs hne ih =>
    obtain ⟨⟨l, r⟩, hl, heq⟩ := Option.map_eq_some_iff.1 h
    obtain ⟨rfl, rfl⟩ := Prod.mk.inj heq
    -- the mark that closes the comment starts as little here as it did before
    have hnot : ∀ x, c = '*' → l ++ rest' = '/' :: x → False := by
      intro x hc hx
      obtain ⟨y, rfl, -⟩ := exists_append_of_commentRest? hl
      have happend := commentRest?_append _ _ _ hl
      rcases y with _ | ⟨d, y⟩
      · exact absurd hx (by simp)
      · obtain ⟨rfl, -⟩ := List.cons.inj hx
        exact hne _ hc happend.symm
    rw [List.cons_append, commentRest?, ih hl]
    · rfl
    · exact hnot

theorem splitComment?_exchange {cs lexeme rest : List Char}
    (h : splitComment? cs = some (lexeme, rest)) (rest' : List Char) :
    splitComment? (lexeme ++ rest') = some (lexeme, rest') := by
  unfold splitComment? at h
  split at h
  · obtain ⟨⟨l, r⟩, hl, heq⟩ := Option.map_eq_some_iff.1 h
    obtain ⟨rfl, -⟩ := Prod.mk.inj heq
    rw [List.cons_append, List.cons_append, splitComment?, commentRest?_exchange hl]
    rfl
  · exact absurd h (by simp)

theorem mark?_exchange {mark : Char} {cs lexeme rest : List Char}
    (h : mark? mark cs = some (lexeme, rest)) (rest' : List Char) :
    mark? mark (lexeme ++ rest') = some (lexeme, rest') := by
  rw [eq_of_mark? h]
  simp [mark?]

theorem run?_exchange {p : Char → Bool} {cs lexeme rest rest' : List Char}
    (h : run? p cs = some (lexeme, rest)) (hrest : ∀ c ∈ rest'.head?, p c = false) :
    run? p (lexeme ++ rest') = some (lexeme, rest') := by
  have hne := (run?_append _ _ _ _ h).2
  unfold run? at h
  dsimp only at h
  split at h
  · exact absurd h (by simp)
  · obtain ⟨rfl, -⟩ := Prod.mk.inj (Option.some.inj h)
    have hall : (cs.takeWhile p).all p = true :=
      List.all_eq_true.2 fun c hc => List.mem_takeWhile_imp hc
    cases rest' with
    | nil =>
      rw [List.append_nil, run?, List.takeWhile_eq_self_iff.2 (List.all_eq_true.1 hall),
        List.dropWhile_eq_nil_iff.2 (List.all_eq_true.1 hall)]
      simp [hne]
    | cons d rest' =>
      rw [run?, takeWhile_append_of_all hall (hrest d rfl),
        dropWhile_append_of_all hall (hrest d rfl)]
      simp [hne]

/-! ## Values -/

/-- What ends a value does not go on with what may become a `url(`. -/
theorem not_continuesUrl_of_piece? {cs : List Char} (h : piece? cs = none) :
    ∀ c ∈ cs.head?, continuesUrl c = false := by
  intro c hc
  obtain ⟨cs, rfl⟩ := List.head?_eq_some_iff.1 hc
  have hends := endsValue_of_piece? h
  simp only [endsValue, isDelimiter, Bool.or_eq_true, beq_iff_eq] at hends
  rcases hends with ((rfl | rfl) | rfl) | rfl | rfl <;> rfl

/-- A `url(` that is not closed in front of one text is not closed in front of another one. -/
theorem url?_eq_none_exchange {c : Char} {v rest rest' : List Char}
    (h : url? (c :: (v ++ rest)) = none) (hhead : ∀ d ∈ rest'.head?, continuesUrl d = false)
    (hrest : ')' ∈ rest' → ')' ∈ rest) : url? (c :: (v ++ rest')) = none := by
  cases rest' with
  | cons d rest' => exact url?_eq_none_transfer [] h (hhead d rfl) hrest
  | nil =>
    cases hcut : url? (c :: (v ++ [])) with
    | none => rfl
    | some cut =>
      -- it would have been closed before the end
      obtain ⟨x, y⟩ := cut
      obtain ⟨-, -, -, -, hexchange⟩ := url?_cases hcut
      have happend := (url?_append _ _ _ hcut).1
      have hcons : c :: (v ++ rest) = x ++ (y ++ rest) := by
        rw [← List.append_assoc, happend, List.append_nil, List.cons_append]
      rw [hcons, hexchange] at h
      exact absurd h (by simp)

theorem Pieced.exchange {l rest rest' : List Char} (h : Pieced rest l) (hnone : piece? rest' = none)
    (hrest : ')' ∈ rest' → ')' ∈ rest) : Pieced rest' l := by
  induction h with
  | nil => exact .nil hnone
  | @cons x l hx _ ih =>
    refine .cons ?_ ih
    rcases piece?_cases hx with ⟨_, _, _, _, hexchange⟩ | ⟨c, rfl, hquote, hquote', hc, hurl⟩
    · exact hexchange _
    · have hurl' := url?_eq_none_exchange hurl (not_continuesUrl_of_piece? hnone) hrest
      simp [piece?, hquote, hquote', hc, hurl']

theorem splitValue?_exchange {lexeme rest rest' : List Char}
    (h : splitValue? (lexeme ++ rest) = some (lexeme, rest)) (hnone : piece? rest' = none)
    (hrest : ')' ∈ rest' → ')' ∈ rest) :
    splitValue? (lexeme ++ rest') = some (lexeme, rest') := by
  obtain ⟨hhead, hpieced⟩ := splitValue?_eq_some_iff.1 h
  exact splitValue?_eq_some_iff.2 ⟨hhead, hpieced.exchange hnone hrest⟩

/-- **A token stays the same in front of another text** in front of which it ends, and which has no
closing parenthesis that was not there before. -/
theorem split?_exchange {t : Terminal} {lexeme rest rest' : List Char}
    (h : t.split? (lexeme ++ rest) = some (lexeme, rest)) (hends : t.Ends rest')
    (hrest : ')' ∈ rest' → ')' ∈ rest) : t.split? (lexeme ++ rest') = some (lexeme, rest') := by
  cases t with
  | selector => exact splitSelector?_exchange h hends
  | value => exact splitValue?_exchange h hends hrest
  | property => exact splitProperty?_exchange h hends
  | atKeyword => exact splitKeyword?_exchange h hends
  | comment => exact splitComment?_exchange h rest'
  | atParams => exact headed?_exchange h hends
  | blank => exact run?_exchange h hends
  | colon | openBrace | closeBrace | semicolon => exact mark?_exchange h rest'

/-! ## Closing texts -/

/-- Whether a character can close something that is open, or go on with it, but open nothing. -/
def isClosing (c : Char) : Bool := c == ':' || c == 'a' || c == ';' || c == '\x7d'

theorem not_mem_of_isClosing {w : List Char} {c : Char} (hw : ∀ x ∈ w, isClosing x = true)
    (hc : isClosing c = false) : c ∉ w := fun hmem => absurd (hw c hmem) (by simp [hc])

section Rest

variable {a b w : List Char}

theorem head?_append_of_ne_nil (ha : a ≠ []) : (a ++ w).head? = (a ++ b).head? := by
  cases a with
  | nil => exact absurd rfl ha
  | cons c a => rfl

/-- A string that is left open is left open when the text behind some place is exchanged for one
without its quote. -/
theorem stringRest?_eq_none_exchange {quote : Char} (h : stringRest? quote (a ++ b) = none)
    (hw : quote ∉ w) : stringRest? quote (a ++ w) = none := by
  cases hcut : stringRest? quote (a ++ w) with
  | none => rfl
  | some cut =>
    obtain ⟨x, y⟩ := cut
    have happend := stringRest?_append _ _ _ _ hcut
    obtain ⟨l, rfl⟩ := exists_append_of_stringRest? hcut
    -- the closing quote stands in front of that place
    rcases List.append_eq_append_iff.1 happend with ⟨z, rfl, -⟩ | ⟨z, hl, rfl⟩
    · rw [List.append_assoc, stringRest?_transfer hcut] at h
      exact absurd h (by simp)
    · rcases List.eq_nil_or_concat z with rfl | ⟨z, d, rfl⟩
      · rw [List.append_nil] at hl
        rw [← hl, stringRest?_transfer hcut] at h
        exact absurd h (by simp)
      · have hlast : quote = d := by simpa using congrArg List.getLast? hl
        exact absurd (by simp [hlast]) hw

theorem piece?_eq_none_exchange (h : piece? (a ++ b) = none) (ha : a ≠ [])
    (hw : ∀ x ∈ w, isClosing x = true) : piece? (a ++ w) = none := by
  obtain ⟨c, a, rfl⟩ := List.exists_cons_of_ne_nil ha
  rcases endsValue_of_piece? h with hdelimiter | hquote
  · have hurl : url? (c :: (a ++ w)) = none := by
      refine url?_eq_none_iff.2 fun u r l cs heq hletters => ?_
      obtain ⟨rfl, -⟩ := List.cons.inj heq
      rcases hletters.1 with rfl | rfl <;> exact absurd hdelimiter (by decide)
    have hquotes : ¬ (c = '\x22' ∨ c = '\x27') := by
      rintro (rfl | rfl) <;> exact absurd hdelimiter (by decide)
    rw [List.cons_append, piece?, if_neg hquotes, hurl]
    simp [hdelimiter]
  · rw [List.cons_append, piece?, if_pos hquote, Option.map_eq_none_iff] at h ⊢
    refine stringRest?_eq_none_exchange h (not_mem_of_isClosing hw ?_)
    rcases hquote with rfl | rfl <;> rfl

/-- A token that ends in front of a text ends there too when the text goes on otherwise. -/
theorem Ends.exchange {t : Terminal} (h : t.Ends (a ++ b)) (ha : a ≠ [])
    (hw : ∀ x ∈ w, isClosing x = true) : t.Ends (a ++ w) := by
  have hhead := head?_append_of_ne_nil (b := w) (w := b) ha
  cases t with
  | value => exact piece?_eq_none_exchange h ha hw
  | selector => exact hhead.symm.trans h
  | property | atKeyword | atParams | blank =>
    intro c hc
    exact h c (hhead ▸ hc)
  | comment | colon | openBrace | closeBrace | semicolon => trivial

/-! ## Kinds that are tried in vain -/

/-- Where a selector may start, there is one exactly if the first delimiter is an opening brace. -/
theorem splitSelector?_cons_eq_none_iff {c : Char} {cs : List Char}
    (hc : (!isBlank c && isPlain c && c != '@' && c != '/') = true) :
    splitSelector? (c :: cs) = none ↔ (c :: cs).find? isDelimiter ≠ some '\x7b' := by
  have hplain : isDelimiter c = false := by
    simp only [Bool.and_eq_true] at hc
    simpa [isPlain] using hc.1.1.2
  have hfind : (c :: cs).find? isDelimiter = (cs.dropWhile isPlain).head? := by
    rw [List.find?_cons_of_neg (by simp [hplain]), List.find?_eq_head?_dropWhile_not]
    rfl
  rw [splitSelector?, headed?, if_pos hc, hfind]
  cases cs.dropWhile isPlain with
  | nil => simp
  | cons d rest =>
    by_cases hd : d = '\x7b'
    · simp [hd]
    · simp [hd]

theorem splitSelector?_eq_none_exchange (h : splitSelector? (a ++ b) = none) (ha : a ≠ [])
    (hw : '\x7b' ∉ w) : splitSelector? (a ++ w) = none := by
  obtain ⟨c, a, rfl⟩ := List.exists_cons_of_ne_nil ha
  by_cases hc : (!isBlank c && isPlain c && c != '@' && c != '/') = true
  case neg => rw [List.cons_append, splitSelector?, headed?, if_neg hc]
  rw [List.cons_append, splitSelector?_cons_eq_none_iff hc, ← List.cons_append,
    List.find?_append] at h ⊢
  cases hfirst : (c :: a).find? isDelimiter with
  | some d => simpa [hfirst] using h
  | none =>
    rw [Option.none_or]
    exact fun hbrace => hw (List.mem_of_find?_eq_some hbrace)

theorem splitComment?_eq_none_exchange (h : splitComment? (a ++ b) = none) (ha : a ≠ [])
    (hw : ∀ x ∈ w, isClosing x = true) : splitComment? (a ++ w) = none := by
  refine splitComment?_eq_none_iff.2 fun x heq hmark => ?_
  have hstar : '*' ∉ w := not_mem_of_isClosing hw rfl
  have hslash : '/' ∉ w := not_mem_of_isClosing hw rfl
  rcases a with _ | ⟨c, _ | ⟨c', a⟩⟩
  · exact ha rfl
  · obtain ⟨-, rfl⟩ := List.cons.inj heq
    exact hstar List.mem_cons_self
  · obtain ⟨rfl, rfl, rfl⟩ : c = '/' ∧ c' = '*' ∧ a ++ w = x := by simpa using heq
    -- the mark that closes the comment would have stood in front already
    refine splitComment?_eq_none_iff.1 h (a ++ b) rfl ?_
    rcases List.infix_append_iff.1 hmark with hin | hin | ⟨l, l', hl, hin', hin⟩
    · exact hin.trans (List.prefix_append a b).isInfix
    · exact absurd (hin.subset (by simp)) hstar
    · rcases l with _ | ⟨d, _ | ⟨d', l⟩⟩
      · obtain rfl : ['*', '/'] = l' := by simpa using hl
        exact absurd (hin.subset (by simp)) hstar
      · obtain ⟨-, rfl⟩ : '*' = d ∧ ['/'] = l' := by simpa using hl
        exact absurd (hin.subset (by simp)) hslash
      · obtain ⟨rfl, rfl, hnil⟩ : '*' = d ∧ '/' = d' ∧ [] = l ++ l' := by simpa using hl
        obtain ⟨rfl, -⟩ := List.append_eq_nil_iff.1 hnil.symm
        exact hin'.isInfix.trans (List.prefix_append a b).isInfix

theorem splitValue?_eq_none_exchange (h : splitValue? (a ++ b) = none) (ha : a ≠ [])
    (hw : ∀ x ∈ w, isClosing x = true) : splitValue? (a ++ w) = none := by
  obtain ⟨c, a', rfl⟩ := List.exists_cons_of_ne_nil ha
  rw [List.cons_append, splitValue?] at h ⊢
  by_cases hc : isBlank c = true
  · rw [if_pos hc]
  · rw [if_neg hc, Option.map_eq_none_iff] at h ⊢
    exact piece?_eq_none_exchange h ha hw

end Rest

/-- Two kinds that are tried at one place, the first one before the second, start with different
characters, unless the first one is a selector, a value or a comment. -/
theorem split?_eq_none_of_tried {p : Pending} {k t : Terminal}
    (h : [k, t].Sublist (triedWith p.terminals)) (hk : k ≠ selector ∧ k ≠ value ∧ k ≠ comment)
    {c : Char} (hc : t.starts c) (cs : List Char) : k.split? (c :: cs) = none := by
  have htable : ∀ ts ∈ [[selector, atKeyword], [property, semicolon, closeBrace],
      [selector, property, atKeyword, semicolon, closeBrace], [openBrace], [colon], [value],
      [atParams, openBrace, semicolon], [openBrace, semicolon]],
      ∀ k ∈ all, ∀ t ∈ all, [k, t].Sublist (triedWith ts) →
        k = selector ∨ k = value ∨ k = comment ∨ (t = blank ∧ k ≠ blank) ∨
        (k, t) ∈ [(property, atKeyword), (property, comment), (property, closeBrace),
          (property, semicolon), (atKeyword, comment), (atKeyword, closeBrace),
          (atKeyword, semicolon), (atParams, openBrace), (atParams, semicolon), (blank, colon),
          (blank, openBrace), (blank, closeBrace), (blank, semicolon), (openBrace, semicolon),
          (closeBrace, semicolon)] := by
    decide +kernel
  have hpair := htable p.terminals (by cases p <;> simp [Pending.terminals]) k
    (by cases k <;> decide) t (by cases t <;> decide) h
  rcases hpair with hk' | hk' | hk' | ⟨rfl, hne⟩ | hmem
  · exact absurd hk' hk.1
  · exact absurd hk' hk.2.1
  · exact absurd hk' hk.2.2
  · exact split?_eq_none_of_isGap hne hc cs
  · simp only [List.mem_cons, Prod.mk.injEq, List.not_mem_nil, or_false] at hmem
    -- each of the second kinds has one character to start with
    rcases hmem with ⟨rfl, rfl⟩ | ⟨rfl, rfl⟩ | ⟨rfl, rfl⟩ | ⟨rfl, rfl⟩ | ⟨rfl, rfl⟩ | ⟨rfl, rfl⟩ |
      ⟨rfl, rfl⟩ | ⟨rfl, rfl⟩ | ⟨rfl, rfl⟩ | ⟨rfl, rfl⟩ | ⟨rfl, rfl⟩ | ⟨rfl, rfl⟩ | ⟨rfl, rfl⟩ |
      ⟨rfl, rfl⟩ | ⟨rfl, rfl⟩ <;>
    · obtain rfl := hc
      rfl

theorem exists_of_first? {ts : List Terminal} {cs lexeme rest : List Char} {t : Terminal}
    (h : first? ts cs = some (t, lexeme, rest)) :
    ∃ us vs, ts = us ++ t :: vs ∧ ∀ k ∈ us, k.split? cs = none := by
  induction ts with
  | nil => exact absurd h (by simp [first?])
  | cons k ts ih =>
    cases hk : k.split? cs with
    | some cut =>
      rw [first?, hk] at h
      obtain ⟨rfl, -⟩ := Prod.mk.inj (Option.some.inj h)
      exact ⟨[], ts, rfl, by simp⟩
    | none =>
      rw [first?_cons_of_none ts hk] at h
      obtain ⟨us, vs, rfl, hus⟩ := ih h
      exact ⟨k :: us, vs, rfl, List.forall_mem_cons.2 ⟨hk, hus⟩⟩

theorem first?_append_of_none {us vs : List Terminal} {cs : List Char}
    (h : ∀ k ∈ us, k.split? cs = none) : first? (us ++ vs) cs = first? vs cs := by
  induction us with
  | nil => rfl
  | cons k us ih =>
    rw [List.forall_mem_cons] at h
    rw [List.cons_append, first?_cons_of_none _ h.1, ih h.2]

/-- **The same token is found when the text behind some place is exchanged** for a closing text,
if the token ends in front of that where the place is right behind it. -/
theorem first?_exchange {p : Pending} {t : Terminal} {lexeme a b w : List Char}
    (h : first? (triedWith p.terminals) (lexeme ++ (a ++ b)) = some (t, lexeme, a ++ b))
    (hw : ∀ x ∈ w, isClosing x = true) (hends : a = [] → t.Ends w) :
    first? (triedWith p.terminals) (lexeme ++ (a ++ w)) = some (t, lexeme, a ++ w) := by
  obtain ⟨hmem, hsplit⟩ := first?_split? _ _ _ _ _ h
  obtain ⟨us, vs, hts, hus⟩ := exists_of_first? h
  have hne := (split?_append _ _ _ _ hsplit).2
  have hends' : t.Ends (a ++ w) := by
    by_cases ha : a = []
    · rw [ha]
      exact hends ha
    · exact (ends_of_split? hsplit).exchange ha hw
  have hclosed : ')' ∈ a ++ w → ')' ∈ a ++ b := by
    intro hin
    rcases List.mem_append.1 hin with hin | hin
    · exact List.mem_append_left _ hin
    · exact absurd hin (not_mem_of_isClosing hw rfl)
  rw [hts, first?_append_of_none ?_, first?_cons (split?_exchange hsplit hends' hclosed)]
  intro k hk
  have hnone := hus k hk
  rw [← List.append_assoc] at hnone ⊢
  have hfront : lexeme ++ a ≠ [] := by simp [hne]
  by_cases hkind : k ≠ selector ∧ k ≠ value ∧ k ≠ comment
  · obtain ⟨c, cs, hcs, hc⟩ := starts_of_split? hsplit
    obtain ⟨c', l, rfl⟩ := List.exists_cons_of_ne_nil hne
    obtain ⟨rfl, -⟩ := List.cons.inj hcs
    have htried : [k, t].Sublist (triedWith p.terminals) := by
      rw [hts]
      exact (List.singleton_sublist.2 hk).append (List.singleton_sublist.2 List.mem_cons_self)
    exact split?_eq_none_of_tried htried hkind hc _
  · simp only [not_and_or, not_not] at hkind
    rcases hkind with rfl | rfl | rfl
    · exact splitSelector?_eq_none_exchange hnone hfront (not_mem_of_isClosing hw rfl)
    · exact splitValue?_eq_none_exchange hnone hfront hw
    · exact splitComment?_eq_none_exchange hnone hfront hw

end Terminal

end FluidCss
