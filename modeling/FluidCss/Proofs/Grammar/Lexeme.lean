import FluidCss.Grammar.Readable
import FluidCss.Proofs.Grammar.RoundTrip

set_option autoImplicit false

/-! # What is cut off a text

Which texts the tokens of each kind have, trimmed as they are kept in the tree. A property name, the
keyword of an at-rule and a selector can be cut off in front of any text that cannot go on with
them. A value is another matter: whether `url(` takes what follows it depends on whether it is
closed somewhere in the rest of the text, so a value goes over to another text only if that has no
closing parenthesis that was not there before. -/

namespace FluidCss

open Text

/-! ## Trimming -/

theorem exists_blanks_trimEnd (cs : List Char) :
    ∃ bs, (∀ b ∈ bs, isBlank b = true) ∧ cs = trimEnd cs ++ bs := by
  induction cs with
  | nil => exact ⟨[], by simp, rfl⟩
  | cons c cs ih =>
    obtain ⟨bs, hbs, hcs⟩ := ih
    rw [trimEnd]
    split
    · next hend =>
      rw [hend, List.nil_append] at hcs
      obtain rfl := hcs
      by_cases hc : isBlank c = true
      · exact ⟨c :: cs, by simpa [hc] using hbs, by simp [hc]⟩
      · exact ⟨cs, hbs, by simp [hc]⟩
    · exact ⟨bs, hbs, by rw [List.cons_append, ← hcs]⟩

theorem trimEnd_trimEnd (cs : List Char) : trimEnd (trimEnd cs) = trimEnd cs := by
  obtain ⟨bs, hbs, hcs⟩ := exists_blanks_trimEnd cs
  calc trimEnd (trimEnd cs) = trimEnd (trimEnd cs ++ bs) := (trimEnd_append_blank _ _ hbs).symm
    _ = trimEnd cs := by rw [← hcs]

theorem trimEnd_cons {c : Char} (hc : isBlank c = false) (cs : List Char) :
    trimEnd (c :: cs) = c :: trimEnd cs := by
  rw [trimEnd]
  split
  · next hend => simp [hend, hc]
  · rfl

theorem trim_cons {c : Char} (hc : isBlank c = false) (cs : List Char) :
    trim (c :: cs) = c :: trimEnd cs := by
  rw [trim, trimStart, List.dropWhile_cons_of_neg (by simp [hc]), trimEnd_cons hc]

/-- A text that starts with no blank is trimmed by taking blanks off its end. -/
theorem exists_blanks_trim {c : Char} (hc : isBlank c = false) (cs : List Char) :
    ∃ bs, (∀ b ∈ bs, isBlank b = true) ∧ c :: cs = trim (c :: cs) ++ bs := by
  obtain ⟨bs, hbs, hcs⟩ := exists_blanks_trimEnd cs
  refine ⟨bs, hbs, ?_⟩
  rw [trim_cons hc, List.cons_append, ← hcs]

theorem isTrimmed_trim_cons {c : Char} (hc : isBlank c = false) (cs : List Char) :
    isTrimmed (trim (c :: cs)) = true := by
  rw [isTrimmed, trim_cons hc, trim_cons hc, trimEnd_trimEnd, beq_self_eq_true]

theorem trim_isInfix (cs : List Char) : trim cs <:+: cs := by
  obtain ⟨bs, -, hbs⟩ := exists_blanks_trimEnd (trimStart cs)
  have hprefix : trim cs <+: trimStart cs := ⟨bs, hbs.symm⟩
  exact hprefix.isInfix.trans (List.dropWhile_suffix isBlank).isInfix

theorem toList_strip (cs : List Char) : (strip (String.ofList cs)).toList = trim cs := by
  rw [strip, String.toList_ofList, String.toList_ofList]

namespace Terminal

/-! ## Names, selectors and parameters -/

theorem headed?_lexeme {head tail : Char → Bool} {cs lexeme rest : List Char}
    (h : headed? head tail cs = some (lexeme, rest)) :
    headed? head tail lexeme = some (lexeme, []) := by
  unfold headed? at h
  split at h
  · exact absurd h (by simp)
  · next c cs =>
    split at h
    · next hc =>
      obtain ⟨rfl, -⟩ : c :: cs.takeWhile tail = lexeme ∧ cs.dropWhile tail = rest := by
        simpa using h
      have hall : ∀ x ∈ cs.takeWhile tail, tail x = true := fun x hx => List.mem_takeWhile_imp hx
      rw [headed?, if_pos hc, List.takeWhile_eq_self_iff.2 hall, List.dropWhile_eq_nil_iff.2 hall]
    · exact absurd h (by simp)

theorem isPropertyText_of_split? {cs lexeme rest : List Char}
    (h : splitProperty? cs = some (lexeme, rest)) : isPropertyText lexeme = true := by
  rw [isPropertyText, beq_iff_eq]
  unfold splitProperty? at h
  split at h
  · obtain ⟨⟨l, r⟩, hl, heq⟩ := Option.map_eq_some_iff.1 h
    obtain ⟨rfl, rfl⟩ := Prod.mk.inj heq
    simp [splitProperty?, headed?_lexeme hl]
  · obtain ⟨⟨l, r⟩, hl, heq⟩ := Option.map_eq_some_iff.1 h
    obtain ⟨rfl, rfl⟩ := Prod.mk.inj heq
    obtain ⟨c, l', rfl, hc, -⟩ := all_of_headed? (headed?_lexeme hl)
    simp [splitProperty?, headed?_lexeme hl, ne_hyphen_of_isNameStart hc]
  · have hl := headed?_lexeme h
    obtain ⟨c, l', rfl, hc, -⟩ := all_of_headed? hl
    simp [splitProperty?, hl, ne_hyphen_of_isNameStart hc]

theorem isKeywordText_of_split? {cs lexeme rest : List Char}
    (h : splitKeyword? cs = some (lexeme, rest)) :
    lexeme = '@' :: lexeme.tail ∧ isKeywordText lexeme.tail = true := by
  unfold splitKeyword? at h
  split at h
  · obtain ⟨⟨l, r⟩, hl, heq⟩ := Option.map_eq_some_iff.1 h
    obtain ⟨rfl, rfl⟩ := Prod.mk.inj heq
    simp [isKeywordText, splitKeyword?, headed?_lexeme hl]
  · exact absurd h (by simp)

theorem all_trim {p : Char → Bool} {cs : List Char} (h : cs.all p = true) :
    (trim cs).all p = true := by
  obtain ⟨bs, -, hbs⟩ := exists_blanks_trimEnd (trimStart cs)
  have hstart : (trimStart cs).all p = true :=
    List.all_eq_true.2 fun x hx =>
      List.all_eq_true.1 h x ((List.dropWhile_suffix isBlank).subset hx)
  rw [hbs, List.all_append, Bool.and_eq_true] at hstart
  exact hstart.1

theorem isSelectorText_of_split? {cs lexeme rest : List Char}
    (h : splitSelector? cs = some (lexeme, rest)) : isSelectorText (trim lexeme) = true := by
  unfold splitSelector? at h
  split at h
  · next lexeme' rest' hs =>
    obtain ⟨rfl, -⟩ := Prod.mk.inj (Option.some.inj h)
    obtain ⟨c, l, rfl, hc, hl⟩ := all_of_headed? (headed?_lexeme hs)
    simp only [Bool.and_eq_true, Bool.not_eq_true', bne_iff_ne] at hc
    obtain ⟨⟨⟨hblank, hplain⟩, hat⟩, hslash⟩ := hc
    have hall : (trim (c :: l)).all isPlain = true := all_trim (by simp [hplain, hl])
    have htrim := isTrimmed_trim_cons hblank l
    rw [trim_cons hblank] at hall htrim ⊢
    simp [isSelectorText, htrim, hall, hat, hslash]
  · exact absurd h (by simp)

/-- Parameters are no comment. -/
theorem isTrimmed_of_splitParams? {cs lexeme rest : List Char}
    (h : splitParams? cs = some (lexeme, rest)) :
    isTrimmed (trim lexeme) = true ∧ (trim lexeme).all isPlain = true ∧
      ∃ bs, (∀ b ∈ bs, isBlank b = true) ∧ lexeme = trim lexeme ++ bs := by
  obtain ⟨c, l, rfl, hc, hl⟩ := all_of_headed? (headed?_lexeme h)
  rw [Bool.and_eq_true, Bool.not_eq_true'] at hc
  exact ⟨isTrimmed_trim_cons hc.1 l, all_trim (by simp [hc.2, hl]), exists_blanks_trim hc.1 l⟩

theorem commentRest?_eq_none_iff {cs : List Char} :
    commentRest? cs = none ↔ ¬ ['*', '/'] <:+: cs := by
  fun_induction commentRest? cs with
  | case1 cs => simp [List.infix_cons_iff]
  | case2 => simp
  | case3 c cs hne ih =>
    rw [Option.map_eq_none_iff, ih, List.infix_cons_iff, not_or, and_iff_right_of_imp]
    rintro - ⟨tail, htail⟩
    obtain ⟨rfl, rfl⟩ := List.cons.inj htail
    exact hne _ rfl rfl

/-- A comment has to be opened and closed. -/
theorem splitComment?_eq_none_iff {cs : List Char} :
    splitComment? cs = none ↔ ∀ x, cs = '/' :: '*' :: x → ¬ ['*', '/'] <:+: x := by
  constructor
  · rintro h x rfl
    rwa [splitComment?, Option.map_eq_none_iff, commentRest?_eq_none_iff] at h
  · intro h
    unfold splitComment?
    split
    · next x => rw [commentRest?_eq_none_iff.2 (h x rfl), Option.map_none]
    · rfl

/-! ## Pieces of a value -/

/-- A character that is no backslash ends the string, or the attempt, or runs on in it. -/
theorem stringRest?_cons {quote c : Char} (hc : c ≠ '\\') (cs : List Char) :
    stringRest? quote (c :: cs) =
      if c = quote then some ([c], cs)
      else if c = '\n' then none
      else (stringRest? quote cs).map fun (lexeme, rest) => (c :: lexeme, rest) := by
  rw [stringRest?]
  · exact fun h => absurd h hc
  · exact fun _ _ h => absurd h hc

/-- A string is cut off in front of anything. -/
theorem stringRest?_transfer {quote : Char} {cs lexeme rest : List Char}
    (h : stringRest? quote cs = some (lexeme, rest)) (rest' : List Char) :
    stringRest? quote (lexeme ++ rest') = some (lexeme, rest') := by
  have hne : ∀ {c : Char} {cs : List Char}, (c = '\\' → cs = [] → False) →
      (∀ d ds, c = '\\' → cs = d :: ds → False) → c ≠ '\\' := by
    intro c cs hnil hcons hc
    cases cs with
    | nil => exact hnil hc rfl
    | cons d ds => exact hcons d ds hc rfl
  fun_induction stringRest? quote cs generalizing lexeme rest with
  | case1 => exact absurd h (by simp)
  | case2 => exact absurd h (by simp)
  | case3 => exact absurd h (by simp)
  | case4 c cs hc ih =>
    obtain ⟨⟨l, r⟩, hl, heq⟩ := Option.map_eq_some_iff.1 h
    obtain ⟨rfl, rfl⟩ := Prod.mk.inj heq
    simp [stringRest?, hc, ih hl]
  | case5 cs hnil hcons =>
    obtain ⟨rfl, rfl⟩ : [quote] = lexeme ∧ cs = rest := by simpa using h
    rw [List.singleton_append, stringRest?_cons (hne hnil hcons), if_pos rfl]
  | case6 cs => exact absurd h (by simp)
  | case7 c cs hnil hcons hquote hbreak ih =>
    obtain ⟨⟨l, r⟩, hl, heq⟩ := Option.map_eq_some_iff.1 h
    obtain ⟨rfl, rfl⟩ := Prod.mk.inj heq
    rw [List.cons_append, stringRest?_cons (hne hnil hcons), if_neg hquote, if_neg hbreak, ih hl]
    rfl

theorem throughParenthesis?_transfer {cs lexeme rest : List Char}
    (h : throughParenthesis? cs = some (lexeme, rest)) (rest' : List Char) :
    throughParenthesis? (lexeme ++ rest') = some (lexeme, rest') := by
  fun_induction throughParenthesis? cs generalizing lexeme rest with
  | case1 => exact absurd h (by simp)
  | case2 cs =>
    obtain ⟨rfl, rfl⟩ : [')'] = lexeme ∧ cs = rest := by simpa using h
    rfl
  | case3 c cs hc ih =>
    obtain ⟨⟨l, r⟩, hl, heq⟩ := Option.map_eq_some_iff.1 h
    obtain ⟨rfl, rfl⟩ := Prod.mk.inj heq
    simp [throughParenthesis?, hc, ih hl]

theorem throughParenthesis?_eq_none_iff {cs : List Char} :
    throughParenthesis? cs = none ↔ ')' ∉ cs := by
  fun_induction throughParenthesis? cs with
  | case1 => simp
  | case2 => simp
  | case3 c cs hc ih => simp [ih, Ne.symm hc]

/-- A string ends in its quote. -/
theorem exists_append_of_stringRest? {quote : Char} {cs lexeme rest : List Char}
    (h : stringRest? quote cs = some (lexeme, rest)) : ∃ l, lexeme = l ++ [quote] := by
  fun_induction stringRest? quote cs generalizing lexeme rest with
  | case1 => exact absurd h (by simp)
  | case2 => exact absurd h (by simp)
  | case3 => exact absurd h (by simp)
  | case4 c cs hc ih =>
    obtain ⟨⟨l, r⟩, hl, heq⟩ := Option.map_eq_some_iff.1 h
    obtain ⟨rfl, rfl⟩ := Prod.mk.inj heq
    obtain ⟨l, rfl⟩ := ih hl
    exact ⟨'\\' :: c :: l, rfl⟩
  | case5 cs =>
    obtain ⟨rfl, rfl⟩ : [quote] = lexeme ∧ cs = rest := by simpa using h
    exact ⟨[], rfl⟩
  | case6 cs => exact absurd h (by simp)
  | case7 c cs _ _ _ _ ih =>
    obtain ⟨⟨l, r⟩, hl, heq⟩ := Option.map_eq_some_iff.1 h
    obtain ⟨rfl, rfl⟩ := Prod.mk.inj heq
    obtain ⟨l, rfl⟩ := ih hl
    exact ⟨c :: l, rfl⟩

theorem exists_append_of_throughParenthesis? {cs lexeme rest : List Char}
    (h : throughParenthesis? cs = some (lexeme, rest)) : ∃ l, lexeme = l ++ [')'] := by
  fun_induction throughParenthesis? cs generalizing lexeme rest with
  | case1 => exact absurd h (by simp)
  | case2 cs =>
    obtain ⟨rfl, rfl⟩ : [')'] = lexeme ∧ cs = rest := by simpa using h
    exact ⟨[], rfl⟩
  | case3 c cs hc ih =>
    obtain ⟨⟨l, r⟩, hl, heq⟩ := Option.map_eq_some_iff.1 h
    obtain ⟨rfl, rfl⟩ := Prod.mk.inj heq
    obtain ⟨l, rfl⟩ := ih hl
    exact ⟨c :: l, rfl⟩

theorem url?_cons {u r l : Char} (cs : List Char) :
    url? (u :: r :: l :: '(' :: cs) =
      if (u = 'u' ∨ u = 'U') ∧ (r = 'r' ∨ r = 'R') ∧ (l = 'l' ∨ l = 'L') then
        (throughParenthesis? cs).map fun (lexeme, rest) => (u :: r :: l :: '(' :: lexeme, rest)
      else none := rfl

/-- There is no `url(...)` unless there is a `url(` with a closing parenthesis behind it. -/
theorem url?_eq_none_iff {cs : List Char} :
    url? cs = none ↔ ∀ u r l cs', cs = u :: r :: l :: '(' :: cs' →
      (u = 'u' ∨ u = 'U') ∧ (r = 'r' ∨ r = 'R') ∧ (l = 'l' ∨ l = 'L') → ')' ∉ cs' := by
  constructor
  · rintro h u r l cs' rfl hletters
    rwa [url?_cons, if_pos hletters, Option.map_eq_none_iff, throughParenthesis?_eq_none_iff] at h
  · intro h
    unfold url?
    split
    · next u r l cs' =>
      split
      · next hletters =>
        rw [throughParenthesis?_eq_none_iff.2 (h u r l cs' rfl hletters), Option.map_none]
      · rfl
    · rfl

/-- Whether a character goes on with what may become a `url(`. -/
def continuesUrl (c : Char) : Bool := ['r', 'R', 'l', 'L', '('].contains c

/-- A `url(` that is not closed in front of one text is not closed in front of another one, unless
there is a closing parenthesis in that. -/
theorem url?_eq_none_transfer (bs : List Char) {c d : Char} {v rest rest' : List Char}
    (h : url? (c :: (v ++ (bs ++ rest))) = none) (hd : continuesUrl d = false)
    (hrest : ')' ∈ d :: rest' → ')' ∈ rest) : url? (c :: (v ++ d :: rest')) = none := by
  rw [url?_eq_none_iff] at h ⊢
  intro u r l cs' heq hletters
  rcases v with _ | ⟨r', _ | ⟨l', _ | ⟨p, v⟩⟩⟩
  · obtain ⟨-, rfl, -⟩ : c = u ∧ d = r ∧ _ := by simpa using heq
    rcases hletters.2.1 with rfl | rfl <;> exact absurd hd (by decide)
  · obtain ⟨-, -, rfl, -⟩ : c = u ∧ r' = r ∧ d = l ∧ _ := by simpa using heq
    rcases hletters.2.2 with rfl | rfl <;> exact absurd hd (by decide)
  · obtain ⟨-, -, -, rfl, -⟩ : c = u ∧ r' = r ∧ l' = l ∧ d = '(' ∧ _ := by simpa using heq
    exact absurd hd (by decide)
  · simp only [List.cons_append, List.cons.injEq] at heq
    obtain ⟨rfl, rfl, rfl, rfl, rfl⟩ := heq
    have hnot := h _ _ _ _ rfl hletters
    simp only [List.append_eq, List.mem_append, not_or] at hnot ⊢
    exact ⟨hnot.1, fun hmem => hnot.2.2 (hrest hmem)⟩

theorem url?_cases {cs lexeme rest : List Char} (h : url? cs = some (lexeme, rest)) :
    ∃ c l, lexeme = c :: l ++ [')'] ∧ (c = 'u' ∨ c = 'U') ∧
      ∀ rest', url? (lexeme ++ rest') = some (lexeme, rest') := by
  unfold url? at h
  split at h
  · next u r l cs =>
    split at h
    · next hletters =>
      obtain ⟨⟨x, y⟩, hx, heq⟩ := Option.map_eq_some_iff.1 h
      obtain ⟨rfl, rfl⟩ := Prod.mk.inj heq
      obtain ⟨x, rfl⟩ := exists_append_of_throughParenthesis? hx
      refine ⟨u, r :: l :: '(' :: x, rfl, hletters.1, fun rest' => ?_⟩
      simp only [List.cons_append]
      rw [url?_cons, if_pos hletters, throughParenthesis?_transfer hx]
      rfl
    · exact absurd h (by simp)
  · exact absurd h (by simp)

/-- The forms of a piece. -/
theorem piece?_cases {cs lexeme rest : List Char} (h : piece? cs = some (lexeme, rest)) :
    (∃ l d, isBlank d = false ∧ lexeme = l ++ [d] ∧
      ∀ rest', piece? (lexeme ++ rest') = some (lexeme, rest')) ∨
    ∃ c, lexeme = [c] ∧ c ≠ '\x22' ∧ c ≠ '\x27' ∧ isDelimiter c = false ∧
      url? (c :: rest) = none := by
  unfold piece? at h
  split at h
  · exact absurd h (by simp)
  · next c cs =>
    split at h
    · next hquote =>
      obtain ⟨⟨l, r⟩, hl, heq⟩ := Option.map_eq_some_iff.1 h
      obtain ⟨rfl, rfl⟩ := Prod.mk.inj heq
      obtain ⟨l, rfl⟩ := exists_append_of_stringRest? hl
      refine .inl ⟨c :: l, c, ?_, rfl, fun rest' => ?_⟩
      · rcases hquote with rfl | rfl <;> rfl
      · rw [List.cons_append, piece?, if_pos hquote, stringRest?_transfer hl]
        rfl
    · next hquote =>
      rw [not_or] at hquote
      split at h
      · next cut hcut =>
        obtain rfl := Option.some.inj h
        obtain ⟨u, l, rfl, hu, htransfer⟩ := url?_cases hcut
        refine .inl ⟨u :: l, ')', rfl, rfl, fun rest' => ?_⟩
        have hnot : ¬ (u = '\x22' ∨ u = '\x27') := by rcases hu with rfl | rfl <;> decide
        have hurl := htransfer rest'
        simp only [List.cons_append] at hurl ⊢
        rw [piece?, if_neg hnot, hurl]
      · next hnone =>
        split at h
        · exact absurd h (by simp)
        · next hdelimiter =>
          obtain ⟨rfl, rfl⟩ : [c] = lexeme ∧ cs = rest := by simpa using h
          exact .inr ⟨c, rfl, hquote.1, hquote.2, by simpa using hdelimiter, hnone⟩

/-- Whether a text is made of pieces in front of another one at whose front there is none. -/
inductive Pieced (rest : List Char) : List Char → Prop
  | nil (hrest : piece? rest = none) : Pieced rest []
  | cons {x l : List Char} (hx : piece? (x ++ (l ++ rest)) = some (x, l ++ rest))
      (hl : Pieced rest l) : Pieced rest (x ++ l)

theorem pieces_of_piece? {cs x y : List Char} (h : piece? cs = some (x, y)) :
    pieces cs = (x ++ (pieces y).1, (pieces y).2) := by
  rw [pieces]
  split
  · next hnone => exact absurd h (by simp [hnone])
  · next hsome =>
    obtain ⟨rfl, rfl⟩ : _ = x ∧ _ = y := by simpa [h] using hsome.symm
    rfl

theorem pieces_of_piece?_eq_none {cs : List Char} (h : piece? cs = none) : pieces cs = ([], cs) := by
  rw [pieces]
  split
  · rfl
  · next hsome => exact absurd h (by simp [hsome])

theorem pieces_eq_iff {l rest : List Char} : pieces (l ++ rest) = (l, rest) ↔ Pieced rest l := by
  constructor
  · intro h
    generalize hcs : l ++ rest = cs at h
    fun_induction pieces cs generalizing l with
    | case1 cs hnone =>
      obtain ⟨rfl, rfl⟩ := Prod.mk.inj h
      exact .nil hnone
    | case2 cs x y hx ih =>
      obtain ⟨rfl, hrest⟩ := Prod.mk.inj h
      have hy : (pieces y).1 ++ rest = y := by rw [← hrest, pieces_append]
      refine .cons ?_ (ih hy (Prod.ext rfl hrest))
      rw [hy, (piece?_append _ _ _ hx).1, hx]
  · intro h
    induction h with
    | nil hrest => exact pieces_of_piece?_eq_none hrest
    | cons hx _ ih => rw [List.append_assoc, pieces_of_piece? hx, ih]

theorem splitValue?_eq_some_iff {l rest : List Char} :
    splitValue? (l ++ rest) = some (l, rest) ↔
      (∃ c l', l = c :: l' ∧ isBlank c = false) ∧ Pieced rest l := by
  rw [← pieces_eq_iff]
  cases l with
  | nil =>
    refine iff_of_false (fun h => ?_) (by simp)
    exact absurd (splitValue?_append _ _ _ h).2 (by simp)
  | cons c l =>
    rw [List.cons_append, splitValue?]
    by_cases hc : isBlank c = true
    · simp [hc]
    · cases hx : piece? (c :: (l ++ rest)) with
      | none =>
        rw [pieces_of_piece?_eq_none hx]
        simp
      | some cut =>
        obtain ⟨x, y⟩ := cut
        rw [pieces_of_piece? hx, if_neg hc]
        simp [hc]

theorem Pieced.nil_semicolon (rest : List Char) : Pieced (';' :: rest) [] := by
  refine .nil ?_
  have hurl : url? (';' :: rest) = none :=
    url?_eq_none_iff.2 fun u r l cs heq hletters => by
      obtain ⟨rfl, -⟩ := List.cons.inj heq
      exact absurd hletters.1 (by decide)
  simp [piece?, hurl, isDelimiter]

/-- **A value goes over to another text**, without the blanks at its end, if that has no closing
parenthesis that the old one does not have. -/
theorem Pieced.transfer {l rest rest' : List Char} (h : Pieced rest l)
    (hrest : ')' ∈ rest' → ')' ∈ rest) {v bs : List Char} (hl : l = v ++ bs)
    (hbs : ∀ b ∈ bs, isBlank b = true) : Pieced (';' :: rest') v := by
  have hend := Pieced.nil_semicolon rest'
  induction h generalizing v bs with
  | nil _ =>
    obtain ⟨rfl, -⟩ := List.append_eq_nil_iff.1 hl.symm
    exact hend
  | @cons x l hx _ ih =>
    have hpiece : ∀ v' bs', l = v' ++ bs' →
        piece? (x ++ (v' ++ ';' :: rest')) = some (x, v' ++ ';' :: rest') := by
      rintro v' bs' rfl
      rcases piece?_cases hx with ⟨_, _, _, _, htransfer⟩ | ⟨c, rfl, hquote, hquote', hc, hurl⟩
      · exact htransfer _
      · rw [List.append_assoc] at hurl
        have hnone := url?_eq_none_transfer _ (d := ';') hurl rfl (by simpa using hrest)
        simp [piece?, hquote, hquote', hc, hnone]
    rcases List.append_eq_append_iff.1 hl with ⟨v', rfl, rfl⟩ | ⟨bs', rfl, rfl⟩
    · exact .cons (hpiece v' bs rfl) (ih rfl hbs)
    · rcases bs' with _ | ⟨b, bs'⟩
      · rw [List.append_nil] at hpiece
        simpa using hend.cons (hpiece [] l rfl)
      · -- no piece of several characters ends in a blank
        rcases piece?_cases hx with ⟨x, d, hd, hlast, -⟩ | ⟨c, hc, -⟩
        · have hmem : d ∈ b :: bs' := by
            have hgetLast := congrArg List.getLast? hlast
            rw [List.getLast?_append, List.getLast?_concat, List.getLast?_cons, Option.some_or] at hgetLast
            exact List.mem_of_getLast? (List.getLast?_cons.trans hgetLast)
          exact absurd (hbs d (List.mem_append_left l hmem)) (by simp [hd])
        · obtain rfl : v = [] := by
            have hlength := congrArg List.length hc
            rw [List.length_append, List.length_cons, List.length_singleton] at hlength
            exact List.length_eq_zero_iff.1 (by omega)
          exact hend

end Terminal

end FluidCss
