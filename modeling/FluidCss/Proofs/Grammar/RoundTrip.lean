import FluidCss.Grammar.Readable
import FluidCss.Proofs.Grammar.Following
import Mathlib.Data.List.TakeWhile

set_option autoImplicit false

/-! # Reading undoes printing

The printed form of a printable tree is read as the same tree, places apart. The proof follows the
printer: for each text it writes there is a lemma that says which token the reader finds at its
front, and the induction over nested nodes puts these together. What makes the tokens end where
they were printed to end is the condition on each text, and, for a declaration in a block, that its
first delimiter is no opening brace: otherwise it would be read as a rule. The induction asks for
the condition on each text in front of what is printed behind it (`Node.IsReadable`), which is all
that is needed; texts of a printable tree satisfy it in front of anything. -/

namespace FluidCss

open Text

/-! ## Trimmed texts -/

theorem length_trimEnd_le (cs : List Char) : (trimEnd cs).length ≤ cs.length := by
  induction cs with
  | nil => exact Nat.le_refl _
  | cons c cs ih =>
    rw [trimEnd]
    split
    · split <;> simp
    · next h =>
      rw [List.length_cons, List.length_cons]
      omega

theorem not_isBlank_of_isTrimmed {c : Char} {cs : List Char} (h : isTrimmed (c :: cs) = true) :
    isBlank c = false := by
  by_contra hc
  have htrim : trim (c :: cs) = c :: cs := by simpa [isTrimmed] using h
  have hlength : (trim (c :: cs)).length ≤ cs.length := by
    rw [trim, trimStart, List.dropWhile_cons_of_pos (by simpa using hc)]
    exact (length_trimEnd_le _).trans (List.dropWhile_suffix isBlank).length_le
  rw [htrim, List.length_cons] at hlength
  omega

theorem trim_append_blank {cs : List Char} (h : isTrimmed cs = true) (bs : List Char)
    (hbs : ∀ b ∈ bs, isBlank b = true) : trim (cs ++ bs) = cs := by
  have htrim : trim cs = cs := by simpa [isTrimmed] using h
  cases cs with
  | nil =>
    have hdrop : bs.dropWhile isBlank = [] := List.dropWhile_eq_nil_iff.2 hbs
    simp [trim, trimStart, hdrop, trimEnd]
  | cons c cs =>
    have hc := not_isBlank_of_isTrimmed h
    rw [trim, trimStart, List.dropWhile_cons_of_neg (by simp [hc])] at htrim
    rw [trim, trimStart, List.cons_append, List.dropWhile_cons_of_neg (by simp [hc]),
      ← List.cons_append, trimEnd_append_blank _ _ hbs, htrim]

/-- A printed text is read back from a token that is the text with blanks behind it. -/
theorem strip_append_blank {s : String} (h : isTrimmed s.toList = true) (bs : List Char)
    (hbs : ∀ b ∈ bs, isBlank b = true) : strip (String.ofList (s.toList ++ bs)) = s := by
  rw [strip, String.toList_ofList, trim_append_blank h bs hbs, String.ofList_toList]

theorem strip_of_isTrimmed {s : String} (h : isTrimmed s.toList = true) :
    strip (String.ofList s.toList) = s := by
  simpa using strip_append_blank h [] (by simp)

theorem isTrimmed_of_isSelectorText {cs : List Char} (h : isSelectorText cs = true) :
    isTrimmed cs = true := by
  unfold isSelectorText at h
  split at h
  · rfl
  · simp only [Bool.and_eq_true] at h
    exact h.1.1.1

theorem isBlank_of_isGap {c : Char} (h : Terminal.isGap c = true) : isBlank c = true := by
  simp only [Terminal.isGap, Bool.or_eq_true, beq_iff_eq] at h
  rcases h with (((rfl | rfl) | rfl) | rfl) | rfl <;> rfl

theorem not_isGap_of_isTrimmed {cs rest : List Char} (hne : cs ≠ []) (h : isTrimmed cs = true) :
    ∀ c, (cs ++ rest).head? = some c → Terminal.isGap c = false := by
  intro c hc
  cases cs with
  | nil => exact absurd rfl hne
  | cons c' cs =>
    obtain rfl : c' = c := by simpa using hc
    by_contra hgap
    have hblank := isBlank_of_isGap (by simpa using hgap)
    exact absurd hblank (by simp [not_isBlank_of_isTrimmed h])

/-! ## Printable trees are readable everywhere -/

theorem Terminal.splitComment?_eq_none {cs : List Char} (h : ∀ cs', cs ≠ '/' :: '*' :: cs') :
    splitComment? cs = none := by
  unfold splitComment?
  split
  · exact absurd rfl (h _)
  · rfl

theorem IsValueText.isValueBefore {cs : List Char} (h : IsValueText cs) (rest : List Char) :
    IsValueBefore cs rest :=
  ⟨h.1, h.2.1, h.2.2 rest⟩

/-- Parameters that do not open a comment do not open one together with what stands behind them
either, unless it starts with a star. -/
theorem isParamsBefore_of_isParamsText {cs rest : List Char} (h : isParamsText cs = true)
    (hrest : ∃ d rest', rest = d :: rest' ∧ d ≠ '*' ∧ d ≠ '/') : IsParamsBefore cs rest := by
  simp only [isParamsText, Bool.and_eq_true] at h
  obtain ⟨d, rest', rfl, hstar, hslash⟩ := hrest
  refine ⟨h.1.1, h.1.2, Terminal.splitComment?_eq_none fun cs' heq => ?_⟩
  rcases cs with _ | ⟨c, _ | ⟨c', cs⟩⟩
  · exact hslash (List.cons.inj heq).1
  · exact hstar (List.cons.inj (List.cons.inj heq).2).1
  · simp only [List.cons_append, List.cons.injEq] at heq
    exact absurd h.2 (by simp [heq.1, heq.2.1])

namespace Node

mutual

theorem isReadable_of_isPrintable {inBlock : Bool} (n : Node) (depth : Nat) (rest : List Char)
    (h : n.IsPrintable inBlock) : n.IsReadable inBlock depth rest := by
  cases n with
  | declaration prop value source => exact ⟨h.1, h.2.1.isValueBefore rest, h.2.2⟩
  | rule selector source nodes =>
    exact ⟨h.1, h.2.1, areReadable_of_arePrintable nodes _ _ h.2.2⟩
  | atStatement name params source =>
    exact ⟨h.1, isParamsBefore_of_isParamsText h.2 ⟨_, _, rfl, by decide, by decide⟩⟩
  | atBlock name params source nodes =>
    exact ⟨h.1, isParamsBefore_of_isParamsText h.2.1 ⟨_, _, rfl, by decide, by decide⟩,
      areReadable_of_arePrintable nodes _ _ h.2.2⟩

theorem areReadable_of_arePrintable {inBlock : Bool} (ns : List Node) (depth : Nat)
    (rest : List Char) (h : ArePrintable inBlock ns) : AreReadable inBlock depth rest ns := by
  cases ns with
  | nil => trivial
  | cons n ns =>
    exact ⟨isReadable_of_isPrintable n depth _ h.1, areReadable_of_arePrintable ns depth rest h.2⟩

end

theorem isReadableSheet_of_arePrintable (ns : List Node) (h : ArePrintable false ns) :
    IsReadableSheet ns := by
  fun_induction IsReadableSheet ns with
  | case1 => trivial
  | case2 n => exact isReadable_of_isPrintable n 0 _ h.1
  | case3 n ns _ ih => exact ⟨isReadable_of_isPrintable n 0 _ h.1, ih h.2⟩

end Node

/-! ## The token at the front of a printed text -/

namespace Terminal

theorem takeWhile_append_of_all {p : Char → Bool} {cs : List Char} {c : Char} (h : cs.all p = true)
    (hc : p c = false) (rest : List Char) : (cs ++ c :: rest).takeWhile p = cs := by
  rw [List.takeWhile_append_of_pos (List.all_eq_true.1 h), List.takeWhile_cons_of_neg (by simp [hc]),
    List.append_nil]

theorem dropWhile_append_of_all {p : Char → Bool} {cs : List Char} {c : Char} (h : cs.all p = true)
    (hc : p c = false) (rest : List Char) : (cs ++ c :: rest).dropWhile p = c :: rest := by
  rw [List.dropWhile_append_of_pos (List.all_eq_true.1 h), List.dropWhile_cons_of_neg (by simp [hc])]

/-- A token of two classes of characters ends in front of a character of neither. -/
theorem headed?_append_of_all {p q : Char → Bool} {c d : Char} {cs : List Char}
    (hc : p c = true) (hcs : cs.all q = true) (hd : q d = false) (rest : List Char) :
    headed? p q (c :: (cs ++ d :: rest)) = some (c :: cs, d :: rest) := by
  rw [headed?, if_pos hc, takeWhile_append_of_all hcs hd, dropWhile_append_of_all hcs hd]

theorem all_of_headed? {head tail : Char → Bool} {cs : List Char}
    (h : headed? head tail cs = some (cs, [])) :
    ∃ c cs', cs = c :: cs' ∧ head c = true ∧ cs'.all tail = true := by
  unfold headed? at h
  split at h
  · exact absurd h (by simp)
  · next c cs' =>
    split at h
    · next hc =>
      simp only [Option.some.injEq, Prod.mk.injEq, List.cons.injEq, true_and,
        List.takeWhile_eq_self_iff] at h
      exact ⟨c, cs', rfl, hc, List.all_eq_true.2 h.1⟩
    · exact absurd h (by simp)

theorem splitKeyword?_append_of_isKeywordText {cs : List Char} {d : Char}
    (h : isKeywordText cs = true) (hd : isKeywordPart d = false) (rest : List Char) :
    splitKeyword? ('@' :: (cs ++ d :: rest)) = some ('@' :: cs, d :: rest) := by
  simp only [isKeywordText, splitKeyword?, beq_iff_eq, Option.map_eq_some_iff, Prod.mk.injEq,
    Prod.exists, List.cons.injEq, true_and] at h
  obtain ⟨_, _, hcs, rfl, rfl⟩ := h
  obtain ⟨c, cs', rfl, hc, hcs'⟩ := all_of_headed? hcs
  rw [splitKeyword?, List.cons_append, headed?_append_of_all hc hcs' hd, Option.map_some]

/-- The forms of a property name. -/
theorem property_forms {cs : List Char} (h : isPropertyText cs = true) :
    ∃ hyphens c cs', (hyphens = [] ∨ hyphens = ['-'] ∨ hyphens = ['-', '-']) ∧
      cs = hyphens ++ c :: cs' ∧ isNameStart c = true ∧ cs'.all isNamePart = true := by
  simp only [isPropertyText, beq_iff_eq] at h
  unfold splitProperty? at h
  split at h
  · simp only [Option.map_eq_some_iff, Prod.mk.injEq, Prod.exists, List.cons.injEq, true_and] at h
    obtain ⟨_, _, hcs, rfl, rfl⟩ := h
    obtain ⟨c, cs', rfl, hc, hcs'⟩ := all_of_headed? hcs
    exact ⟨['-', '-'], c, cs', .inr (.inr rfl), rfl, hc, hcs'⟩
  · simp only [Option.map_eq_some_iff, Prod.mk.injEq, Prod.exists, List.cons.injEq, true_and] at h
    obtain ⟨_, _, hcs, rfl, rfl⟩ := h
    obtain ⟨c, cs', rfl, hc, hcs'⟩ := all_of_headed? hcs
    exact ⟨['-'], c, cs', .inr (.inl rfl), rfl, hc, hcs'⟩
  · obtain ⟨c, cs', rfl, hc, hcs'⟩ := all_of_headed? h
    exact ⟨[], c, cs', .inl rfl, rfl, hc, hcs'⟩

theorem ne_hyphen_of_isNameStart {c : Char} (h : isNameStart c = true) : c ≠ '-' := by
  rintro rfl
  exact absurd h (by decide)

theorem splitProperty?_append_of_isPropertyText {cs : List Char} {d : Char}
    (h : isPropertyText cs = true) (hd : isNamePart d = false) (rest : List Char) :
    splitProperty? (cs ++ d :: rest) = some (cs, d :: rest) := by
  obtain ⟨hyphens, c, cs', hh, rfl, hc, hcs⟩ := property_forms h
  have hne := ne_hyphen_of_isNameStart hc
  have htail := headed?_append_of_all hc hcs hd rest
  rcases hh with rfl | rfl | rfl <;>
    simp [splitProperty?, hne, htail]

theorem isPlain_of_isNameStart {c : Char} (h : isNameStart c = true) : isPlain c = true := by
  by_contra hc
  simp only [isPlain, isDelimiter, Bool.not_eq_true, Bool.not_eq_false', Bool.or_eq_true,
    beq_iff_eq] at hc
  rcases hc with (rfl | rfl) | rfl <;> exact absurd h (by decide)

theorem isPlain_of_isNamePart {c : Char} (h : isNamePart c = true) : isPlain c = true := by
  by_contra hc
  simp only [isPlain, isDelimiter, Bool.not_eq_true, Bool.not_eq_false', Bool.or_eq_true,
    beq_iff_eq] at hc
  rcases hc with (rfl | rfl) | rfl <;> exact absurd h (by decide)

theorem all_isPlain_of_isPropertyText {cs : List Char} (h : isPropertyText cs = true) :
    cs.all isPlain = true := by
  obtain ⟨hyphens, c, cs', hh, rfl, hc, hcs⟩ := property_forms h
  have hhyphens : hyphens.all isPlain = true := by
    rcases hh with rfl | rfl | rfl <;> decide
  rw [List.all_append, List.all_cons, hhyphens, isPlain_of_isNameStart hc, Bool.true_and,
    Bool.true_and]
  exact List.all_eq_true.2 fun x hx => isPlain_of_isNamePart (List.all_eq_true.1 hcs x hx)

/-- Where the first delimiter is no opening brace, there is no selector. -/
theorem splitSelector?_eq_none {cs : List Char} (h : cs.find? isDelimiter ≠ some '\x7b') :
    splitSelector? cs = none := by
  unfold splitSelector?
  split
  · next lexeme rest hs =>
    unfold headed? at hs
    split at hs
    · exact absurd hs (by simp)
    · next c cs =>
      split at hs
      · next hc =>
        simp only [Option.some.injEq, Prod.mk.injEq] at hs
        simp only [Bool.and_eq_true] at hc
        have hplain : isDelimiter c = false := by simpa [isPlain] using hc.1.1.2
        have hdrop : cs.dropWhile (fun x => !isDelimiter x) = '\x7b' :: rest := hs.2
        rw [List.find?_cons_of_neg (by simp [hplain]), List.find?_eq_head?_dropWhile_not, hdrop]
          at h
        exact absurd rfl h
      · exact absurd hs (by simp)
  · rfl

theorem find?_declaration {prop value : List Char} (hprop : isPropertyText prop = true)
    (hvalue : hasNoBlock value = true) (rest : List Char) :
    (prop ++ ':' :: ' ' :: (value ++ ';' :: rest)).find? isDelimiter ≠ some '\x7b' := by
  have hnone : prop.find? isDelimiter = none := by
    rw [List.find?_eq_none]
    intro c hc
    simpa [isPlain] using List.all_eq_true.1 (all_isPlain_of_isPropertyText hprop) c hc
  have hno : value.find? isDelimiter ≠ some '\x7b' := by simpa [hasNoBlock] using hvalue
  rw [List.find?_append, hnone, Option.none_or, List.find?_cons_of_neg (by decide),
    List.find?_cons_of_neg (by decide), List.find?_append]
  cases hv : value.find? isDelimiter with
  | none => simp [List.find?, isDelimiter]
  | some c => simpa [hv] using hno

/-- A text of the selector class that stands in front of a block. -/
theorem splitSelector?_append_of_isSelectorText {cs : List Char} (h : isSelectorText cs = true)
    (rest : List Char) :
    splitSelector? (cs ++ ' ' :: '\x7b' :: rest) = some (cs ++ [' '], '\x7b' :: rest) := by
  unfold isSelectorText at h
  split at h
  · exact absurd h (by simp)
  · next c cs =>
    simp only [Bool.and_eq_true, List.all_cons] at h
    obtain ⟨⟨⟨htrim, hc, hcs⟩, hat⟩, hslash⟩ := h
    have hall : (cs ++ [' ']).all isPlain = true := by simp [hcs, isPlain, isDelimiter]
    have hhead := headed?_append_of_all
      (p := fun c => !isBlank c && isPlain c && c != '@' && c != '/') (c := c)
      (by simp [not_isBlank_of_isTrimmed htrim, hc, hat, hslash]) hall
      (d := '\x7b') (by decide) rest
    simp only [List.append_assoc, List.cons_append, List.nil_append] at hhead
    rw [splitSelector?, List.cons_append, hhead]
    rfl

/-- Parameters that are printed stand up to the delimiter behind them. -/
theorem splitParams?_append_of_isTrimmed {c d : Char} {cs bs : List Char}
    (htrim : isTrimmed (c :: cs) = true) (h : (c :: cs).all isPlain = true)
    (hbs : bs.all isPlain = true) (hd : isPlain d = false) (rest : List Char) :
    splitParams? (c :: (cs ++ (bs ++ d :: rest))) = some (c :: (cs ++ bs), d :: rest) := by
  rw [List.all_cons, Bool.and_eq_true] at h
  obtain ⟨hc, hcs⟩ := h
  have hall : (cs ++ bs).all isPlain = true := by rw [List.all_append, hcs, hbs]; rfl
  rw [← List.append_assoc]
  exact headed?_append_of_all (by simp [not_isBlank_of_isTrimmed htrim, hc]) hall hd rest

theorem all_isPlain_of_all_isGap {cs : List Char} (h : cs.all isGap = true) :
    cs.all isPlain = true := by
  refine List.all_eq_true.2 ?_
  intro c hc
  have hgap := List.all_eq_true.1 h c hc
  simp only [isGap, Bool.or_eq_true, beq_iff_eq] at hgap
  rcases hgap with (((rfl | rfl) | rfl) | rfl) | rfl <;> rfl

/-- White space is taken for nothing else. -/
theorem split?_eq_none_of_isGap {t : Terminal} {c : Char} (ht : t ≠ .blank) (hc : isGap c = true)
    (cs : List Char) : t.split? (c :: cs) = none := by
  simp only [isGap, Bool.or_eq_true, beq_iff_eq] at hc
  rcases hc with (((rfl | rfl) | rfl) | rfl) | rfl <;> cases t <;> first | rfl | exact absurd rfl ht

theorem first?_cons {t : Terminal} {cs lexeme rest : List Char} {ts : List Terminal}
    (h : t.split? cs = some (lexeme, rest)) :
    first? (t :: ts) cs = some (t, lexeme, rest) := by
  rw [first?, h]

theorem first?_eq_some {ts : List Terminal} {t : Terminal} {cs lexeme rest : List Char}
    (ht : t ∈ ts) (h : t.split? cs = some (lexeme, rest))
    (others : ∀ k ∈ ts, k ≠ t → k.split? cs = none) :
    first? ts cs = some (t, lexeme, rest) := by
  induction ts with
  | nil => exact absurd ht (by simp)
  | cons k ts ih =>
    by_cases hk : k = t
    · rw [first?, hk, h]
    · rw [first?, others k (by simp) hk]
      exact ih (List.mem_of_ne_of_mem (Ne.symm hk) ht)
        fun k' hk' => others k' (List.mem_cons_of_mem _ hk')

theorem first?_gap (ts : List Terminal) {gap cs : List Char} (hne : gap ≠ [])
    (hgap : gap.all isGap = true) (hcs : ∀ c, cs.head? = some c → isGap c = false) :
    first? (triedWith ts) (gap ++ cs) = some (blank, gap, cs) := by
  refine first?_eq_some (List.mem_filter.2 ⟨by decide, rfl⟩) ?_ ?_
  · have htake : (gap ++ cs).takeWhile isGap = gap := by
      cases cs with
      | nil => rw [List.append_nil]; exact List.takeWhile_eq_self_iff.2 (List.all_eq_true.1 hgap)
      | cons c cs => exact takeWhile_append_of_all hgap (hcs c rfl) cs
    have hdrop : (gap ++ cs).dropWhile isGap = cs := by
      cases cs with
      | nil => rw [List.append_nil]; exact List.dropWhile_eq_nil_iff.2 (List.all_eq_true.1 hgap)
      | cons c cs => exact dropWhile_append_of_all hgap (hcs c rfl) cs
    simp [split?, run?, htake, hdrop, hne]
  · intro k _ hk
    cases gap with
    | nil => exact absurd rfl hne
    | cons g gap =>
      rw [List.cons_append]
      exact split?_eq_none_of_isGap hk (List.all_eq_true.1 hgap g (by simp)) _

theorem first?_cons_of_none {t : Terminal} {cs : List Char} (ts : List Terminal)
    (h : t.split? cs = none) : first? (t :: ts) cs = first? ts cs := by
  rw [first?, h]

/-- The kinds that are tried where a block goes on. -/
theorem triedWith_item :
    triedWith [.selector, .property, .atKeyword, .semicolon, .closeBrace] =
      [.selector, .property, .atKeyword, .comment, .blank, .closeBrace, .semicolon] := rfl

/-- The kinds that are tried at the front of a sheet. -/
theorem triedWith_statement :
    triedWith [.selector, .atKeyword] = [.selector, .atKeyword, .comment, .blank] := rfl

/-- The kinds that are tried behind the name of an at-rule. -/
theorem triedWith_keyword :
    triedWith [.atParams, .openBrace, .semicolon] =
      [.comment, .atParams, .blank, .openBrace, .semicolon] := rfl

theorem first?_openBrace (rest : List Char) :
    first? (triedWith [.openBrace]) ('\x7b' :: rest) = some (.openBrace, ['\x7b'], rest) := rfl

theorem first?_colon (rest : List Char) :
    first? (triedWith [.colon]) (':' :: rest) = some (.colon, [':'], rest) := rfl

theorem first?_semicolon (rest : List Char) :
    first? (triedWith [.selector, .property, .atKeyword, .semicolon, .closeBrace]) (';' :: rest) =
      some (.semicolon, [';'], rest) := rfl

theorem first?_keyword_openBrace (rest : List Char) :
    first? (triedWith [.atParams, .openBrace, .semicolon]) ('\x7b' :: rest) =
      some (.openBrace, ['\x7b'], rest) := rfl

theorem first?_keyword_semicolon (rest : List Char) :
    first? (triedWith [.atParams, .openBrace, .semicolon]) (';' :: rest) =
      some (.semicolon, [';'], rest) := rfl

theorem first?_params_openBrace (rest : List Char) :
    first? (triedWith [.openBrace, .semicolon]) ('\x7b' :: rest) =
      some (.openBrace, ['\x7b'], rest) := rfl

theorem first?_params_semicolon (rest : List Char) :
    first? (triedWith [.openBrace, .semicolon]) (';' :: rest) =
      some (.semicolon, [';'], rest) := rfl

end Terminal

/-! ## One token -/

namespace Unfinished

variable {u v : Unfinished} {here last : Position} {cs lexeme rest : List Char} {t : Terminal}

theorem not_isEmpty_of_first? {ts : List Terminal}
    (h : Terminal.first? ts cs = some (t, lexeme, rest)) : ¬ cs.isEmpty = true := by
  intro hcs
  obtain rfl := List.isEmpty_iff.1 hcs
  exact absurd (Terminal.first?_length_lt _ _ _ _ _ h) (by simp)

theorem read_of_skipped (h : Terminal.first? u.terminals cs = some (t, lexeme, rest))
    (skipped : t.isSkipped = true) :
    u.read here last cs = u.read (here.after lexeme) last rest := by
  rw [read, if_neg (not_isEmpty_of_first? h)]
  split
  · next hnone => exact absurd h (by simp [hnone])
  · next hsome =>
    obtain ⟨rfl, rfl, rfl⟩ : _ = t ∧ _ = lexeme ∧ _ = rest := by simpa [h] using hsome.symm
    rw [if_pos skipped]

theorem read_of_step (h : Terminal.first? u.terminals cs = some (t, lexeme, rest))
    (hs : u.step ⟨t, lexeme, here⟩ = some v) :
    u.read here last cs = v.read (here.after lexeme) here rest := by
  rw [read, if_neg (not_isEmpty_of_first? h)]
  split
  · next hnone => exact absurd h (by simp [hnone])
  · next hsome =>
    obtain ⟨rfl, rfl, rfl⟩ : _ = t ∧ _ = lexeme ∧ _ = rest := by simpa [h] using hsome.symm
    have counted := not_isSkipped_of_step hs
    rw [if_neg (by simpa using counted), hs]

/-- White space is read over. -/
theorem read_gap (u : Unfinished) (here last : Position) (gap cs : List Char)
    (hgap : gap.all Terminal.isGap = true) (hcs : ∀ c, cs.head? = some c → Terminal.isGap c = false) :
    ∃ here', u.read here last (gap ++ cs) = u.read here' last cs := by
  by_cases hne : gap = []
  · exact ⟨here, by rw [hne, List.nil_append]⟩
  · exact ⟨_, read_of_skipped (Terminal.first?_gap _ hne hgap hcs) rfl⟩

/-! ## The parts of a statement -/

/-- Whether the next statement or declaration, or the end of the block, is due. -/
def Ready (u : Unfinished) : Prop :=
  match u.place with
  | .sheet => u.pending = .beginning ∨ u.pending = .item
  | .rule => u.pending = .ruleBody
  | .block => u.pending = .item

theorem ready_empty : empty.Ready := Or.inl rfl

theorem Ready.outside (h : u.Ready) (outside : u.place ≠ .rule) :
    u.pending = .beginning ∨ u.pending = .item := by
  unfold Ready at h
  split at h
  · exact h
  · exact absurd ‹_› outside
  · exact .inr h

theorem Ready.inside (h : u.Ready) (inside : u.place ≠ .sheet) :
    u.pending = .ruleBody ∨ u.pending = .item := by
  unfold Ready at h
  split at h
  · exact absurd ‹_› inside
  · exact .inl h
  · exact .inr h

/-- The sheet after a whole statement or declaration with all that ends it. -/
def took (u : Unfinished) (n : Node) : Unfinished where
  nodes := n :: u.nodes
  blocks := u.blocks
  pending := if u.inRule then .ruleBody else .item

/-- What is tried where a statement is due. -/
theorem Ready.terminals (h : u.Ready) (outside : u.place ≠ .rule) :
    u.terminals = Terminal.triedWith [.selector, .atKeyword] ∨
      u.terminals = Terminal.triedWith [.selector, .property, .atKeyword, .semicolon, .closeBrace] := by
  rcases h.outside outside with hp | hp
  · exact .inl (by rw [Unfinished.terminals, hp]; rfl)
  · exact .inr (by rw [Unfinished.terminals, hp]; rfl)

theorem Ready.terminals_inside (h : u.Ready) (inside : u.place ≠ .sheet) :
    u.place = .rule ∧ u.terminals = Terminal.triedWith [.property, .semicolon, .closeBrace] ∨
      u.place = .block ∧ u.terminals =
        Terminal.triedWith [.selector, .property, .atKeyword, .semicolon, .closeBrace] := by
  unfold Ready at h
  split at h
  · exact absurd ‹_› inside
  · exact .inl ⟨‹_›, by rw [Unfinished.terminals, h]; rfl⟩
  · exact .inr ⟨‹_›, by rw [Unfinished.terminals, h]; rfl⟩

/-- A selector and the brace behind it open the block of a rule. -/
theorem read_ruleHeader (here last : Position) {selector : String} (ready : u.Ready)
    (outside : u.place ≠ .rule) (h : isSelectorText selector.toList = true) (rest : List Char) :
    ∃ here' last', u.read here last (selector.toList ++ ' ' :: '\x7b' :: rest) =
      (u.openBlock (.rule selector) here).read here' last' rest := by
  have hsplit := Terminal.splitSelector?_append_of_isSelectorText h rest
  have hfirst : Terminal.first? u.terminals (selector.toList ++ ' ' :: '\x7b' :: rest) =
      some (.selector, selector.toList ++ [' '], '\x7b' :: rest) := by
    rcases ready.terminals outside with ht | ht <;> rw [ht] <;>
      exact Terminal.first?_cons hsplit
  have hstep : u.step ⟨.selector, selector.toList ++ [' '], here⟩ =
      some { u with pending := .selector selector here } := by
    rw [step_of_takes (.selector (ready.outside outside) rfl outside),
      strip_append_blank (isTrimmed_of_isSelectorText h) _ (List.forall_mem_singleton.2 rfl)]
  rw [read_of_step hfirst hstep]
  exact ⟨_, _, read_of_step (Terminal.first?_openBrace rest)
    (step_of_takes (.openedRule selector here rfl rfl))⟩

/-- In a block, a property name must not be taken for the start of a selector. -/
theorem read_property (here last : Position) {prop : String} {value : List Char} (ready : u.Ready)
    (inside : u.place ≠ .sheet) (hprop : isPropertyText prop.toList = true)
    (hblock : u.place = .block → hasNoBlock value = true) (rest : List Char) :
    ∃ here' last', u.read here last (prop.toList ++ ':' :: ' ' :: (value ++ ';' :: rest)) =
      ({ u with pending := .property prop here }).read here' last'
        (':' :: ' ' :: (value ++ ';' :: rest)) := by
  have hname : Terminal.property.split? (prop.toList ++ ':' :: ' ' :: (value ++ ';' :: rest)) =
      some (prop.toList, ':' :: ' ' :: (value ++ ';' :: rest)) :=
    Terminal.splitProperty?_append_of_isPropertyText hprop (by decide) _
  have hfirst : Terminal.first? u.terminals (prop.toList ++ ':' :: ' ' :: (value ++ ';' :: rest)) =
      some (.property, prop.toList, ':' :: ' ' :: (value ++ ';' :: rest)) := by
    rcases ready.terminals_inside inside with ⟨-, ht⟩ | ⟨hplace, ht⟩
    · rw [ht]
      exact Terminal.first?_cons hname
    · have hnone : Terminal.selector.split? (prop.toList ++ ':' :: ' ' :: (value ++ ';' :: rest)) =
          none := Terminal.splitSelector?_eq_none (Terminal.find?_declaration hprop (hblock hplace) rest)
      rw [ht, Terminal.triedWith_item, Terminal.first?_cons_of_none _ hnone]
      exact Terminal.first?_cons hname
  have hstep : u.step ⟨.property, prop.toList, here⟩ =
      some { u with pending := .property prop here } := by
    rw [step_of_takes (.property (ready.inside inside) rfl inside), String.ofList_toList]
  exact ⟨_, _, read_of_step hfirst hstep⟩

theorem read_colon (here last : Position) {prop : String} {source : Position}
    (hp : u.pending = .property prop source) (rest : List Char) :
    ∃ here' last', u.read here last (':' :: rest) =
      ({ u with pending := .value prop source }).read here' last' rest := by
  have hfirst : Terminal.first? u.terminals (':' :: rest) = some (.colon, [':'], rest) := by
    rw [Unfinished.terminals, hp]
    exact Terminal.first?_colon rest
  exact ⟨_, _, read_of_step hfirst (step_of_takes (.colon prop source hp rfl))⟩

/-- A value is printed behind one blank and in front of a semicolon. -/
theorem read_value (here last : Position) {prop value : String} {source : Position}
    {rest : List Char} (hp : u.pending = .value prop source)
    (hvalue : IsValueBefore value.toList rest) :
    ∃ here' last', u.read here last (' ' :: (value.toList ++ ';' :: rest)) =
      (u.push (.declaration prop value (some source))).read here' last' (';' :: rest) := by
  obtain ⟨hne, htrim, hsplit⟩ := hvalue
  obtain ⟨here', hgap⟩ := u.read_gap here last [' '] (value.toList ++ ';' :: rest)
    rfl (not_isGap_of_isTrimmed hne htrim)
  have hfirst : Terminal.first? u.terminals (value.toList ++ ';' :: rest) =
      some (.value, value.toList, ';' :: rest) := by
    rw [Unfinished.terminals, hp]
    exact Terminal.first?_cons hsplit
  have hstep : u.step ⟨.value, value.toList, here'⟩ =
      some (u.push (.declaration prop value (some source))) := by
    rw [step_of_takes (.value prop source hp rfl)]
    simp only [strip_of_isTrimmed htrim]
  exact ⟨_, _, hgap.trans (read_of_step hfirst hstep)⟩

theorem read_semicolon (here last : Position) (hp : u.pending = .item) (inside : u.place ≠ .sheet)
    (rest : List Char) :
    ∃ here' last', u.read here last (';' :: rest) =
      ({ u with pending := if u.inRule then .ruleBody else .item }).read here' last' rest := by
  have hfirst : Terminal.first? u.terminals (';' :: rest) = some (.semicolon, [';'], rest) := by
    rw [Unfinished.terminals, hp]
    exact Terminal.first?_semicolon rest
  exact ⟨_, _, read_of_step hfirst (step_of_takes (.skipped (.inr hp) rfl inside))⟩

/-- A property name, the colon behind it, the value and the semicolon make up a declaration. -/
theorem read_declaration (here last : Position) {prop value : String} (ready : u.Ready)
    (inside : u.place ≠ .sheet) (hprop : isPropertyText prop.toList = true) {rest : List Char}
    (hvalue : IsValueBefore value.toList rest)
    (hblock : u.place = .block → hasNoBlock value.toList = true) :
    ∃ here' last', u.read here last
        (prop.toList ++ ':' :: ' ' :: (value.toList ++ ';' :: rest)) =
      (u.took (.declaration prop value (some here))).read here' last' rest := by
  obtain ⟨h₁, l₁, hname⟩ := read_property here last ready inside hprop hblock rest
  obtain ⟨h₂, l₂, hcolon⟩ := read_colon h₁ l₁
    (u := { u with pending := .property prop here }) rfl (' ' :: (value.toList ++ ';' :: rest))
  obtain ⟨h₃, l₃, hval⟩ := read_value h₂ l₂
    (u := { u with pending := .value prop here }) rfl hvalue
  obtain ⟨h₄, l₄, hend⟩ := read_semicolon h₃ l₃
    (u := u.push (.declaration prop value (some here))) rfl inside rest
  exact ⟨h₄, l₄, hname.trans (hcolon.trans (hval.trans hend))⟩

/-! ## At-rules -/

theorem read_keyword (here last : Position) {name : String} {d : Char} (ready : u.Ready)
    (outside : u.place ≠ .rule) (hname : isKeywordText name.toList = true)
    (hd : Terminal.isKeywordPart d = false) (rest : List Char) :
    ∃ here' last', u.read here last ('@' :: (name.toList ++ d :: rest)) =
      ({ u with pending := .keyword name here }).read here' last' (d :: rest) := by
  have hsplit : Terminal.atKeyword.split? ('@' :: (name.toList ++ d :: rest)) =
      some ('@' :: name.toList, d :: rest) :=
    Terminal.splitKeyword?_append_of_isKeywordText hname hd rest
  have hfirst : Terminal.first? u.terminals ('@' :: (name.toList ++ d :: rest)) =
      some (.atKeyword, '@' :: name.toList, d :: rest) := by
    have hselector : Terminal.selector.split? ('@' :: (name.toList ++ d :: rest)) = none := rfl
    have hproperty : Terminal.property.split? ('@' :: (name.toList ++ d :: rest)) = none := rfl
    rcases ready.terminals outside with ht | ht
    · rw [ht, Terminal.triedWith_statement, Terminal.first?_cons_of_none _ hselector]
      exact Terminal.first?_cons hsplit
    · rw [ht, Terminal.triedWith_item, Terminal.first?_cons_of_none _ hselector,
        Terminal.first?_cons_of_none _ hproperty]
      exact Terminal.first?_cons hsplit
  have hstep : u.step ⟨.atKeyword, '@' :: name.toList, here⟩ =
      some { u with pending := .keyword name here } := by
    rw [step_of_takes (.keyword (ready.outside outside) rfl outside)]
    simp
  exact ⟨_, _, read_of_step hfirst hstep⟩

/-- Parameters are printed behind one blank, and blanks may follow them. -/
theorem read_params (here last : Position) (bs : List Char) {name params : String}
    {source : Position} {d : Char} {rest : List Char} (hp : u.pending = .keyword name source) (hne : params.toList ≠ [])
    (hparams : IsParamsBefore params.toList (bs ++ d :: rest)) (hbs : bs.all Terminal.isGap = true)
    (hd : Terminal.isDelimiter d = true) :
    ∃ here' last', u.read here last (' ' :: (params.toList ++ (bs ++ d :: rest))) =
      ({ u with pending := .params name params source }).read here' last' (d :: rest) := by
  obtain ⟨htrim, hplain, hcomment⟩ := hparams
  obtain ⟨here', hgap⟩ := u.read_gap here last [' ']
    (params.toList ++ (bs ++ d :: rest)) rfl (not_isGap_of_isTrimmed hne htrim)
  have hfirst : Terminal.first? u.terminals (params.toList ++ (bs ++ d :: rest)) =
      some (.atParams, params.toList ++ bs, d :: rest) := by
    obtain ⟨c, cs, hcs⟩ := List.exists_cons_of_ne_nil hne
    have hnone : Terminal.comment.split? (params.toList ++ (bs ++ d :: rest)) = none := hcomment
    rw [Unfinished.terminals, hp, Pending.terminals, Terminal.triedWith_keyword,
      Terminal.first?_cons_of_none _ hnone]
    rw [hcs] at htrim hplain ⊢
    rw [List.cons_append]
    exact Terminal.first?_cons (Terminal.splitParams?_append_of_isTrimmed htrim hplain
      (Terminal.all_isPlain_of_all_isGap hbs) (by simp [Terminal.isPlain, hd]) rest)
  have hstep : u.step ⟨.atParams, params.toList ++ bs, here'⟩ =
      some { u with pending := .params name params source } := by
    rw [step_of_takes (.params name source hp rfl), strip_append_blank htrim]
    exact fun b hb => isBlank_of_isGap (List.all_eq_true.1 hbs b hb)
  exact ⟨_, _, hgap.trans (read_of_step hfirst hstep)⟩

/-- The header of an at-rule and the brace behind it open a block. -/
theorem read_atBlock (here last : Position) {name params : String} (ready : u.Ready)
    (outside : u.place ≠ .rule) (hname : isKeywordText name.toList = true) {rest : List Char}
    (hparams : IsParamsBefore params.toList (' ' :: '\x7b' :: rest)) :
    ∃ here' last', u.read here last (atHeader name params ++ ' ' :: '\x7b' :: rest) =
      (u.openBlock (.atRule name params) here).read here' last' rest := by
  by_cases hempty : params = ""
  · subst hempty
    obtain ⟨h₁, l₁, hkey⟩ := read_keyword here last ready outside hname (d := ' ') rfl
      ('\x7b' :: rest)
    obtain ⟨h₂, hgap⟩ := read_gap { u with pending := .keyword name here } h₁ l₁ [' ']
      ('\x7b' :: rest) rfl (by rintro c ⟨rfl⟩; rfl)
    rw [atHeader, if_pos rfl, List.cons_append]
    exact ⟨_, _, hkey.trans (hgap.trans (read_of_step (Terminal.first?_keyword_openBrace rest)
      (step_of_takes (.openedBare name here rfl rfl))))⟩
  · have hne : params.toList ≠ [] := by simpa using hempty
    obtain ⟨h₁, l₁, hkey⟩ := read_keyword here last ready outside hname (d := ' ') rfl
      (params.toList ++ ([' '] ++ '\x7b' :: rest))
    obtain ⟨h₂, l₂, hpar⟩ := read_params h₁ l₁ [' '] (u := { u with pending := .keyword name here })
      (d := '\x7b') rfl hne hparams rfl rfl
    rw [atHeader, if_neg hempty, List.cons_append, List.append_assoc]
    exact ⟨_, _, hkey.trans (hpar.trans (read_of_step (Terminal.first?_params_openBrace rest)
      (step_of_takes (.opened name params here rfl rfl))))⟩

/-- The header of an at-rule and the semicolon behind it are a statement. -/
theorem read_atStatement (here last : Position) {name params : String} (ready : u.Ready)
    (outside : u.place ≠ .rule) (hname : isKeywordText name.toList = true) {rest : List Char}
    (hparams : IsParamsBefore params.toList (';' :: rest)) :
    ∃ here' last', u.read here last (atHeader name params ++ ';' :: rest) =
      (u.push (.atStatement name params (some here))).read here' last' rest := by
  by_cases hempty : params = ""
  · subst hempty
    obtain ⟨h₁, l₁, hkey⟩ := read_keyword here last ready outside hname (d := ';') rfl rest
    rw [atHeader, if_pos rfl, List.cons_append]
    exact ⟨_, _, hkey.trans (read_of_step (Terminal.first?_keyword_semicolon rest)
      (step_of_takes (.endedBare name here rfl rfl)))⟩
  · have hne : params.toList ≠ [] := by simpa using hempty
    obtain ⟨h₁, l₁, hkey⟩ := read_keyword here last ready outside hname (d := ' ') rfl
      (params.toList ++ ([] ++ ';' :: rest))
    obtain ⟨h₂, l₂, hpar⟩ := read_params h₁ l₁ [] (u := { u with pending := .keyword name here })
      (d := ';') rfl hne hparams rfl rfl
    rw [atHeader, if_neg hempty, List.cons_append, List.append_assoc]
    exact ⟨_, _, hkey.trans (hpar.trans (read_of_step (Terminal.first?_params_semicolon rest)
      (step_of_takes (.ended name params here rfl rfl))))⟩

/-! ## Whole nodes -/

/-- The sheet after more statements or declarations. -/
def tookAll (u : Unfinished) (ns : List Node) : Unfinished := ns.foldl took u

theorem place_took (u : Unfinished) (n : Node) : (u.took n).place = u.place := rfl

theorem ready_took (u : Unfinished) (n : Node) : (u.took n).Ready := by
  unfold Ready
  split
  · next h =>
    have hin : u.inRule = false := (place_ne_rule_iff u).1 (by simp [← u.place_took n, h])
    exact .inr (by simp [took, hin])
  · next h => simp [took, (inRule_iff u).2 h]
  · next h =>
    have hin : u.inRule = false := (place_ne_rule_iff u).1 (by simp [← u.place_took n, h])
    simp [took, hin]

theorem push_eq_took (outside : u.place ≠ .rule) (n : Node) : u.push n = u.took n := by
  rw [place_ne_rule_iff] at outside
  simp [push, took, outside]

theorem ready_openBlock (u : Unfinished) (header : Header) (source : Position) :
    (u.openBlock header source).Ready := by
  cases header <;> rfl

theorem tookAll_nodes (u : Unfinished) (ns : List Node) :
    (u.tookAll ns).nodes = ns.reverse ++ u.nodes := by
  induction ns generalizing u with
  | nil => rfl
  | cons n ns ih =>
    rw [tookAll, List.foldl_cons, ← tookAll, ih, List.reverse_cons, List.append_assoc]
    rfl

theorem tookAll_blocks (u : Unfinished) (ns : List Node) : (u.tookAll ns).blocks = u.blocks := by
  induction ns generalizing u with
  | nil => rfl
  | cons n ns ih =>
    rw [tookAll, List.foldl_cons, ← tookAll, ih]
    rfl

theorem Ready.tookAll (h : u.Ready) (ns : List Node) : (u.tookAll ns).Ready := by
  induction ns generalizing u with
  | nil => exact h
  | cons n ns ih => exact ih (u.ready_took n)

/-- A brace closes the block that its nodes have been read of. -/
theorem read_closing (here last : Position) (header : Header) (source : Position) (ns : List Node)
    (outside : u.place ≠ .rule) {gap : List Char} (hgap : gap.all Terminal.isGap = true)
    (rest : List Char) :
    ∃ here' last', ((u.openBlock header source).tookAll ns).read here last
        (gap ++ '\x7d' :: rest) =
      (u.took (header.node source ns)).read here' last' rest := by
  let w := (u.openBlock header source).tookAll ns
  have hblocks : w.blocks = ⟨header, source, u.nodes⟩ :: u.blocks := tookAll_blocks _ _
  have hready : w.Ready := (u.ready_openBlock header source).tookAll ns
  have inside : w.place ≠ .sheet := place_ne_sheet_of_blocks hblocks
  obtain ⟨h₁, hskip⟩ := read_gap w here last gap ('\x7d' :: rest) hgap (by rintro c ⟨rfl⟩; rfl)
  have hfirst : Terminal.first? w.terminals ('\x7d' :: rest) =
      some (.closeBrace, ['\x7d'], rest) := by
    rcases hready.terminals_inside inside with ⟨-, ht⟩ | ⟨-, ht⟩ <;> rw [ht] <;> rfl
  have hstep := step_of_takes (t := ⟨.closeBrace, ['\x7d'], h₁⟩)
    (.closed (hready.inside inside) rfl _ _ hblocks)
  have hnodes : w.nodes.reverse = ns := by
    rw [tookAll_nodes]
    simp [openBlock]
  have hclosed : (⟨header.node source w.nodes.reverse :: u.nodes, u.blocks, .item⟩ : Unfinished) =
      u.took (header.node source ns) := by
    rw [hnodes, ← push_eq_took outside]
    rfl
  rw [hclosed] at hstep
  exact ⟨_, _, hskip.trans (read_of_step hfirst hstep)⟩

end Unfinished

/-- Whether a node may stand at a place. -/
def Node.standsIn (place : Place) (n : Node) : Bool :=
  match place with
  | .sheet => n.isStatement
  | .rule => n.isDeclaration
  | .block => true

theorem Node.ne_sheet_of_standsIn {place : Place} {n : Node} (h : n.standsIn place = true)
    (hn : n.isStatement = false) : place ≠ .sheet := by
  rintro rfl
  exact absurd (h.symm.trans hn) (by simp)

theorem Node.ne_rule_of_standsIn {place : Place} {n : Node} (h : n.standsIn place = true)
    (hn : n.isDeclaration = false) : place ≠ .rule := by
  rintro rfl
  exact absurd (h.symm.trans hn) (by simp)

theorem all_isGap_indentation {gap : List Char} (h : gap.all Terminal.isGap = true) (d : Nat) :
    (gap ++ indentation d).all Terminal.isGap = true := by
  simp [h, indentation, Terminal.isGap]

/-- A printed text does not start with white space. -/
theorem not_isGap_selector {cs rest : List Char} (h : isSelectorText cs = true) :
    ∀ c, (cs ++ rest).head? = some c → Terminal.isGap c = false := by
  refine not_isGap_of_isTrimmed ?_ (isTrimmed_of_isSelectorText h)
  rintro rfl
  exact absurd h (by decide)

theorem not_isGap_property {cs rest : List Char} (h : isPropertyText cs = true) :
    ∀ c, (cs ++ rest).head? = some c → Terminal.isGap c = false := by
  obtain ⟨hyphens, c, cs', hh, rfl, hc, -⟩ := Terminal.property_forms h
  have hgap : Terminal.isGap c = false := by
    by_contra hgap
    have hgap : Terminal.isGap c = true := by simpa using hgap
    simp only [Terminal.isGap, Bool.or_eq_true, beq_iff_eq] at hgap
    rcases hgap with (((rfl | rfl) | rfl) | rfl) | rfl <;> exact absurd hc (by decide)
  rcases hh with rfl | rfl | rfl <;> rintro d ⟨rfl⟩
  · exact hgap
  · rfl
  · rfl

theorem not_isGap_atHeader (name params : String) (rest : List Char) :
    ∀ c, (atHeader name params ++ rest).head? = some c → Terminal.isGap c = false := by
  intro c hc
  have hat : '@' = c := by
    unfold atHeader at hc
    split at hc <;> simpa using hc
  rw [← hat]
  rfl

namespace Unfinished

mutual

/-- **A printed node is read back** in front of the text that it is readable before. -/
theorem read_text (n : Node) (d : Nat) (u : Unfinished) (here last : Position)
    (gap rest : List Char) (ready : u.Ready) (stands : n.standsIn u.place = true)
    (readable : n.IsReadable (u.place == .block) d rest) (hgap : gap.all Terminal.isGap = true) :
    ∃ n' here' last', n'.forgetSource = n.forgetSource ∧
      u.read here last (gap ++ (n.text d ++ rest)) = (u.took n').read here' last' rest := by
  have hindent := all_isGap_indentation hgap d
  cases n with
  | declaration prop value source =>
    obtain ⟨hprop, hvalue, hblock⟩ := readable
    have inside : u.place ≠ .sheet := Node.ne_sheet_of_standsIn stands rfl
    have htext : gap ++ ((Node.declaration prop value source).text d ++ rest) =
        (gap ++ indentation d) ++
          (prop.toList ++ ':' :: ' ' :: (value.toList ++ ';' :: rest)) := by
      simp [Node.text]
    obtain ⟨h₁, hskip⟩ := u.read_gap here last _ _ hindent (not_isGap_property hprop)
    obtain ⟨h₂, l₂, hread⟩ := read_declaration h₁ last ready inside hprop hvalue
      (fun hplace => hblock (by simp [hplace]))
    exact ⟨.declaration prop value (some h₁), h₂, l₂, rfl, by rw [htext, hskip, hread]⟩
  | rule selector source nodes =>
    obtain ⟨hselector, hall, hnodes⟩ := readable
    have outside : u.place ≠ .rule := Node.ne_rule_of_standsIn stands rfl
    have htext : gap ++ ((Node.rule selector source nodes).text d ++ rest) =
        (gap ++ indentation d) ++ (selector.toList ++ ' ' :: '\x7b' ::
          (['\n'] ++ (Node.lines (d + 1) nodes ++ (indentation d ++ '\x7d' :: rest)))) := by
      simp [Node.text]
    obtain ⟨h₁, hskip⟩ := u.read_gap here last _ _ hindent (not_isGap_selector hselector)
    obtain ⟨h₂, l₂, hopen⟩ := read_ruleHeader h₁ last ready outside hselector _
    obtain ⟨ns, gap', h₃, l₃, hns, hgap', hbody⟩ := read_lines nodes (d + 1)
      (u.openBlock (.rule selector) h₁) h₂ l₂ ['\n'] (indentation d ++ '\x7d' :: rest)
      (u.ready_openBlock _ _) hall hnodes rfl
    obtain ⟨h₄, l₄, hclose⟩ := read_closing h₃ l₃ (.rule selector) h₁ ns outside
      (all_isGap_indentation hgap' d) rest
    refine ⟨.rule selector (some h₁) ns, h₄, l₄, ?_, ?_⟩
    · rw [Node.forgetSource, Node.forgetSource, hns]
    · rw [htext, hskip, hopen, hbody, ← List.append_assoc, hclose]
      rfl
  | atStatement name params source =>
    obtain ⟨hname, hparams⟩ := readable
    have outside : u.place ≠ .rule := Node.ne_rule_of_standsIn stands rfl
    have htext : gap ++ ((Node.atStatement name params source).text d ++ rest) =
        (gap ++ indentation d) ++ (atHeader name params ++ ';' :: rest) := by
      simp [Node.text]
    obtain ⟨h₁, hskip⟩ := u.read_gap here last _ _ hindent (not_isGap_atHeader name params _)
    obtain ⟨h₂, l₂, hread⟩ := read_atStatement h₁ last ready outside hname hparams
    refine ⟨.atStatement name params (some h₁), h₂, l₂, rfl, ?_⟩
    rw [htext, hskip, hread, push_eq_took outside]
  | atBlock name params source nodes =>
    obtain ⟨hname, hparams, hnodes⟩ := readable
    have outside : u.place ≠ .rule := Node.ne_rule_of_standsIn stands rfl
    have htext : gap ++ ((Node.atBlock name params source nodes).text d ++ rest) =
        (gap ++ indentation d) ++ (atHeader name params ++ ' ' :: '\x7b' :: '\n' ::
          (Node.lines (d + 1) nodes ++ (indentation d ++ '\x7d' :: rest))) := by
      simp [Node.text]
    obtain ⟨h₁, hskip⟩ := u.read_gap here last _ _ hindent (not_isGap_atHeader name params _)
    obtain ⟨h₂, l₂, hopen⟩ := read_atBlock h₁ last ready outside hname hparams
    obtain ⟨ns, gap', h₃, l₃, hns, hgap', hbody⟩ := read_lines nodes (d + 1)
      (u.openBlock (.atRule name params) h₁) h₂ l₂ ['\n'] (indentation d ++ '\x7d' :: rest)
      (u.ready_openBlock _ _) (fun _ _ => rfl) hnodes rfl
    obtain ⟨h₄, l₄, hclose⟩ := read_closing h₃ l₃ (.atRule name params) h₁ ns outside
      (all_isGap_indentation hgap' d) rest
    refine ⟨.atBlock name params (some h₁) ns, h₄, l₄, ?_, ?_⟩
    · rw [Node.forgetSource, Node.forgetSource, hns]
    · rw [htext, hskip]
      refine (hopen.trans hbody).trans ?_
      rw [← List.append_assoc, hclose]
      rfl

theorem read_lines (ns : List Node) (d : Nat) (u : Unfinished) (here last : Position)
    (gap rest : List Char) (ready : u.Ready) (stands : ∀ n ∈ ns, n.standsIn u.place = true)
    (readable : Node.AreReadable (u.place == .block) d rest ns) (hgap : gap.all Terminal.isGap = true) :
    ∃ ns' gap' here' last', Node.forgetSources ns' = Node.forgetSources ns ∧
      gap'.all Terminal.isGap = true ∧
      u.read here last (gap ++ (Node.lines d ns ++ rest)) =
        (u.tookAll ns').read here' last' (gap' ++ rest) := by
  cases ns with
  | nil => exact ⟨[], gap, here, last, rfl, hgap, rfl⟩
  | cons n ns =>
    obtain ⟨hn, hns⟩ := readable
    obtain ⟨n', h₁, l₁, hn', hread⟩ := read_text n d u here last gap
      ('\n' :: (Node.lines d ns ++ rest)) ready (stands n (by simp)) hn hgap
    obtain ⟨ns', gap', h₂, l₂, hns', hgap', hreads⟩ := read_lines ns d (u.took n') h₁ l₁ ['\n'] rest
      (u.ready_took n') (fun m hm => stands m (by simp [hm])) hns rfl
    refine ⟨n' :: ns', gap', h₂, l₂, ?_, hgap', ?_⟩
    · rw [Node.forgetSources, Node.forgetSources, hn', hns']
    · have htext : Node.lines d (n :: ns) ++ rest =
          n.text d ++ '\n' :: (Node.lines d ns ++ rest) := by
        simp [Node.lines]
      rw [htext, hread]
      exact hreads

end

/-- The statements of a sheet are printed with an empty line between each two. -/
theorem read_sheetText_of_isReadableSheet (ns : List Node) (u : Unfinished) (here last : Position)
    (gap : List Char) (ready : u.Ready) (top : u.place = .sheet)
    (stands : ∀ n ∈ ns, n.isStatement = true) (readable : Node.IsReadableSheet ns)
    (hgap : gap.all Terminal.isGap = true) :
    ∃ ns' gap' here' last', Node.forgetSources ns' = Node.forgetSources ns ∧
      gap'.all Terminal.isGap = true ∧
      u.read here last (gap ++ Node.sheetText ns) = (u.tookAll ns').read here' last' gap' := by
  fun_induction Node.sheetText ns generalizing u here last gap with
  | case1 => exact ⟨[], gap, here, last, rfl, hgap, by rw [List.append_nil]; rfl⟩
  | case2 n =>
    obtain ⟨n', h₁, l₁, hn', hread⟩ := u.read_text n 0 here last gap ['\n'] ready
      (by rw [top]; exact stands n (by simp)) (by rw [top]; exact readable) hgap
    refine ⟨[n'], ['\n'], h₁, l₁, ?_, rfl, hread⟩
    rw [Node.forgetSources, Node.forgetSources, hn']
    rfl
  | case3 n ns hne ih =>
    rw [Node.IsReadableSheet] at readable
    · obtain ⟨n', h₁, l₁, hn', hread⟩ := u.read_text n 0 here last gap
        ('\n' :: '\n' :: Node.sheetText ns) ready
        (by rw [top]; exact stands n (by simp)) (by rw [top]; exact readable.1) hgap
      obtain ⟨ns', gap', h₂, l₂, hns', hgap', hreads⟩ := ih (u.took n') h₁ l₁ ['\n', '\n']
        (u.ready_took n') top (fun m hm => stands m (by simp [hm])) readable.2 rfl
      refine ⟨n' :: ns', gap', h₂, l₂, ?_, hgap', hread.trans hreads⟩
      rw [Node.forgetSources, Node.forgetSources, hn', hns']
    · exact hne

theorem read_sheetText (ns : List Node) (u : Unfinished) (here last : Position) (gap : List Char)
    (ready : u.Ready) (top : u.place = .sheet) (stands : ∀ n ∈ ns, n.isStatement = true)
    (printable : Node.ArePrintable false ns) (hgap : gap.all Terminal.isGap = true) :
    ∃ ns' gap' here' last', Node.forgetSources ns' = Node.forgetSources ns ∧
      gap'.all Terminal.isGap = true ∧
      u.read here last (gap ++ Node.sheetText ns) = (u.tookAll ns').read here' last' gap' :=
  u.read_sheetText_of_isReadableSheet ns here last gap ready top stands
    (Node.isReadableSheet_of_arePrintable ns printable) hgap

theorem finish?_tookAll_empty (ns : List Node) : (empty.tookAll ns).finish? = some ns := by
  have hready : (empty.tookAll ns).Ready := Ready.tookAll ready_empty ns
  have hblocks : (empty.tookAll ns).blocks = [] := tookAll_blocks _ _
  have hplace : (empty.tookAll ns).place = .sheet := by simp [Unfinished.place, hblocks]
  have hnodes : (empty.tookAll ns).nodes.reverse = ns := by
    rw [tookAll_nodes]
    simp [empty]
  have htop : (empty.tookAll ns).atTop = true := (atTop_iff _).2 hplace
  rcases hready.outside (by simp [hplace]) with hp | hp <;>
    rw [finish?, hp] <;> simp [htop, hnodes]

end Unfinished

/-- **Reading undoes printing**: the printed form of a printable tree is read as the same tree,
places apart. -/
theorem parse_toCss (nodes : List Node) (name : Option String) (h : IsPrintable nodes) :
    ∃ parsed, Sheet.parse (Node.toCss nodes) name = .ok ⟨parsed, some (Node.toCss nodes), name⟩ ∧
      Node.forgetSources parsed = Node.forgetSources nodes := by
  obtain ⟨ns, gap, h₁, l₁, hns, hgap, hread⟩ := Unfinished.read_sheetText nodes .empty .start .start
    [] Unfinished.ready_empty rfl h.1 h.2 rfl
  obtain ⟨h₂, hskip⟩ := (Unfinished.empty.tookAll ns).read_gap h₁ l₁ gap [] hgap (by simp)
  have hfinish : (Unfinished.empty.tookAll ns).finish? = some ns :=
    Unfinished.finish?_tookAll_empty ns
  have hparse : Sheet.parseNodes (Node.toCss nodes).toList = .ok ns := by
    rw [Node.toCss, String.toList_ofList, Sheet.parseNodes]
    rw [List.append_nil] at hskip
    rw [List.nil_append] at hread
    rw [hread, hskip, Unfinished.read]
    simp [hfinish]
  exact ⟨ns, by rw [Sheet.parse, hparse], hns⟩

/-- A value that is one string or one `url(...)` may hold any delimiters. -/
theorem isValueText_of_piece? {cs : List Char} (hne : cs ≠ []) (htrim : isTrimmed cs = true)
    (h : ∀ rest, Terminal.piece? (cs ++ ';' :: rest) = some (cs, ';' :: rest)) :
    IsValueText cs := by
  refine ⟨hne, htrim, fun rest => ?_⟩
  obtain ⟨c, cs', rfl⟩ := List.exists_cons_of_ne_nil hne
  have hurl : Terminal.url? (';' :: rest) = none := by
    unfold Terminal.url?
    split
    · next heq =>
      obtain ⟨rfl, -⟩ := List.cons.inj heq
      rfl
    · rfl
  have hpieces : Terminal.pieces (';' :: rest) = ([], ';' :: rest) := by
    rw [Terminal.pieces]
    split
    · rfl
    · next hsome => exact absurd hsome (by simp [Terminal.piece?, hurl, Terminal.isDelimiter])
  rw [List.cons_append, Terminal.splitValue?, if_neg (by simp [not_isBlank_of_isTrimmed htrim]),
    ← List.cons_append, h rest, Option.map_some]
  simp only [hpieces, List.append_nil]

/-- A tree with delimiters in its values. -/
def delimitersInValues : List Node :=
  [.atStatement "charset" "'x'" none,
    .atBlock "media" "" none
      [.declaration "--a" "url(b;c)" none,
        .rule "d > e" none [.declaration "f" "'\x7b;\x7d'" none]]]

theorem parse_toCss_delimitersInValues :
    IsPrintable delimitersInValues ∧
      ∃ parsed, Sheet.parse (Node.toCss delimitersInValues) none =
          .ok ⟨parsed, some (Node.toCss delimitersInValues), none⟩ ∧
        Node.forgetSources parsed = Node.forgetSources delimitersInValues := by
  have hurl : IsValueText "url(b;c)".toList :=
    isValueText_of_piece? (by decide) (by decide) fun _ => rfl
  have hquoted : IsValueText "'\x7b;\x7d'".toList :=
    isValueText_of_piece? (by decide) (by decide) fun _ => rfl
  have hprintable : IsPrintable delimitersInValues := by
    refine ⟨by decide, ⟨by decide, by decide⟩, ⟨by decide, by decide, ?_, ?_, trivial⟩, trivial⟩
    · exact ⟨by decide, hurl, fun _ => by decide⟩
    · exact ⟨by decide, by decide, ⟨by decide, hquoted, fun h => absurd h (by decide)⟩, trivial⟩
  exact ⟨hprintable, parse_toCss _ _ hprintable⟩

end FluidCss
