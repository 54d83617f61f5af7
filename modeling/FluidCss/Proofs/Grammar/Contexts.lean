import FluidCss.Proofs.Grammar.Boundary
import FluidCss.Proofs.Grammar.Formatting
import FluidCss.Proofs.Grammar.Layout

set_option autoImplicit false

/-! # Declarations in rules and in at-rules

In the body of a rule nothing but a declaration can start with a property name. In the block of an
at-rule a rule may stand as well, and whether a selector is there is asked first: it is if the first
delimiter is an opening brace, even if that stands in a string or in a `url(...)` of a value. So a
declaration is read alike in both places exactly if its value has no such brace
(`declaration_alike_iff`). -/

namespace FluidCss

open Text

/-- The text of a rule with one declaration. -/
def ruleText (prop value : String) : String := ".a \x7b " ++ prop ++ ": " ++ value ++ "; \x7d"

/-- The text of an at-rule with one declaration in its block. -/
def pageText (prop value : String) : String := "@page \x7b " ++ prop ++ ": " ++ value ++ "; \x7d"

namespace Node

/-- Whether nodes are one rule with the given declaration. -/
def areRuleOf (prop value : String) : List Node → Bool
  | [.rule _ _ [.declaration p v _]] => p == prop && v == value
  | _ => false

/-- Whether nodes are one at-rule `@page` with the given declaration. -/
def arePageOf (prop value : String) : List Node → Bool
  | [.atBlock "page" "" _ [.declaration p v _]] => p == prop && v == value
  | _ => false

variable {prop value : String} {nodes : List Node}

theorem areRuleOf_iff : areRuleOf prop value nodes = true ↔
    ∃ selector s s', nodes = [.rule selector s [.declaration prop value s']] := by
  constructor
  · intro h
    unfold areRuleOf at h
    split at h
    · next selector s p v s' =>
      simp only [Bool.and_eq_true, beq_iff_eq] at h
      exact ⟨selector, s, s', by rw [h.1, h.2]⟩
    · cases h
  · rintro ⟨selector, s, s', rfl⟩
    simp [areRuleOf]

theorem arePageOf_iff : arePageOf prop value nodes = true ↔
    ∃ s s', nodes = [.atBlock "page" "" s [.declaration prop value s']] := by
  constructor
  · intro h
    unfold arePageOf at h
    split at h
    · next s p v s' =>
      simp only [Bool.and_eq_true, beq_iff_eq] at h
      exact ⟨s, s', by rw [h.1, h.2]⟩
    · cases h
  · rintro ⟨s, s', rfl⟩
    simp [arePageOf]

end Node

/-! ## What is tried behind the brace -/

namespace Terminal

variable {prop value : List Char}

/-- A property name starts as a selector can. -/
theorem exists_cons_of_isPropertyText (h : isPropertyText prop = true) :
    ∃ c cs, prop = c :: cs ∧ (!isBlank c && isPlain c && c != '@' && c != '/') = true := by
  obtain ⟨c, cs, rfl, hstarts⟩ := starts_of_split? (t := .property)
    (beq_iff_eq.1 h : splitProperty? prop = some (prop, []))
  have hplain : isPlain c = true :=
    List.all_eq_true.1 (all_isPlain_of_isPropertyText h) c List.mem_cons_self
  have hpart : isNamePart c = true := by
    rcases hstarts with hc | rfl
    · exact isNamePart_of_isNameStart hc
    · rfl
  have hne : c ≠ '@' ∧ c ≠ '/' := by
    constructor <;> rintro rfl <;> exact absurd hpart (by decide)
  exact ⟨c, cs, rfl, by simp [not_isBlank_of_isNamePart hpart, hplain, hne]⟩

/-- A selector is found where a declaration starts if the first delimiter in the value is an opening
brace. -/
theorem exists_splitSelector?_declaration (hprop : isPropertyText prop = true)
    (hvalue : hasNoBlock value = false) (rest : List Char) :
    ∃ lexeme rest', splitSelector? (prop ++ ':' :: ' ' :: (value ++ ';' :: rest)) =
      some (lexeme, rest') := by
  obtain ⟨c, cs, rfl, hc⟩ := exists_cons_of_isPropertyText hprop
  have hnone : (c :: cs).find? isDelimiter = none := by
    rw [List.find?_eq_none]
    intro x hx
    simpa [isPlain] using List.all_eq_true.1 (all_isPlain_of_isPropertyText hprop) x hx
  have hbrace : value.find? isDelimiter = some '\x7b' := by simpa [hasNoBlock] using hvalue
  have hfind : (c :: (cs ++ ':' :: ' ' :: (value ++ ';' :: rest))).find? isDelimiter =
      some '\x7b' := by
    rw [← List.cons_append, List.find?_append, hnone, Option.none_or,
      List.find?_cons_of_neg (by decide), List.find?_cons_of_neg (by decide), List.find?_append,
      hbrace, Option.some_or]
  cases hselector : splitSelector? (c :: (cs ++ ':' :: ' ' :: (value ++ ';' :: rest))) with
  | none => exact absurd hfind ((splitSelector?_cons_eq_none_iff hc).1 hselector)
  | some cut => exact ⟨cut.1, cut.2, hselector⟩

end Terminal

namespace Phrase

variable {t keyword opening closing : Token} {ts more : List Token}

/-- A block whose first token is a selector starts with a rule. -/
theorem exists_rule_of_selector {body : List Phrase} (hbody : areValid .block body = true)
    (hclosing : closing.terminal = .closeBrace)
    (h : tokensAll body ++ closing :: more = t :: ts) (ht : t.terminal = .selector) :
    ∃ selector s ns rest, nodesAll body = .rule selector s ns :: rest := by
  cases body with
  | nil =>
    obtain ⟨rfl, -⟩ := List.cons.inj h
    exact absurd hclosing (by simp [ht])
  | cons p ps =>
    rw [areValid, Bool.and_eq_true] at hbody
    have hp := hbody.1
    cases p with
    | rule selector opening body closing => exact ⟨_, _, _, _, rfl⟩
    | _ =>
      obtain ⟨rfl, -⟩ := List.cons.inj h
      simp [isValid, ht] at hp

/-- A sheet that starts with a keyword, a brace and a selector starts with an at-rule whose block
starts with a rule. -/
theorem exists_rule_of_block {ps : List Phrase} (hps : areValid .sheet ps = true)
    (h : tokensAll ps = keyword :: opening :: t :: ts) (hkeyword : keyword.terminal = .atKeyword)
    (hopening : opening.terminal = .openBrace) (ht : t.terminal = .selector) :
    ∃ name params s selector s' ns rest rest', nodesAll ps =
      .atBlock name params s (.rule selector s' ns :: rest) :: rest' := by
  cases ps with
  | nil => cases h
  | cons p ps =>
    rw [areValid, Bool.and_eq_true] at hps
    have hp := hps.1
    cases p with
    | declaration name colon value => exact absurd hp (by simp [isValid])
    | semicolon mark => exact absurd hp (by simp [isValid])
    | rule selector opening body closing =>
      obtain ⟨rfl, -⟩ := List.cons.inj h
      simp [isValid, hkeyword] at hp
    | atStatement keyword params ending =>
      simp only [isValid, Bool.and_eq_true, beq_iff_eq] at hp
      cases params with
      | none =>
        obtain ⟨rfl, -⟩ := List.cons.inj (List.cons.inj h).2
        exact absurd hopening (by simp [hp.2])
      | some params =>
        obtain ⟨rfl, -⟩ := List.cons.inj (List.cons.inj h).2
        have hparams : params.terminal = .atParams := by simpa using hp.1.2
        exact absurd hopening (by simp [hparams])
    | atBlock keyword params opening' body closing =>
      simp only [isValid, Bool.and_eq_true, beq_iff_eq] at hp
      cases params with
      | none =>
        have hrest : (tokensAll body ++ [closing]) ++ tokensAll ps = t :: ts :=
          (List.cons.inj (List.cons.inj h).2).2
        rw [List.append_assoc] at hrest
        obtain ⟨selector, s, ns, rest, hnodes⟩ :=
          exists_rule_of_selector hp.1.2 hp.2 hrest ht
        exact ⟨_, _, _, selector, s, ns, rest, nodesAll ps, by rw [nodesAll, nodes, hnodes]; rfl⟩
      | some params =>
        obtain ⟨rfl, -⟩ := List.cons.inj (List.cons.inj h).2
        have hparams : params.terminal = .atParams := by simpa using hp.1.1.1.2
        exact absurd hopening (by simp [hparams])

end Phrase

namespace Unfinished

/-- If a selector is found at the front of the block of an at-rule that starts a sheet, the block
starts with a rule. -/
theorem exists_rule_of_read {name : String} {source here last : Position} {cs : List Char}
    {lexeme rest : List Char} {nodes : List Node}
    (hfirst : Terminal.first? (empty.openBlock (.atRule name "") source).terminals cs =
      some (.selector, lexeme, rest))
    (hread : (empty.openBlock (.atRule name "") source).read here last cs = .ok nodes) :
    ∃ name params s selector s' ns rest rest', nodes =
      .atBlock name params s (.rule selector s' ns :: rest) :: rest' := by
  let before : List Token :=
    [⟨.atKeyword, '@' :: name.toList, source⟩, ⟨.openBrace, ['\x7b'], source⟩]
  have hbefore : empty.steps before = some (empty.openBlock (.atRule name "") source) := by
    simp [before, steps, step, empty, inRule, openBlock]
  obtain ⟨ts, hcut, v, hv, hnodes⟩ :=
    (read_eq_ok_iff _ here last cs nodes before hbefore (by rintro _ ⟨⟩)).1 hread
  have follows : CanFollow (before.map (·.terminal)) .selector :=
    (canFollow_iff hbefore ⟨.selector, lexeme, here⟩).2 ⟨_, rfl⟩
  obtain ⟨ts', rfl, -⟩ := (Cut.token_iff (found_of_read hbefore hfirst) follows).1 hcut
  have hsteps : empty.steps (before ++ ⟨.selector, lexeme, here⟩ :: ts') = some v := by
    rw [steps_append, hbefore, Option.bind_some, hv]
  obtain ⟨ps, hps, htokens, rfl⟩ := Partial.exists_phrases hsteps hnodes
  exact Phrase.exists_rule_of_block hps htokens rfl rfl rfl

end Unfinished

/-! ## Both texts -/

/-- What is read of `@page` up to its first declaration. -/
theorem exists_read_page {prop : String} (hprop : isPropertyText prop.toList = true)
    (value : String) :
    ∃ here last, Unfinished.empty.read .start .start (pageText prop value).toList =
      (Unfinished.empty.openBlock (.atRule "page" "") .start).read here last
        (prop.toList ++ ':' :: ' ' :: (value.toList ++ ';' :: [' ', '\x7d'])) := by
  obtain ⟨c, cs, hcs, hc⟩ := Terminal.exists_cons_of_isPropertyText hprop
  have hgap : ∀ d, (prop.toList ++ ':' :: ' ' :: (value.toList ++ ';' :: [' ', '\x7d'])).head? =
      some d → Terminal.isGap d = false := by
    rintro d hd
    rw [hcs] at hd
    obtain rfl : c = d := by simpa using hd
    by_contra h
    have hblank := isBlank_of_isGap (by simpa using h)
    simp [hblank] at hc
  have htext : (pageText prop value).toList = atHeader "page" "" ++ ' ' :: '\x7b' ::
      ([' '] ++ (prop.toList ++ ':' :: ' ' :: (value.toList ++ ';' :: [' ', '\x7d']))) := by
    simp [pageText, atHeader]
  have hparams : IsParamsBefore "".toList (' ' :: '\x7b' :: ([' '] ++ (prop.toList ++
      ':' :: ' ' :: (value.toList ++ ';' :: [' ', '\x7d'])))) :=
    ⟨rfl, rfl, Terminal.splitComment?_eq_none (by simp)⟩
  obtain ⟨h₁, l₁, hopen⟩ := Unfinished.read_atBlock .start .start Unfinished.ready_empty
    (by decide)
    (show isKeywordText "page".toList = true by decide) hparams
  obtain ⟨h₂, hskip⟩ := Unfinished.read_gap _ h₁ l₁ [' '] _ rfl hgap
  exact ⟨h₂, l₁, by rw [htext, hopen, hskip]⟩

/-- **Declarations are read alike in rules and in at-rules** exactly if the first delimiter of the
value is no opening brace. -/
theorem declaration_alike_iff {prop value : String} {name : Option String}
    (h : ∃ sheet, Sheet.parse (ruleText prop value) name = .ok sheet ∧
      Node.areRuleOf prop value sheet.nodes = true) :
    (∃ sheet, Sheet.parse (pageText prop value) name = .ok sheet ∧
      Node.arePageOf prop value sheet.nodes = true) ↔ hasNoBlock value.toList = true := by
  obtain ⟨sheet, hsheet, hrule⟩ := h
  obtain ⟨selector, s, s', hnodes⟩ := Node.areRuleOf_iff.1 hrule
  obtain ⟨-, hreadable⟩ := isReadableSheet_of_parse hsheet (by rw [hnodes]; rfl)
  rw [hnodes] at hreadable
  obtain ⟨-, -, ⟨hprop, ⟨hne, htrim, hsplit⟩, -⟩, -⟩ := hreadable
  obtain ⟨h₁, l₁, hpage⟩ := exists_read_page hprop value
  constructor
  · rintro ⟨sheet, hsheet, hpageOf⟩
    obtain ⟨s, s', hnodes⟩ := Node.arePageOf_iff.1 hpageOf
    obtain ⟨hread, -, -⟩ := (parse_eq_ok_iff _ _ _).1 hsheet
    rw [Sheet.parseNodes, hpage] at hread
    by_contra hbrace
    obtain ⟨lexeme, rest, hselector⟩ :=
      Terminal.exists_splitSelector?_declaration hprop (by simpa using hbrace) [' ', '\x7d']
    obtain ⟨_, _, _, _, _, _, _, _, hnodes'⟩ :=
      Unfinished.exists_rule_of_read (Terminal.first?_cons hselector) hread
    rw [hnodes] at hnodes'
    simp at hnodes'
  · intro hbrace
    have hvalue : IsValueBefore value.toList [' ', '\x7d'] := by
      obtain ⟨hhead, hpieced⟩ := Terminal.splitValue?_eq_some_iff.1 hsplit
      exact ⟨hne, htrim, Terminal.splitValue?_eq_some_iff.2 ⟨hhead,
        hpieced.transfer (by simp) (List.append_nil _).symm (by simp)⟩⟩
    obtain ⟨h₂, l₂, hdeclaration⟩ := Unfinished.read_declaration h₁ l₁
      (Unfinished.ready_openBlock .empty (.atRule "page" "") .start) (by decide) hprop hvalue
      fun _ => hbrace
    obtain ⟨h₃, l₃, hclosing⟩ := Unfinished.read_closing (u := .empty) h₂ l₂ (.atRule "page" "")
      .start [.declaration prop value (some h₁)] (by decide)
      (show [' '].all Terminal.isGap = true from rfl) []
    have hnodes : Sheet.parseNodes (pageText prop value).toList =
        .ok [.atBlock "page" "" (some .start) [.declaration prop value (some h₁)]] := by
      rw [Sheet.parseNodes, hpage, hdeclaration]
      refine hclosing.trans ?_
      rw [Unfinished.read, if_pos List.isEmpty_nil]
      rfl
    refine ⟨_, (parse_eq_ok_iff _ _ ⟨_, _, name⟩).2 ⟨hnodes, rfl, rfl⟩, ?_⟩
    exact Node.arePageOf_iff.2 ⟨_, _, rfl⟩

/-- A value with delimiters of all kinds, none of which ends it, is read alike in both places. -/
theorem declaration_alike_iff_quotedDelimiters :
    (∃ sheet, Sheet.parse (pageText "content" "';\x7b\x7d' url(b;c\x7d)") none = .ok sheet ∧
      Node.arePageOf "content" "';\x7b\x7d' url(b;c\x7d)" sheet.nodes = true) :=
  (declaration_alike_iff (by decide +kernel)).2 (by decide)

/-- A value that starts with an opening brace in quotes is read in a rule and refused in an
at-rule. -/
theorem declaration_not_alike_quotedBrace :
    (∃ sheet, Sheet.parse (ruleText "content" "\x22\x7b\x22") none = .ok sheet ∧
      Node.areRuleOf "content" "\x22\x7b\x22" sheet.nodes = true) ∧
      ∃ e, Sheet.parse (pageText "content" "\x22\x7b\x22") none = .error e := by
  decide +kernel

end FluidCss
