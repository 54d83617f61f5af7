import FluidCss.Proofs.Grammar.Derivation

set_option autoImplicit false

/-! # Which kinds of tokens can follow

A token can be taken in exactly if the tokens before it, followed by it, are the front of a sheet.
One half needs that every partial derivation can be completed, the other that the texts of the
tokens make no difference to which tokens are taken in. -/

namespace FluidCss

open Text

/-! ## Completing a derivation -/

/-- A token of a kind, without a text. -/
def Terminal.bare (t : Terminal) : Token := ⟨t, [], .start⟩

namespace Partial

/-- The phrase at hand can be finished. -/
theorem exists_phrase_of_started {place : Place} {pending : Pending} {ts : List Token}
    (h : Started place pending ts) :
    ∃ ps, Phrase.areValid place ps = true ∧ ts <+: Phrase.tokensAll ps := by
  cases pending with
  | beginning => exact ⟨[], rfl, by simp [h.1]⟩
  | ruleBody => exact ⟨[], rfl, by simp [h.1]⟩
  | item => exact ⟨[], rfl, by simp [show ts = [] from h]⟩
  | selector selector source =>
    obtain ⟨s, rfl, outside, kind, -⟩ := h
    refine ⟨[.rule s Terminal.openBrace.bare [] Terminal.closeBrace.bare], ?_, ?_⟩
    · simp [Phrase.areValid, Phrase.isValid, outside, kind, Terminal.bare]
    · simp [Phrase.tokensAll, Phrase.tokens]
  | property prop source =>
    obtain ⟨s, rfl, inside, kind, -⟩ := h
    refine ⟨[.declaration s Terminal.colon.bare Terminal.value.bare], ?_, ?_⟩
    · simp [Phrase.areValid, Phrase.isValid, inside, kind, Terminal.bare]
    · simp [Phrase.tokensAll, Phrase.tokens]
  | value prop source =>
    obtain ⟨s, c, rfl, inside, kind, colon, -⟩ := h
    refine ⟨[.declaration s c Terminal.value.bare], ?_, ?_⟩
    · simp [Phrase.areValid, Phrase.isValid, inside, kind, colon, Terminal.bare]
    · simp [Phrase.tokensAll, Phrase.tokens]
  | keyword name source =>
    obtain ⟨s, rfl, outside, kind, -⟩ := h
    refine ⟨[.atStatement s none Terminal.semicolon.bare], ?_, ?_⟩
    · simp [Phrase.areValid, Phrase.isValid, outside, kind, Terminal.bare]
    · simp [Phrase.tokensAll, Phrase.tokens]
  | params name params source =>
    obtain ⟨s, p, rfl, outside, kind, params, -⟩ := h
    refine ⟨[.atStatement s (some p) Terminal.semicolon.bare], ?_, ?_⟩
    · simp [Phrase.areValid, Phrase.isValid, outside, kind, params, Terminal.bare]
    · simp [Phrase.tokensAll, Phrase.tokens]

/-- Open blocks can be closed, one after the other. -/
theorem exists_sheet_of_layers (layers : List Layer) (ps : List Phrase)
    (hl : Layer.AreValid layers) (hp : Phrase.areValid (Layer.place layers) ps = true) :
    ∃ qs, Phrase.areValid .sheet qs = true ∧
      Layer.tokens layers ++ Phrase.tokensAll ps <+: Phrase.tokensAll qs := by
  induction layers generalizing ps with
  | nil => exact ⟨ps, hp, by simp [Layer.tokens]⟩
  | cons l outer ih =>
    obtain ⟨opened, outside, before, rest⟩ := hl
    have hphrase := l.opening.isValid_phrase ps Terminal.closeBrace.bare _ outside opened hp rfl
    obtain ⟨qs, hqs, hprefix⟩ := ih (l.before ++ [l.opening.phrase ps Terminal.closeBrace.bare])
      rest (by simp [Phrase.areValid_append, before, Phrase.areValid, hphrase])
    refine ⟨qs, hqs, List.IsPrefix.trans ?_ hprefix⟩
    simp [Layer.tokens, Phrase.tokensAll_append, Phrase.tokensAll, Opening.tokens_phrase,
      List.prefix_append_right_inj]

/-- **Every partial derivation is the front of a derivation.** -/
theorem exists_sheet {d : Partial} {u : Unfinished} (h : d.Describes u) :
    ∃ ps, Phrase.areValid .sheet ps = true ∧ d.tokens <+: Phrase.tokensAll ps := by
  obtain ⟨qs, hqs, hstarted⟩ := exists_phrase_of_started h.started
  obtain ⟨ps, hps, hprefix⟩ := exists_sheet_of_layers d.layers (d.phrases ++ qs) h.layers_valid
    (by simp [Phrase.areValid_append, h.phrases_valid, hqs])
  refine ⟨ps, hps, List.IsPrefix.trans ?_ hprefix⟩
  rw [tokens, Phrase.tokensAll_append, List.prefix_append_right_inj,
    List.prefix_append_right_inj]
  exact hstarted

end Partial

/-! ## Texts make no difference -/

/-- The token without its text and its place. -/
def Token.bare (t : Token) : Token := t.terminal.bare

/-- The header without its texts. -/
def Header.bare : Header → Header
  | rule _ => .rule ""
  | atRule .. => .atRule "" ""

@[simp]
theorem Header.bare_rule (selector : String) : (rule selector).bare = rule "" := rfl

@[simp]
theorem Header.bare_atRule (name params : String) : (atRule name params).bare = atRule "" "" := rfl

@[simp]
theorem Header.bare_bare (h : Header) : h.bare.bare = h.bare := by cases h <;> rfl

/-- The statement at hand without its texts. -/
def Pending.bare : Pending → Pending
  | beginning => .beginning
  | ruleBody => .ruleBody
  | item => .item
  | selector .. => .selector "" .start
  | property .. => .property "" .start
  | value .. => .value "" .start
  | keyword .. => .keyword "" .start
  | params .. => .params "" "" .start

namespace Unfinished

/-- The sheet without its nodes and texts: what kinds of blocks are open and how far the statement
at hand has got. -/
def outline (u : Unfinished) : Unfinished :=
  ⟨[], u.blocks.map fun b => ⟨b.header.bare, .start, []⟩, u.pending.bare⟩

/-- Whether a token is taken in, and how, hangs on kinds alone. -/
theorem step_outline (u : Unfinished) (t : Token) :
    (u.outline.step t.bare).map outline = (u.step t).map outline := by
  obtain ⟨nodes, blocks, pending⟩ := u
  obtain ⟨terminal, lexeme, position⟩ := t
  -- only the innermost block is looked at, so its header is told apart and no other
  rcases blocks with _ | ⟨⟨_ | _, _, _⟩, outer⟩ <;> cases pending <;> cases terminal <;>
    simp [step, outline, Token.bare, Terminal.bare, inRule, atTop, skipSemicolon?, closeBlock?,
      openBlock, push, Pending.bare, Function.comp_def]

/-- Tokens of the same kinds keep outlines the same. -/
theorem step_alike {u v u' : Unfinished} {t t' : Token} (h : u.outline = v.outline)
    (kind : t.terminal = t'.terminal) (hs : u.step t = some u') :
    ∃ v', v.step t' = some v' ∧ u'.outline = v'.outline := by
  have hu := u.step_outline t
  have hv := v.step_outline t'
  rw [h, Token.bare, kind, ← Token.bare, hv, hs, Option.map_some] at hu
  obtain ⟨v', hv', heq⟩ := Option.map_eq_some_iff.1 hu
  exact ⟨v', hv', heq.symm⟩

theorem steps_alike {u v u' : Unfinished} {ts ts' : List Token} (h : u.outline = v.outline)
    (kinds : ts.map (·.terminal) = ts'.map (·.terminal)) (hs : u.steps ts = some u') :
    ∃ v', v.steps ts' = some v' ∧ u'.outline = v'.outline := by
  induction ts generalizing u v ts' with
  | nil =>
    obtain rfl := List.map_eq_nil_iff.1 kinds.symm
    obtain rfl := Option.some.inj hs
    exact ⟨v, rfl, h⟩
  | cons t ts ih =>
    obtain ⟨t', rest, rfl, ht, hrest⟩ := List.map_eq_cons_iff.1 kinds.symm
    obtain ⟨w, hw, hs⟩ := Option.bind_eq_some_iff.1 hs
    obtain ⟨w', hw', hout⟩ := step_alike h ht.symm hw
    obtain ⟨v', hv', hout'⟩ := ih hout hrest.symm hs
    exact ⟨v', by rw [steps, hw', Option.bind_some, hv'], hout'⟩

/-! ## What can follow -/

/-- **A kind can follow the tokens taken in exactly if a token of it can be taken in.** -/
theorem canFollow_iff {u : Unfinished} {ts : List Token} (h : empty.steps ts = some u)
    (t : Token) : CanFollow (ts.map (·.terminal)) t.terminal ↔ ∃ v, u.step t = some v := by
  constructor
  · rintro ⟨ps, valid, rest, hrest⟩
    obtain ⟨v, hv, -⟩ := steps_sheet ps valid
    -- the tokens of the sheet are cut where the kinds in front of `t` end
    have hkinds : (Phrase.tokensAll ps).map (·.terminal) =
        ts.map (·.terminal) ++ (t.terminal :: rest) := by simpa using hrest.symm
    obtain ⟨ts', r, hsplit, hts', hr⟩ := List.map_eq_append_iff.1 hkinds
    obtain ⟨t', r', rfl, ht', -⟩ := List.map_eq_cons_iff.1 hr
    rw [hsplit, steps_append] at hv
    obtain ⟨u', hu', hv⟩ := Option.bind_eq_some_iff.1 hv
    obtain ⟨w, hw, -⟩ := Option.bind_eq_some_iff.1 hv
    obtain ⟨u'', hu'', hout⟩ := steps_alike rfl hts' hu'
    obtain rfl : u = u'' := Option.some.inj (h.symm.trans hu'')
    obtain ⟨v', hv', -⟩ := step_alike hout ht' hw
    exact ⟨v', hv'⟩
  · rintro ⟨v, hv⟩
    have hsteps : empty.steps (ts ++ [t]) = some v := by
      rw [steps_append, h, Option.bind_some, steps, hv]
      rfl
    obtain ⟨d, hd, htok⟩ := Partial.exists_describes hsteps
    obtain ⟨ps, valid, hprefix⟩ := Partial.exists_sheet hd
    refine ⟨ps, valid, ?_⟩
    rw [htok] at hprefix
    simpa using hprefix.map (·.terminal)

/-- Tokens that are left out are in no phrase. -/
theorem not_isSkipped_of_step {u v : Unfinished} {t : Token} (h : u.step t = some v) :
    t.terminal.isSkipped = false := by
  cases takes_of_step h <;> simp_all [Terminal.isSkipped]

theorem not_isSkipped_of_steps {u v : Unfinished} {ts : List Token} (h : u.steps ts = some v) :
    ∀ t ∈ ts, t.terminal.isSkipped = false := by
  induction ts generalizing u with
  | nil => simp
  | cons t ts ih =>
    obtain ⟨w, hw, hs⟩ := Option.bind_eq_some_iff.1 h
    intro t' ht'
    rcases List.mem_cons.1 ht' with rfl | hmem
    · exact not_isSkipped_of_step hw
    · exact ih hs t' hmem

end Unfinished

/-- Nothing that is left out can follow. -/
theorem CanFollow.not_isSkipped {before : List Terminal} {t : Terminal} (h : CanFollow before t) :
    t.isSkipped = false := by
  obtain ⟨ps, valid, hprefix⟩ := h
  obtain ⟨v, hv, -⟩ := Unfinished.steps_sheet ps valid
  have hmem : t ∈ (Phrase.tokensAll ps).map (·.terminal) := hprefix.subset (by simp)
  obtain ⟨t', ht', rfl⟩ := List.mem_map.1 hmem
  exact Unfinished.not_isSkipped_of_steps hv t' ht'

end FluidCss
