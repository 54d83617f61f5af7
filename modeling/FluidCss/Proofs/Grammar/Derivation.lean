import FluidCss.Grammar.Phrase

set_option autoImplicit false

/-! # Derivations behind a sheet that is being read

Every token that is taken in belongs to a phrase, or to a phrase that has been started. A `Partial`
is what there is of a derivation in the middle of a sheet: the phrases that are finished, the blocks
that are open, and the tokens of the phrase at hand. The main statements are that taking in tokens
and deriving them are the same thing: `exists_describes` gives the derivation behind any tokens
taken in, `steps_tokensAll` takes in the tokens of any phrases, and `tokensAll_injective` says that
no tokens have two derivations. -/

namespace FluidCss

open Text

namespace Unfinished

/-- The sheet after more tokens, unless one of them cannot stand where it does. -/
def steps (u : Unfinished) : List Token → Option Unfinished
  | [] => some u
  | t :: ts => (u.step t).bind fun v => v.steps ts

theorem steps_append (u : Unfinished) (ts ts' : List Token) :
    u.steps (ts ++ ts') = (u.steps ts).bind fun v => v.steps ts' := by
  induction ts generalizing u with
  | nil => rfl
  | cons t ts ih =>
    simp only [List.cons_append, steps, Option.bind_assoc]
    congr 1
    exact funext ih

/-- The place that the innermost open block is for its phrases. -/
def place (u : Unfinished) : Place :=
  match u.blocks with
  | [] => .sheet
  | ⟨.rule _, _, _⟩ :: _ => .rule
  | ⟨.atRule .., _, _⟩ :: _ => .block

theorem inRule_iff (u : Unfinished) : u.inRule = true ↔ u.place = .rule := by
  rcases u with ⟨_, _ | ⟨⟨header, _, _⟩, _⟩, _⟩
  · simp [inRule, place]
  · cases header <;> simp [inRule, place]

theorem atTop_iff (u : Unfinished) : u.atTop = true ↔ u.place = .sheet := by
  rcases u with ⟨_, _ | ⟨⟨header, _, _⟩, _⟩, _⟩
  · simp [atTop, place]
  · cases header <;> simp [atTop, place]

/-- Whether a phrase can be started: nothing of another one is at hand. -/
def IsBetween (u : Unfinished) : Prop :=
  u.pending = .item ∨ (u.pending = .beginning ∧ u.place = .sheet) ∨
    (u.pending = .ruleBody ∧ u.place = .rule)

/-- All the ways in which a token is taken in. -/
inductive Takes (u : Unfinished) (t : Token) : Unfinished → Prop where
  | selector (between : u.pending = .beginning ∨ u.pending = .item)
      (kind : t.terminal = .selector) (outside : u.place ≠ .rule) :
      Takes u t { u with pending := .selector (strip (String.ofList t.lexeme)) t.position }
  | keyword (between : u.pending = .beginning ∨ u.pending = .item)
      (kind : t.terminal = .atKeyword) (outside : u.place ≠ .rule) :
      Takes u t { u with pending := .keyword (String.ofList t.lexeme.tail) t.position }
  | property (between : u.pending = .ruleBody ∨ u.pending = .item)
      (kind : t.terminal = .property) (inside : u.place ≠ .sheet) :
      Takes u t { u with pending := .property (String.ofList t.lexeme) t.position }
  | skipped (between : u.pending = .ruleBody ∨ u.pending = .item)
      (kind : t.terminal = .semicolon) (inside : u.place ≠ .sheet) :
      Takes u t { u with pending := if u.inRule then .ruleBody else .item }
  | closed (between : u.pending = .ruleBody ∨ u.pending = .item)
      (kind : t.terminal = .closeBrace) (b : OpenBlock) (outer : List OpenBlock)
      (blocks : u.blocks = b :: outer) :
      Takes u t ⟨b.header.node b.source u.nodes.reverse :: b.before, outer, .item⟩
  | openedRule (selector : String) (source : Position)
      (started : u.pending = .selector selector source) (kind : t.terminal = .openBrace) :
      Takes u t (u.openBlock (.rule selector) source)
  | colon (prop : String) (source : Position) (started : u.pending = .property prop source)
      (kind : t.terminal = .colon) : Takes u t { u with pending := .value prop source }
  | value (prop : String) (source : Position) (started : u.pending = .value prop source)
      (kind : t.terminal = .value) :
      Takes u t (u.push (.declaration prop (strip (String.ofList t.lexeme)) (some source)))
  | params (name : String) (source : Position) (started : u.pending = .keyword name source)
      (kind : t.terminal = .atParams) :
      Takes u t { u with pending := .params name (strip (String.ofList t.lexeme)) source }
  | openedBare (name : String) (source : Position) (started : u.pending = .keyword name source)
      (kind : t.terminal = .openBrace) : Takes u t (u.openBlock (.atRule name "") source)
  | endedBare (name : String) (source : Position) (started : u.pending = .keyword name source)
      (kind : t.terminal = .semicolon) : Takes u t (u.push (.atStatement name "" (some source)))
  | opened (name params : String) (source : Position)
      (started : u.pending = .params name params source) (kind : t.terminal = .openBrace) :
      Takes u t (u.openBlock (.atRule name params) source)
  | ended (name params : String) (source : Position)
      (started : u.pending = .params name params source) (kind : t.terminal = .semicolon) :
      Takes u t (u.push (.atStatement name params (some source)))

theorem place_ne_rule_iff (u : Unfinished) : u.place ≠ .rule ↔ u.inRule = false := by
  rw [ne_eq, ← inRule_iff, Bool.not_eq_true]

theorem place_ne_sheet_iff (u : Unfinished) : u.place ≠ .sheet ↔ u.atTop = false := by
  rw [ne_eq, ← atTop_iff, Bool.not_eq_true]

theorem place_ne_sheet_of_blocks {u : Unfinished} {b : OpenBlock} {outer : List OpenBlock}
    (h : u.blocks = b :: outer) : u.place ≠ .sheet := by
  rw [place_ne_sheet_iff, atTop, h]
  rfl

/-- Whatever a token does, it does in one of these ways. -/
theorem takes_of_step {u v : Unfinished} {t : Token} (h : u.step t = some v) : Takes u t v := by
  unfold step at h
  dsimp only at h
  split at h
  case h_1 between kind | h_2 between kind =>
    split at h
    · exact absurd h (by simp)
    · next outside =>
      obtain rfl := Option.some.inj h
      exact .selector (by simp [between]) kind (by rwa [inRule_iff] at outside)
  case h_3 between kind | h_4 between kind =>
    split at h
    · exact absurd h (by simp)
    · next outside =>
      obtain rfl := Option.some.inj h
      exact .keyword (by simp [between]) kind (by rwa [inRule_iff] at outside)
  case h_5 between kind | h_6 between kind =>
    split at h
    · exact absurd h (by simp)
    · next inside =>
      obtain rfl := Option.some.inj h
      exact .property (by simp [between]) kind (by rwa [atTop_iff] at inside)
  case h_7 between kind | h_8 between kind =>
    unfold skipSemicolon? at h
    split at h
    · exact absurd h (by simp)
    · next inside =>
      obtain rfl := Option.some.inj h
      exact .skipped (by simp [between]) kind (by rwa [atTop_iff] at inside)
  case h_9 between kind | h_10 between kind =>
    unfold closeBlock? at h
    split at h
    · exact absurd h (by simp)
    · next blocks =>
      obtain rfl := Option.some.inj h
      exact .closed (by simp [between]) kind _ _ blocks
  case h_11 started kind => exact Option.some.inj h ▸ .openedRule _ _ started kind
  case h_12 started kind => exact Option.some.inj h ▸ .colon _ _ started kind
  case h_13 started kind => exact Option.some.inj h ▸ .value _ _ started kind
  case h_14 started kind => exact Option.some.inj h ▸ .params _ _ started kind
  case h_15 started kind => exact Option.some.inj h ▸ .openedBare _ _ started kind
  case h_16 started kind => exact Option.some.inj h ▸ .endedBare _ _ started kind
  case h_17 started kind => exact Option.some.inj h ▸ .opened _ _ _ started kind
  case h_18 started kind => exact Option.some.inj h ▸ .ended _ _ _ started kind
  case h_19 => exact absurd h (by simp)

/-- And every one of these ways is open. -/
theorem step_of_takes {u v : Unfinished} {t : Token} (h : Takes u t v) : u.step t = some v := by
  unfold step
  dsimp only
  cases h with
  | selector between kind outside =>
    rcases between with between | between <;>
      simp [between, kind, (place_ne_rule_iff u).1 outside]
  | keyword between kind outside =>
    rcases between with between | between <;>
      simp [between, kind, (place_ne_rule_iff u).1 outside]
  | property between kind inside =>
    rcases between with between | between <;>
      simp [between, kind, (place_ne_sheet_iff u).1 inside]
  | skipped between kind inside =>
    rcases between with between | between <;>
      simp [between, kind, skipSemicolon?, (place_ne_sheet_iff u).1 inside]
  | closed between kind b outer blocks =>
    rcases between with between | between <;> simp [between, kind, closeBlock?, blocks]
  | openedRule _ _ started kind => simp [started, kind]
  | colon _ _ started kind => simp [started, kind]
  | value _ _ started kind => simp [started, kind]
  | params _ _ started kind => simp [started, kind]
  | openedBare _ _ started kind => simp [started, kind]
  | endedBare _ _ started kind => simp [started, kind]
  | opened _ _ _ started kind => simp [started, kind]
  | ended _ _ _ started kind => simp [started, kind]

end Unfinished

/-! ## Partial derivations -/

/-- The header of a block with its opening brace. -/
inductive Opening where
  | rule (selector mark : Token)
  | atRule (keyword : Token) (params : Option Token) (mark : Token)

namespace Opening

/-- The tokens up to and with the opening brace. -/
def tokens : Opening → List Token
  | rule selector mark => [selector, mark]
  | atRule keyword params mark => keyword :: (params.toList ++ [mark])

/-- The place that the block is for its phrases. -/
def place : Opening → Place
  | rule .. => .rule
  | atRule .. => .block

/-- The header without its tokens. -/
def header : Opening → Header
  | rule selector _ => .rule (strip (String.ofList selector.lexeme))
  | atRule keyword params _ =>
    .atRule (String.ofList keyword.lexeme.tail) (Phrase.paramsText params)

/-- Where the header starts. -/
def source : Opening → Position
  | rule selector _ => selector.position
  | atRule keyword _ _ => keyword.position

/-- Whether the tokens are of the kinds that the grammar asks for. -/
def isValid : Opening → Bool
  | rule selector mark => selector.terminal == .selector && mark.terminal == .openBrace
  | atRule keyword params mark =>
    keyword.terminal == .atKeyword && params.all (·.terminal == .atParams) &&
      mark.terminal == .openBrace

/-- The phrase of a block that is closed. -/
def phrase (o : Opening) (body : List Phrase) (closing : Token) : Phrase :=
  match o with
  | rule selector mark => .rule selector mark body closing
  | atRule keyword params mark => .atBlock keyword params mark body closing

theorem tokens_phrase (o : Opening) (body : List Phrase) (closing : Token) :
    (o.phrase body closing).tokens = o.tokens ++ (Phrase.tokensAll body ++ [closing]) := by
  cases o <;> simp [phrase, tokens, Phrase.tokens]

theorem nodes_phrase (o : Opening) (body : List Phrase) (closing : Token) :
    (o.phrase body closing).nodes = [o.header.node o.source (Phrase.nodesAll body)] := by
  cases o <;> rfl

theorem isValid_phrase (o : Opening) (body : List Phrase) (closing : Token) (outer : Place)
    (outside : outer ≠ .rule) (opened : o.isValid = true)
    (inside : Phrase.areValid o.place body = true) (closed : closing.terminal = .closeBrace) :
    (o.phrase body closing).isValid outer = true := by
  cases o <;> simp_all [phrase, isValid, place, Phrase.isValid]

end Opening

/-- An open block, with the phrases that stand before it in the block around it. -/
structure Layer where
  before : List Phrase
  opening : Opening

namespace Layer

/-- The place that the innermost of some open blocks is for its phrases. -/
def place : List Layer → Place
  | [] => .sheet
  | l :: _ => l.opening.place

/-- The tokens from the start of the sheet to the innermost opening brace. -/
def tokens : List Layer → List Token
  | [] => []
  | l :: outer => tokens outer ++ (Phrase.tokensAll l.before ++ l.opening.tokens)

/-- The open block without its tokens. -/
def block (l : Layer) : OpenBlock :=
  ⟨l.opening.header, l.opening.source, (Phrase.nodesAll l.before).reverse⟩

/-- Whether the open blocks are made as the grammar says. -/
def AreValid : List Layer → Prop
  | [] => True
  | l :: outer =>
    l.opening.isValid = true ∧ place outer ≠ .rule ∧
      Phrase.areValid (place outer) l.before = true ∧ AreValid outer

end Layer

/-- What there is of a derivation in the middle of a sheet: the phrases that are finished in the
innermost open block, the open blocks, the innermost one first, and the tokens of the phrase at
hand. -/
structure Partial where
  phrases : List Phrase
  layers : List Layer
  started : List Token

/-- All tokens of the sheet so far. -/
def Partial.tokens (d : Partial) : List Token :=
  Layer.tokens d.layers ++ (Phrase.tokensAll d.phrases ++ d.started)

/-- Whether the tokens of the phrase at hand are those of which `Pending` tells the meaning. -/
def Started (place : Place) (pending : Pending) (ts : List Token) : Prop :=
  match pending with
  | .beginning => ts = [] ∧ place = .sheet
  | .ruleBody => ts = [] ∧ place = .rule
  | .item => ts = []
  | .selector selector source => ∃ s, ts = [s] ∧ place ≠ .rule ∧ s.terminal = .selector ∧
      strip (String.ofList s.lexeme) = selector ∧ s.position = source
  | .property prop source => ∃ s, ts = [s] ∧ place ≠ .sheet ∧ s.terminal = .property ∧
      String.ofList s.lexeme = prop ∧ s.position = source
  | .value prop source => ∃ s c, ts = [s, c] ∧ place ≠ .sheet ∧ s.terminal = .property ∧
      c.terminal = .colon ∧ String.ofList s.lexeme = prop ∧ s.position = source
  | .keyword name source => ∃ s, ts = [s] ∧ place ≠ .rule ∧ s.terminal = .atKeyword ∧
      String.ofList s.lexeme.tail = name ∧ s.position = source
  | .params name params source => ∃ s p, ts = [s, p] ∧ place ≠ .rule ∧
      s.terminal = .atKeyword ∧ p.terminal = .atParams ∧ String.ofList s.lexeme.tail = name ∧
      strip (String.ofList p.lexeme) = params ∧ s.position = source

/-- The partial derivation is one of the sheet that is being read. -/
structure Partial.Describes (d : Partial) (u : Unfinished) : Prop where
  nodes : u.nodes = (Phrase.nodesAll d.phrases).reverse
  blocks : u.blocks = d.layers.map Layer.block
  phrases_valid : Phrase.areValid (Layer.place d.layers) d.phrases = true
  layers_valid : Layer.AreValid d.layers
  started : Started (Layer.place d.layers) u.pending d.started

namespace Partial

theorem place_eq (layers : List Layer) (u : Unfinished) (h : u.blocks = layers.map Layer.block) :
    u.place = Layer.place layers := by
  cases layers with
  | nil => simp [Unfinished.place, h, Layer.place]
  | cons l outer =>
    obtain ⟨before, opening⟩ := l
    cases opening <;> simp [Unfinished.place, h, Layer.place, Layer.block, Opening.header,
      Opening.place]

theorem Describes.place {d : Partial} {u : Unfinished} (h : d.Describes u) :
    u.place = Layer.place d.layers := place_eq _ _ h.blocks

theorem describes_empty : (⟨[], [], []⟩ : Partial).Describes .empty where
  nodes := rfl
  blocks := rfl
  phrases_valid := rfl
  layers_valid := trivial
  started := ⟨rfl, rfl⟩

/-! ### Small changes of a partial derivation -/

/-- A phrase is gone on with. -/
theorem Describes.start {d : Partial} {u : Unfinished} (h : d.Describes u) (pending : Pending)
    (started : List Token) (hs : Started (Layer.place d.layers) pending started) :
    ({ d with started := started } : Partial).Describes { u with pending := pending } :=
  { h with started := hs }

/-- A phrase is finished. -/
theorem Describes.push {d : Partial} {u : Unfinished} (h : d.Describes u) (p : Phrase) (n : Node)
    (valid : p.isValid (Layer.place d.layers) = true) (nodes : p.nodes = [n]) :
    (⟨d.phrases ++ [p], d.layers, []⟩ : Partial).Describes (u.push n) where
  nodes := by simp [Unfinished.push, h.nodes, Phrase.nodesAll_append, Phrase.nodesAll, nodes]
  blocks := h.blocks
  phrases_valid := by simp [Phrase.areValid_append, h.phrases_valid, Phrase.areValid, valid]
  layers_valid := h.layers_valid
  started := rfl

/-- A block is opened. -/
theorem Describes.openBlock {d : Partial} {u : Unfinished} (h : d.Describes u) (o : Opening)
    (valid : o.isValid = true) (outside : Layer.place d.layers ≠ .rule) :
    (⟨[], ⟨d.phrases, o⟩ :: d.layers, []⟩ : Partial).Describes
      (u.openBlock o.header o.source) where
  nodes := rfl
  blocks := by simp [Unfinished.openBlock, h.blocks, Layer.block, h.nodes]
  phrases_valid := rfl
  layers_valid := ⟨valid, outside, h.phrases_valid, h.layers_valid⟩
  started := by
    cases o with
    | rule => exact ⟨rfl, rfl⟩
    | atRule => rfl

/-- A block is closed. -/
theorem Describes.close {d : Partial} {u : Unfinished} (h : d.Describes u) (l : Layer)
    (outer : List Layer) (layers : d.layers = l :: outer) (t : Token)
    (kind : t.terminal = .closeBrace) :
    (⟨l.before ++ [l.opening.phrase d.phrases t], outer, []⟩ : Partial).Describes
      ⟨l.opening.header.node l.opening.source u.nodes.reverse :: l.block.before,
        outer.map Layer.block, .item⟩ := by
  have hvalid := h.layers_valid
  have hinside := h.phrases_valid
  rw [layers] at hvalid hinside
  obtain ⟨opened, outside, before, rest⟩ := hvalid
  have hphrase := l.opening.isValid_phrase d.phrases t _ outside opened hinside kind
  exact {
    nodes := by
      simp [Phrase.nodesAll_append, Phrase.nodesAll, Opening.nodes_phrase, h.nodes, Layer.block]
    blocks := rfl
    phrases_valid := by simp [Phrase.areValid_append, before, Phrase.areValid, hphrase]
    layers_valid := rest
    started := rfl }

/-- Between phrases no token is at hand. -/
theorem Describes.started_eq_nil {d : Partial} {u : Unfinished} (h : d.Describes u)
    (between : u.pending = .beginning ∨ u.pending = .ruleBody ∨ u.pending = .item) :
    d.started = [] := by
  have hs := h.started
  rcases between with hp | hp | hp <;> rw [hp] at hs
  · exact hs.1
  · exact hs.1
  · exact hs

/-- A semicolon that ends nothing is a phrase of its own. -/
theorem Describes.skip {d : Partial} {u : Unfinished} (h : d.Describes u) (t : Token)
    (kind : t.terminal = .semicolon) (inside : u.place ≠ .sheet) :
    (⟨d.phrases ++ [.semicolon t], d.layers, []⟩ : Partial).Describes
      { u with pending := if u.inRule then .ruleBody else .item } where
  nodes := by simp [h.nodes, Phrase.nodesAll_append, Phrase.nodesAll, Phrase.nodes]
  blocks := h.blocks
  phrases_valid := by
    have hplace : Layer.place d.layers ≠ .sheet := h.place ▸ inside
    simp [Phrase.areValid_append, h.phrases_valid, Phrase.areValid, Phrase.isValid, kind, hplace]
  layers_valid := h.layers_valid
  started := by
    dsimp only
    split
    · next hr => exact ⟨rfl, h.place ▸ u.inRule_iff.1 hr⟩
    · rfl

/-! ### One token more -/

variable {d : Partial} {t : Token}

theorem tokens_start (d : Partial) (t : Token) :
    ({ d with started := d.started ++ [t] } : Partial).tokens = d.tokens ++ [t] := by
  simp only [tokens, List.append_assoc]

theorem tokens_push (p : Phrase) (h : p.tokens = d.started ++ [t]) :
    (⟨d.phrases ++ [p], d.layers, []⟩ : Partial).tokens = d.tokens ++ [t] := by
  simp [tokens, Phrase.tokensAll_append, Phrase.tokensAll, h]

theorem tokens_openBlock (o : Opening) (h : o.tokens = d.started ++ [t]) :
    (⟨[], ⟨d.phrases, o⟩ :: d.layers, []⟩ : Partial).tokens = d.tokens ++ [t] := by
  simp [tokens, Layer.tokens, Phrase.tokensAll, h]

theorem tokens_close {l : Layer} {outer : List Layer} (layers : d.layers = l :: outer)
    (h : d.started = []) :
    (⟨l.before ++ [l.opening.phrase d.phrases t], outer, []⟩ : Partial).tokens =
      d.tokens ++ [t] := by
  simp [tokens, layers, Layer.tokens, h, Phrase.tokensAll_append, Phrase.tokensAll,
    Opening.tokens_phrase]

/-- **Every token taken in has its place in the derivation.** -/
theorem describes_step {u v : Unfinished} (h : d.Describes u) (hs : u.step t = some v) :
    ∃ d' : Partial, d'.Describes v ∧ d'.tokens = d.tokens ++ [t] := by
  have hplace := h.place
  have hstarted := h.started
  cases Unfinished.takes_of_step hs with
  -- nothing is at hand yet: the token starts a phrase, is one, or ends a block
  | selector between kind outside =>
    have hnil := h.started_eq_nil (by rcases between with hp | hp <;> simp [hp])
    have started := h.start (.selector _ _) (d.started ++ [t]) ⟨t, by rw [hnil]; rfl,
      hplace ▸ outside, kind, rfl, rfl⟩
    exact ⟨_, started, d.tokens_start t⟩
  | keyword between kind outside =>
    have hnil := h.started_eq_nil (by rcases between with hp | hp <;> simp [hp])
    have started := h.start (.keyword _ _) (d.started ++ [t]) ⟨t, by rw [hnil]; rfl,
      hplace ▸ outside, kind, rfl, rfl⟩
    exact ⟨_, started, d.tokens_start t⟩
  | property between kind inside =>
    have hnil := h.started_eq_nil (by rcases between with hp | hp <;> simp [hp])
    have started := h.start (.property _ _) (d.started ++ [t]) ⟨t, by rw [hnil]; rfl,
      hplace ▸ inside, kind, rfl, rfl⟩
    exact ⟨_, started, d.tokens_start t⟩
  | skipped between kind inside =>
    have hnil := h.started_eq_nil (by rcases between with hp | hp <;> simp [hp])
    exact ⟨_, h.skip t kind inside, tokens_push _ (by rw [hnil]; rfl)⟩
  | closed between kind b outer blocks =>
    have hnil := h.started_eq_nil (by rcases between with hp | hp <;> simp [hp])
    cases hl : d.layers with
    | nil => simp [h.blocks, hl] at blocks
    | cons l ls =>
      rw [h.blocks, hl, List.map_cons, List.cons.injEq] at blocks
      obtain ⟨rfl, rfl⟩ := blocks
      exact ⟨_, h.close l ls hl t kind, tokens_close hl hnil⟩
  -- some tokens of a phrase are at hand
  | openedRule selector source started kind =>
    rw [started] at hstarted
    obtain ⟨s, hd, outside, hk, rfl, rfl⟩ := hstarted
    have valid : (Opening.rule s t).isValid = true := by simp [Opening.isValid, hk, kind]
    exact ⟨_, h.openBlock _ valid outside, tokens_openBlock _ (by rw [hd]; rfl)⟩
  | colon prop source started kind =>
    rw [started] at hstarted
    obtain ⟨s, hd, inside, hk, rfl, rfl⟩ := hstarted
    have colon := h.start (.value _ _) (d.started ++ [t]) ⟨s, t, by rw [hd]; rfl, inside, hk, kind,
      rfl, rfl⟩
    exact ⟨_, colon, d.tokens_start t⟩
  | value prop source started kind =>
    rw [started] at hstarted
    obtain ⟨s, c, hd, inside, hk, hc, rfl, rfl⟩ := hstarted
    have valid : (Phrase.declaration s c t).isValid (Layer.place d.layers) = true := by
      simp [Phrase.isValid, inside, hk, hc, kind]
    exact ⟨_, h.push _ _ valid rfl, tokens_push _ (by rw [hd]; rfl)⟩
  | params name source started kind =>
    rw [started] at hstarted
    obtain ⟨s, hd, outside, hk, rfl, rfl⟩ := hstarted
    have params := h.start (.params _ _ _) (d.started ++ [t]) ⟨s, t, by rw [hd]; rfl, outside, hk,
      kind, rfl, rfl, rfl⟩
    exact ⟨_, params, d.tokens_start t⟩
  | openedBare name source started kind =>
    rw [started] at hstarted
    obtain ⟨s, hd, outside, hk, rfl, rfl⟩ := hstarted
    have valid : (Opening.atRule s none t).isValid = true := by simp [Opening.isValid, hk, kind]
    exact ⟨_, h.openBlock _ valid outside, tokens_openBlock _ (by rw [hd]; rfl)⟩
  | endedBare name source started kind =>
    rw [started] at hstarted
    obtain ⟨s, hd, outside, hk, rfl, rfl⟩ := hstarted
    have valid : (Phrase.atStatement s none t).isValid (Layer.place d.layers) = true := by
      simp [Phrase.isValid, outside, hk, kind]
    exact ⟨_, h.push _ _ valid rfl, tokens_push _ (by rw [hd]; rfl)⟩
  | opened name params source started kind =>
    rw [started] at hstarted
    obtain ⟨s, p, hd, outside, hk, hp, rfl, rfl, rfl⟩ := hstarted
    have valid : (Opening.atRule s (some p) t).isValid = true := by
      simp [Opening.isValid, hk, hp, kind]
    exact ⟨_, h.openBlock _ valid outside, tokens_openBlock _ (by rw [hd]; rfl)⟩
  | ended name params source started kind =>
    rw [started] at hstarted
    obtain ⟨s, p, hd, outside, hk, hp, rfl, rfl, rfl⟩ := hstarted
    have valid : (Phrase.atStatement s (some p) t).isValid (Layer.place d.layers) = true := by
      simp [Phrase.isValid, outside, hk, hp, kind]
    exact ⟨_, h.push _ _ valid rfl, tokens_push _ (by rw [hd]; rfl)⟩

/-- The same for a run of tokens. -/
theorem describes_steps {d : Partial} {u v : Unfinished} {ts : List Token} (h : d.Describes u)
    (hs : u.steps ts = some v) : ∃ d' : Partial, d'.Describes v ∧ d'.tokens = d.tokens ++ ts := by
  induction ts generalizing d u with
  | nil =>
    obtain rfl := Option.some.inj hs
    exact ⟨d, h, by simp⟩
  | cons t ts ih =>
    obtain ⟨w, hw, hrest⟩ := Option.bind_eq_some_iff.1 hs
    obtain ⟨d', hd', htok⟩ := describes_step h hw
    obtain ⟨d'', hd'', htok'⟩ := ih hd' hrest
    exact ⟨d'', hd'', by simp [htok', htok]⟩

/-- Whatever tokens have been taken in, there is a partial derivation with these tokens. -/
theorem exists_describes {ts : List Token} {u : Unfinished}
    (h : Unfinished.empty.steps ts = some u) :
    ∃ d : Partial, d.Describes u ∧ d.tokens = ts :=
  describes_steps describes_empty h

/-- The tokens of a sheet that may end have a derivation, and its nodes are those of the sheet. -/
theorem exists_phrases {ts : List Token} {u : Unfinished} {nodes : List Node}
    (h : Unfinished.empty.steps ts = some u) (hf : u.finish? = some nodes) :
    ∃ ps : List Phrase, Phrase.areValid .sheet ps = true ∧ Phrase.tokensAll ps = ts ∧
      Phrase.nodesAll ps = nodes := by
  obtain ⟨d, hd, rfl⟩ := exists_describes h
  have ended : (u.pending = .beginning ∨ u.pending = .ruleBody ∨ u.pending = .item) ∧
      u.atTop = true ∧ u.nodes.reverse = nodes := by
    unfold Unfinished.finish? at hf
    split at hf
    · next hp => split at hf <;> simp_all
    · next hp => split at hf <;> simp_all
    · exact absurd hf (by simp)
  obtain ⟨between, top, rfl⟩ := ended
  have hnil := hd.started_eq_nil between
  have hlayers : d.layers = [] := by
    have hblocks := hd.blocks
    rw [List.isEmpty_iff.1 top, eq_comm, List.map_eq_nil_iff] at hblocks
    exact hblocks
  refine ⟨d.phrases, ?_, ?_, ?_⟩
  · simpa [hlayers, Layer.place] using hd.phrases_valid
  · simp [tokens, hlayers, hnil, Layer.tokens]
  · simp [hd.nodes]

end Partial

/-! ## Taking in phrases -/

namespace Unfinished

theorem IsBetween.outside {u : Unfinished} (h : u.IsBetween) (outside : u.place ≠ .rule) :
    u.pending = .beginning ∨ u.pending = .item := by
  rcases h with hp | ⟨hp, _⟩ | ⟨_, hr⟩
  · exact .inr hp
  · exact .inl hp
  · exact absurd hr outside

theorem IsBetween.inside {u : Unfinished} (h : u.IsBetween) (inside : u.place ≠ .sheet) :
    u.pending = .ruleBody ∨ u.pending = .item := by
  rcases h with hp | ⟨_, ht⟩ | ⟨hp, _⟩
  · exact .inr hp
  · exact absurd ht inside
  · exact .inl hp

theorem steps_cons_of_takes {u v : Unfinished} {t : Token} (h : Takes u t v) (ts : List Token) :
    u.steps (t :: ts) = v.steps ts := by
  rw [steps, step_of_takes h, Option.bind_some]

/-- The sheet `v` is `u` with some nodes more. -/
structure Extends (u v : Unfinished) (nodes : List Node) : Prop where
  nodes : v.nodes = nodes.reverse ++ u.nodes
  blocks : v.blocks = u.blocks
  between : v.IsBetween

theorem Extends.place {u v : Unfinished} {nodes : List Node} (h : Extends u v nodes) :
    v.place = u.place := by
  simp only [Unfinished.place, h.blocks]

theorem extends_push {u : Unfinished} (n : Node) : Extends u (u.push n) [n] where
  nodes := rfl
  blocks := rfl
  between := .inl rfl

theorem isBetween_openBlock (u : Unfinished) (header : Header) (source : Position) :
    (u.openBlock header source).IsBetween := by
  cases header with
  | rule => exact .inr (.inr ⟨rfl, rfl⟩)
  | atRule => exact .inl rfl

/-- The tokens of a header open its block. -/
theorem steps_opening {u : Unfinished} (o : Opening) (ts : List Token) (valid : o.isValid = true)
    (outside : u.place ≠ .rule) (between : u.IsBetween) :
    u.steps (o.tokens ++ ts) = (u.openBlock o.header o.source).steps ts := by
  have hb := between.outside outside
  cases o with
  | rule selector mark =>
    simp only [Opening.isValid, Bool.and_eq_true, beq_iff_eq] at valid
    obtain ⟨hs, hm⟩ := valid
    exact (steps_cons_of_takes (.selector hb hs outside) _).trans
      (steps_cons_of_takes (.openedRule _ _ rfl hm) _)
  | atRule keyword params mark =>
    simp only [Opening.isValid, Bool.and_eq_true, beq_iff_eq] at valid
    obtain ⟨⟨hk, hp⟩, hm⟩ := valid
    refine (steps_cons_of_takes (.keyword hb hk outside) _).trans ?_
    cases params with
    | none => exact steps_cons_of_takes (.openedBare _ _ rfl hm) _
    | some p =>
      exact (steps_cons_of_takes (.params _ _ rfl (by simpa using hp)) _).trans
        (steps_cons_of_takes (.opened _ _ _ rfl hm) _)

/-- The closing brace gives the node of the block to the block around it. -/
theorem steps_closing {u w : Unfinished} {header : Header} {source : Position} {body : List Node}
    (hw : Extends (u.openBlock header source) w body) (t : Token)
    (kind : t.terminal = .closeBrace) :
    ∃ x, w.steps [t] = some x ∧ Extends u x [header.node source body] := by
  have inside : w.place ≠ .sheet := place_ne_sheet_of_blocks hw.blocks
  refine ⟨_, steps_cons_of_takes (.closed (hw.between.inside inside) kind _ _ hw.blocks) _, ?_⟩
  exact { nodes := by simp [hw.nodes, openBlock], blocks := rfl, between := .inl rfl }

/-- The tokens of a block with its header are taken in if those of its body are. -/
theorem steps_block {u : Unfinished} (o : Opening) (body : List Phrase) (closing : Token)
    (valid : o.isValid = true) (outside : u.place ≠ .rule) (between : u.IsBetween)
    (kind : closing.terminal = .closeBrace)
    (inside : ∃ w, (u.openBlock o.header o.source).steps (Phrase.tokensAll body) = some w ∧
      Extends (u.openBlock o.header o.source) w (Phrase.nodesAll body)) :
    ∃ v, u.steps (o.phrase body closing).tokens = some v ∧
      Extends u v (o.phrase body closing).nodes := by
  obtain ⟨w, hw, hbody⟩ := inside
  obtain ⟨x, hx, hext⟩ := steps_closing hbody closing kind
  refine ⟨x, ?_, ?_⟩
  · rw [o.tokens_phrase, steps_opening o _ valid outside between, steps_append, hw,
      Option.bind_some, hx]
  · rw [o.nodes_phrase]
    exact hext

mutual

/-- The tokens of a phrase are taken in wherever the phrase may stand. -/
theorem steps_tokens (p : Phrase) (u : Unfinished) (valid : p.isValid u.place = true)
    (between : u.IsBetween) : ∃ v, u.steps p.tokens = some v ∧ Extends u v p.nodes := by
  cases p with
  | declaration name colon value =>
    simp only [Phrase.isValid, Bool.and_eq_true, bne_iff_ne, beq_iff_eq] at valid
    obtain ⟨⟨⟨inside, hn⟩, hc⟩, hv⟩ := valid
    rw [Phrase.tokens, steps_cons_of_takes (.property (between.inside inside) hn inside),
      steps_cons_of_takes (.colon _ _ rfl hc), steps_cons_of_takes (.value _ _ rfl hv)]
    exact ⟨_, rfl, extends_push _⟩
  | semicolon mark =>
    simp only [Phrase.isValid, Bool.and_eq_true, bne_iff_ne, beq_iff_eq] at valid
    obtain ⟨inside, hm⟩ := valid
    rw [Phrase.tokens, steps_cons_of_takes (.skipped (between.inside inside) hm inside)]
    refine ⟨_, rfl, ?_, rfl, ?_⟩
    · simp [Phrase.nodes]
    · by_cases hr : u.inRule = true
      · exact .inr (.inr ⟨by simp [hr], u.inRule_iff.1 hr⟩)
      · exact .inl (by simp [hr])
  | rule selector opening body closing =>
    simp only [Phrase.isValid, Bool.and_eq_true, bne_iff_ne, beq_iff_eq] at valid
    obtain ⟨⟨⟨⟨outside, hs⟩, ho⟩, hbody⟩, hc⟩ := valid
    have valid : (Opening.rule selector opening).isValid = true := by
      simp [Opening.isValid, hs, ho]
    exact steps_block (.rule selector opening) body closing valid outside between hc
      (steps_tokensAll body _ hbody (isBetween_openBlock _ _ _))
  | atStatement keyword params ending =>
    simp only [Phrase.isValid, Bool.and_eq_true, bne_iff_ne, beq_iff_eq] at valid
    obtain ⟨⟨⟨outside, hk⟩, hp⟩, he⟩ := valid
    rw [Phrase.tokens, steps_cons_of_takes (.keyword (between.outside outside) hk outside)]
    cases params with
    | none => exact ⟨_, steps_cons_of_takes (.endedBare _ _ rfl he) _, extends_push _⟩
    | some p =>
      have hp : p.terminal = .atParams := by simpa using hp
      exact ⟨_, (steps_cons_of_takes (.params _ _ rfl hp) _).trans
        (steps_cons_of_takes (.ended _ _ _ rfl he) _), extends_push _⟩
  | atBlock keyword params opening body closing =>
    simp only [Phrase.isValid, Bool.and_eq_true, bne_iff_ne, beq_iff_eq] at valid
    obtain ⟨⟨⟨⟨⟨outside, hk⟩, hp⟩, ho⟩, hbody⟩, hc⟩ := valid
    have valid : (Opening.atRule keyword params opening).isValid = true := by
      simp [Opening.isValid, hk, hp, ho]
    exact steps_block (.atRule keyword params opening) body closing valid outside between hc
      (steps_tokensAll body _ hbody (isBetween_openBlock _ _ _))

/-- The tokens of phrases are taken in wherever the phrases may stand. -/
theorem steps_tokensAll (ps : List Phrase) (u : Unfinished)
    (valid : Phrase.areValid u.place ps = true) (between : u.IsBetween) :
    ∃ v, u.steps (Phrase.tokensAll ps) = some v ∧ Extends u v (Phrase.nodesAll ps) := by
  cases ps with
  | nil => exact ⟨u, rfl, rfl, rfl, between⟩
  | cons p ps =>
    rw [Phrase.areValid, Bool.and_eq_true] at valid
    obtain ⟨v, hv, hfirst⟩ := steps_tokens p u valid.1 between
    obtain ⟨w, hw, hrest⟩ := steps_tokensAll ps v (hfirst.place ▸ valid.2) hfirst.between
    refine ⟨w, ?_, ?_, ?_, hrest.between⟩
    · rw [Phrase.tokensAll, steps_append, hv, Option.bind_some, hw]
    · simp [hrest.nodes, hfirst.nodes, Phrase.nodesAll]
    · rw [hrest.blocks, hfirst.blocks]

end

/-- The tokens of the phrases of a sheet are taken in from its beginning, and the sheet may end
there. -/
theorem steps_sheet (ps : List Phrase) (valid : Phrase.areValid .sheet ps = true) :
    ∃ v, empty.steps (Phrase.tokensAll ps) = some v ∧ v.finish? = some (Phrase.nodesAll ps) := by
  obtain ⟨v, hv, hext⟩ := steps_tokensAll ps empty valid (.inr (.inl ⟨rfl, rfl⟩))
  have hplace : v.place = .sheet := hext.place
  have htop : v.atTop = true := v.atTop_iff.2 hplace
  have hnodes : v.nodes.reverse = Phrase.nodesAll ps := by simp [hext.nodes, empty]
  refine ⟨v, hv, ?_⟩
  unfold finish?
  rcases hext.between.outside (by simp [hplace]) with hp | hp <;> simp [hp, htop, hnodes]

/-- **A sheet may end behind some tokens exactly when they have a derivation.** -/
theorem steps_finish_iff (ts : List Token) (nodes : List Node) :
    (∃ u, empty.steps ts = some u ∧ u.finish? = some nodes) ↔
      ∃ ps : List Phrase, Phrase.areValid .sheet ps = true ∧ Phrase.tokensAll ps = ts ∧
        Phrase.nodesAll ps = nodes := by
  constructor
  · rintro ⟨u, hu, hf⟩
    exact Partial.exists_phrases hu hf
  · rintro ⟨ps, valid, rfl, rfl⟩
    exact steps_sheet ps valid

end Unfinished

/-! ## One derivation at most -/

namespace Phrase

/-- Whether no phrase goes on with the tokens: there are none, or a closing brace comes first. -/
def Closes : List Token → Prop
  | [] => True
  | t :: _ => t.terminal = .closeBrace

/-- A phrase starts with no closing brace. -/
theorem not_closes_tokens (p : Phrase) (place : Place) (valid : p.isValid place = true)
    (r : List Token) : ¬ Closes (p.tokens ++ r) := by
  cases p <;> simp_all [isValid, tokens, Closes]

/-- Parameters end before the first token of another kind. -/
theorem params_injective (params params' : Option Token) (m m' : Token) (r r' : List Token)
    (hp : params.all (·.terminal == .atParams) = true)
    (hp' : params'.all (·.terminal == .atParams) = true) (hm : m.terminal ≠ .atParams)
    (hm' : m'.terminal ≠ .atParams) (h : params.toList ++ m :: r = params'.toList ++ m' :: r') :
    params = params' ∧ m = m' ∧ r = r' := by
  cases params with
  | none =>
    cases params' with
    | none => simpa using h
    | some p =>
      simp only [Option.toList_none, Option.toList_some, List.nil_append, List.cons_append,
        List.cons.injEq] at h
      exact absurd (by simpa [← h.1] using hp') hm
  | some p =>
    cases params' with
    | none =>
      simp only [Option.toList_none, Option.toList_some, List.nil_append, List.cons_append,
        List.cons.injEq] at h
      exact absurd (by simpa [h.1] using hp) hm'
    | some p' => simpa using h

mutual

/-- Two phrases at the front of the same tokens are the same. -/
theorem tokens_injective (p q : Phrase) (place : Place) (r r' : List Token)
    (hp : p.isValid place = true) (hq : q.isValid place = true)
    (h : p.tokens ++ r = q.tokens ++ r') : p = q ∧ r = r' := by
  cases p with
  | declaration name colon value => cases q <;> simp_all [isValid, tokens]
  | semicolon mark => cases q <;> simp_all [isValid, tokens]
  | rule selector opening body closing =>
    cases q with
    | rule selector' opening' body' closing' =>
      simp only [isValid, Bool.and_eq_true, beq_iff_eq] at hp hq
      simp only [tokens, List.cons_append, List.append_assoc, List.cons.injEq] at h
      obtain ⟨rfl, rfl, hbody⟩ := h
      obtain ⟨rfl, hr⟩ := tokensAll_injective body body' .rule (closing :: r) (closing' :: r')
        hp.1.2 hq.1.2 hp.2 hq.2 (by simpa using hbody)
      simpa using hr
    | _ => simp_all [isValid, tokens]
  | atStatement keyword params ending =>
    cases q with
    | atStatement keyword' params' ending' =>
      simp only [isValid, Bool.and_eq_true, beq_iff_eq] at hp hq
      simp only [tokens, List.cons_append, List.append_assoc, List.cons.injEq,
        List.nil_append] at h
      obtain ⟨rfl, hrest⟩ := h
      obtain ⟨rfl, rfl, rfl⟩ := params_injective _ _ _ _ _ _ hp.1.2 hq.1.2 (by simp [hp.2])
        (by simp [hq.2]) hrest
      exact ⟨rfl, rfl⟩
    | atBlock keyword' params' opening' body' closing' =>
      simp only [isValid, Bool.and_eq_true, beq_iff_eq] at hp hq
      simp only [tokens, List.cons_append, List.append_assoc, List.cons.injEq,
        List.nil_append] at h
      obtain ⟨-, rfl, -⟩ := params_injective _ _ _ _ _ _ hp.1.2 hq.1.1.1.2 (by simp [hp.2])
        (by simp [hq.1.1.2]) h.2
      exact absurd (hp.2.symm.trans hq.1.1.2) (by simp)
    | _ => simp_all [isValid, tokens]
  | atBlock keyword params opening body closing =>
    cases q with
    | atStatement keyword' params' ending' =>
      simp only [isValid, Bool.and_eq_true, beq_iff_eq] at hp hq
      simp only [tokens, List.cons_append, List.append_assoc, List.cons.injEq,
        List.nil_append] at h
      obtain ⟨-, rfl, -⟩ := params_injective _ _ _ _ _ _ hp.1.1.1.2 hq.1.2 (by simp [hp.1.1.2])
        (by simp [hq.2]) h.2
      exact absurd (hp.1.1.2.symm.trans hq.2) (by simp)
    | atBlock keyword' params' opening' body' closing' =>
      simp only [isValid, Bool.and_eq_true, beq_iff_eq] at hp hq
      simp only [tokens, List.cons_append, List.append_assoc, List.cons.injEq] at h
      obtain ⟨rfl, hrest⟩ := h
      obtain ⟨rfl, rfl, hbody⟩ := params_injective _ _ _ _ _ _ hp.1.1.1.2 hq.1.1.1.2
        (by simp [hp.1.1.2]) (by simp [hq.1.1.2]) hrest
      obtain ⟨rfl, hr⟩ := tokensAll_injective body body' .block (closing :: r) (closing' :: r')
        hp.1.2 hq.1.2 hp.2 hq.2 (by simpa using hbody)
      simpa using hr
    | _ => simp_all [isValid, tokens]

/-- Two rows of phrases in front of a closing brace or of nothing are the same if their tokens
are. -/
theorem tokensAll_injective (ps qs : List Phrase) (place : Place) (r r' : List Token)
    (hps : areValid place ps = true) (hqs : areValid place qs = true) (hr : Closes r)
    (hr' : Closes r') (h : tokensAll ps ++ r = tokensAll qs ++ r') : ps = qs ∧ r = r' := by
  cases ps with
  | nil =>
    cases qs with
    | nil => exact ⟨rfl, by simpa [tokensAll] using h⟩
    | cons q qs =>
      rw [areValid, Bool.and_eq_true] at hqs
      rw [tokensAll, tokensAll, List.nil_append, List.append_assoc] at h
      exact absurd (h ▸ hr) (not_closes_tokens q place hqs.1 _)
  | cons p ps =>
    rw [areValid, Bool.and_eq_true] at hps
    cases qs with
    | nil =>
      rw [tokensAll, tokensAll, List.nil_append, List.append_assoc] at h
      exact absurd (h ▸ hr') (not_closes_tokens p place hps.1 _)
    | cons q qs =>
      rw [areValid, Bool.and_eq_true] at hqs
      rw [tokensAll, tokensAll, List.append_assoc, List.append_assoc] at h
      obtain ⟨rfl, hrest⟩ := tokens_injective p q place _ _ hps.1 hqs.1 h
      obtain ⟨rfl, hr⟩ := tokensAll_injective ps qs place r r' hps.2 hqs.2 hr hr' hrest
      exact ⟨rfl, hr⟩

end

end Phrase

end FluidCss
