import FluidCss.Grammar.Parse

set_option autoImplicit false

/-! # The grammar

What a style sheet is, said without a reader: trees of phrases, each with all its tokens.

* A sheet is made of rules and at-rules.
* A rule is a selector and a block of declarations and semicolons.
* A declaration is a property name, a colon and a value.
* An at-rule is a keyword, possibly parameters, and a semicolon or a block of declarations,
  semicolons, rules and at-rules.

A phrase stands for the tokens it is made of (`Phrase.tokens`) and for at most one node of the tree
(`Phrase.nodes`). Cutting a text into tokens depends on the grammar as well: `Cut` tries at each
place the kinds that can go on with the tokens before it in some sheet. -/

namespace FluidCss

open Text

/-- A phrase of the grammar. -/
inductive Phrase where
  | declaration (name colon value : Token)
  | semicolon (mark : Token)
  | rule (selector opening : Token) (body : List Phrase) (closing : Token)
  | atStatement (keyword : Token) (params : Option Token) (ending : Token)
  | atBlock (keyword : Token) (params : Option Token) (opening : Token) (body : List Phrase)
      (closing : Token)
deriving Repr

/-- Where a phrase may stand. -/
inductive Place where
  | sheet
  | rule
  | block
deriving DecidableEq, Repr

namespace Phrase

mutual

/-- The tokens of a phrase, in order. -/
def tokens : Phrase → List Token
  | declaration name colon value => [name, colon, value]
  | semicolon mark => [mark]
  | rule selector opening body closing => selector :: opening :: (tokensAll body ++ [closing])
  | atStatement keyword params ending => keyword :: (params.toList ++ [ending])
  | atBlock keyword params opening body closing =>
    keyword :: (params.toList ++ opening :: (tokensAll body ++ [closing]))

/-- The tokens of phrases that follow each other. -/
def tokensAll : List Phrase → List Token
  | [] => []
  | p :: ps => p.tokens ++ tokensAll ps

end

/-- The parameters of an at-rule; the empty text if there are none. -/
def paramsText (params : Option Token) : String :=
  match params with
  | some t => strip (String.ofList t.lexeme)
  | none => ""

mutual

/-- The node that a phrase stands for, if it stands for one. -/
def nodes : Phrase → List Node
  | declaration name _ value =>
    [.declaration (String.ofList name.lexeme) (strip (String.ofList value.lexeme))
      (some name.position)]
  | semicolon _ => []
  | rule selector _ body _ =>
    [.rule (strip (String.ofList selector.lexeme)) (some selector.position) (nodesAll body)]
  | atStatement keyword params _ =>
    [.atStatement (String.ofList keyword.lexeme.tail) (paramsText params) (some keyword.position)]
  | atBlock keyword params _ body _ =>
    [.atBlock (String.ofList keyword.lexeme.tail) (paramsText params) (some keyword.position)
      (nodesAll body)]

/-- The nodes that phrases stand for. -/
def nodesAll : List Phrase → List Node
  | [] => []
  | p :: ps => p.nodes ++ nodesAll ps

end

mutual

/-- Whether a phrase is made as the grammar says and may stand at a place. -/
def isValid (place : Place) : Phrase → Bool
  | declaration name colon value =>
    place != .sheet && name.terminal == .property && colon.terminal == .colon &&
      value.terminal == .value
  | semicolon mark => place != .sheet && mark.terminal == .semicolon
  | rule selector opening body closing =>
    place != .rule && selector.terminal == .selector && opening.terminal == .openBrace &&
      areValid .rule body && closing.terminal == .closeBrace
  | atStatement keyword params ending =>
    place != .rule && keyword.terminal == .atKeyword && params.all (·.terminal == .atParams) &&
      ending.terminal == .semicolon
  | atBlock keyword params opening body closing =>
    place != .rule && keyword.terminal == .atKeyword && params.all (·.terminal == .atParams) &&
      opening.terminal == .openBrace && areValid .block body && closing.terminal == .closeBrace

/-- Whether phrases are made as the grammar says and may stand at a place. -/
def areValid (place : Place) : List Phrase → Bool
  | [] => true
  | p :: ps => p.isValid place && areValid place ps

end

theorem tokensAll_append (ps qs : List Phrase) :
    tokensAll (ps ++ qs) = tokensAll ps ++ tokensAll qs := by
  induction ps with
  | nil => rfl
  | cons p ps ih => simp [tokensAll, ih]

theorem nodesAll_append (ps qs : List Phrase) :
    nodesAll (ps ++ qs) = nodesAll ps ++ nodesAll qs := by
  induction ps with
  | nil => rfl
  | cons p ps ih => simp [nodesAll, ih]

theorem areValid_append (place : Place) (ps qs : List Phrase) :
    areValid place (ps ++ qs) = (areValid place ps && areValid place qs) := by
  induction ps with
  | nil => rfl
  | cons p ps ih => simp [areValid, ih, Bool.and_assoc]

end Phrase

/-- Whether a token of a kind can come after tokens of the given kinds in some sheet. -/
def CanFollow (before : List Terminal) (t : Terminal) : Prop :=
  ∃ ps : List Phrase, Phrase.areValid .sheet ps = true ∧
    before ++ [t] <+: (Phrase.tokensAll ps).map (·.terminal)

/-- The text that starts at a place is cut into the given tokens, behind tokens of the kinds in
`before`. At each place the first kind is taken of which a token stands there, among the kinds that
can follow and those that are left out. -/
inductive Cut : List Terminal → Position → List Char → List Token → Prop where
  | nil (before : List Terminal) (here : Position) : Cut before here [] []
  | skip (before : List Terminal) (here : Position) (cs : List Char) (t : Terminal)
      (lexeme rest : List Char) (ts : List Token) (skipped : t.isSkipped = true)
      (found : t.split? cs = some (lexeme, rest))
      (first : ∀ us vs u, Terminal.all = us ++ t :: vs → u ∈ us →
        u.isSkipped = true ∨ CanFollow before u → u.split? cs = none)
      (further : Cut before (here.after lexeme) rest ts) : Cut before here cs ts
  | token (before : List Terminal) (here : Position) (cs : List Char) (t : Terminal)
      (lexeme rest : List Char) (ts : List Token) (follows : CanFollow before t)
      (found : t.split? cs = some (lexeme, rest))
      (first : ∀ us vs u, Terminal.all = us ++ t :: vs → u ∈ us →
        u.isSkipped = true ∨ CanFollow before u → u.split? cs = none)
      (further : Cut (before ++ [t]) (here.after lexeme) rest ts) :
      Cut before here cs (⟨t, lexeme, here⟩ :: ts)

/-- The phrases are a derivation of the text: they make up a sheet, and the text is cut into their
tokens. -/
def IsDerivation (css : List Char) (ps : List Phrase) : Prop :=
  Phrase.areValid .sheet ps = true ∧ Cut [] .start css (Phrase.tokensAll ps)

/-- The text is the text of a sheet with the given statements. -/
def IsSheet (css : List Char) (nodes : List Node) : Prop :=
  ∃ ps : List Phrase, IsDerivation css ps ∧ Phrase.nodesAll ps = nodes

end FluidCss
