import FluidCss.Proofs.Grammar.Layout
import FluidCss.Proofs.Sizing.Sheets

set_option autoImplicit false

/-! # Where the nodes of a sheet stand in its text

The text of a sheet that has been read is the texts of its nodes, in document order, with white
space, comments and marks between them; each node stands where its source says, and the nodes
follow each other in the text as they do on a walk through the tree (`parse_placed`).

The way there is over the tokens. `Layout` says how a text is laid out by its tokens; here the nodes
of a derivation are found to account for its tokens (`AccountsFor`), and the nodes of the store for
those of the derivation. -/

namespace FluidCss

open Text

/-! ## The texts of a node -/

namespace Content

/-- The text that a node starts with where it stands in a sheet. -/
def head : Content → String
  | declaration prop _ => prop
  | rule selector => selector
  | atRule name _ _ => "@" ++ name
  | root .. => ""

/-- The texts that a node has of its own, in the order in which it is written. -/
def texts : Content → List String
  | declaration prop value => [prop, value]
  | rule selector => [selector]
  | atRule name params _ => ["@" ++ name, params]
  | root .. => []

/-- The texts that a node cannot be without. -/
def names : Content → List String
  | declaration prop value => [prop, value]
  | rule selector => [selector]
  | atRule name _ _ => [name]
  | root .. => []

/-- Whether the node is an at-rule. -/
def isAtRule : Content → Bool
  | atRule .. => true
  | _ => false

end Content

namespace Node

/-- What the node is, apart from its place. -/
def content : Node → Content
  | declaration prop value _ => .declaration prop value
  | rule selector _ _ => .rule selector
  | atStatement name params _ => .atRule name params true
  | atBlock name params _ _ => .atRule name params false

mutual

/-- The node and its descendants, depth first. -/
def preorder : Node → List Node
  | declaration prop value source => [declaration prop value source]
  | rule selector source nodes => rule selector source nodes :: preorderAll nodes
  | atStatement name params source => [atStatement name params source]
  | atBlock name params source nodes => atBlock name params source nodes :: preorderAll nodes

/-- The nodes of a list and their descendants, depth first. -/
def preorderAll : List Node → List Node
  | [] => []
  | n :: ns => n.preorder ++ preorderAll ns

end

theorem preorderAll_append (ns ms : List Node) :
    preorderAll (ns ++ ms) = preorderAll ns ++ preorderAll ms := by
  induction ns with
  | nil => rfl
  | cons n ns ih => rw [List.cons_append, preorderAll, preorderAll, ih, List.append_assoc]

end Node

/-! ## Nodes account for tokens -/

/-- Whether the nodes, with those below them listed as well, say what the tokens say: each has its
texts, those that start a token have its place, and no text of a token is left out or added. -/
structure AccountsFor (ns : List Node) (ts : List Token) : Prop where
  tidy : ∀ n ∈ ns, ∀ s ∈ n.content.names, IsTidy s
  heads : ns.map (fun n => (n.source, n.content.head)) =
    (ts.filter (·.terminal.startsNode)).map fun t => (some t.position, t.text)
  texts : (ns.flatMap fun n => n.content.texts).filter (· != "") =
    (ts.filter (·.terminal.carriesText)).map Token.text

namespace AccountsFor

variable {ns ms : List Node} {ts us : List Token} {t : Token}

theorem nil : AccountsFor [] [] := ⟨by simp, rfl, rfl⟩

theorem append (h : AccountsFor ns ts) (h' : AccountsFor ms us) :
    AccountsFor (ns ++ ms) (ts ++ us) where
  tidy := List.forall_mem_append.2 ⟨h.tidy, h'.tidy⟩
  heads := by rw [List.map_append, h.heads, h'.heads, List.filter_append, List.map_append]
  texts := by
    rw [List.flatMap_append, List.filter_append, h.texts, h'.texts, List.filter_append,
      List.map_append]

/-- A mark is accounted for by no node. -/
theorem mark (ht : t.terminal.carriesText = false) : AccountsFor [] [t] := by
  have hstarts : t.terminal.startsNode = false := by
    revert ht
    cases t.terminal <;> simp [Terminal.carriesText, Terminal.startsNode]
  exact ⟨by simp, by simp [hstarts], by simp [ht]⟩

theorem declaration {name colon value : Token} (hname : name.terminal = .property)
    (hcolon : colon.terminal = .colon) (hvalue : value.terminal = .value)
    (hcut : name.IsCut) (hcut' : value.IsCut) :
    AccountsFor [.declaration (String.ofList name.lexeme) (strip (String.ofList value.lexeme))
      (some name.position)] [name, colon, value] := by
  have hprop := (hcut.exists_blanks (by rw [hname]; rfl)).1
  have hval := (hcut'.exists_blanks (by rw [hvalue]; rfl)).1
  rw [Token.text, hname] at hprop
  rw [Token.text, hvalue] at hval
  refine ⟨?_, ?_, ?_⟩
  · simp [Node.content, Content.names, hprop, hval]
  · simp [Node.content, Node.source, Content.head, hname, hcolon, hvalue, Terminal.startsNode,
      Token.text]
  · simp [Node.content, Content.texts, hname, hcolon, hvalue, Terminal.carriesText, Token.text,
      hprop.1, hval.1]

theorem rule {selector : Token} (hselector : selector.terminal = .selector) (hcut : selector.IsCut)
    (nodes : List Node) :
    AccountsFor [.rule (strip (String.ofList selector.lexeme)) (some selector.position) nodes]
      [selector] := by
  have htext := (hcut.exists_blanks (by rw [hselector]; rfl)).1
  rw [Token.text, hselector] at htext
  refine ⟨?_, ?_, ?_⟩
  · simp [Node.content, Content.names, htext]
  · simp [Node.content, Node.source, Content.head, hselector, Terminal.startsNode, Token.text]
  · simp [Node.content, Content.texts, hselector, Terminal.carriesText, Token.text, htext.1]

/-- An at-rule accounts for its keyword and its parameters. -/
theorem atRule {keyword : Token} {params : Option Token} (hkeyword : keyword.terminal = .atKeyword)
    (hparams : params.all (·.terminal == .atParams) = true)
    (hcut : ∀ t ∈ keyword :: params.toList, t.IsCut) {n : Node}
    (hsource : n.source = some keyword.position) {bodyless : Bool}
    (hn : n.content =
      .atRule (String.ofList keyword.lexeme.tail) (Phrase.paramsText params) bodyless) :
    AccountsFor [n] (keyword :: params.toList) := by
  obtain ⟨rest, hsplit⟩ := hcut keyword (by simp)
  rw [hkeyword] at hsplit
  obtain ⟨name, hlexeme, hne, hblank⟩ := Terminal.exists_name_of_splitKeyword? hsplit
  have htext : keyword.text = "@" ++ String.ofList keyword.lexeme.tail := by
    rw [Token.text, hkeyword, hlexeme]
    rw [← String.toList_inj]
    simp
  have htidy : IsTidy (String.ofList keyword.lexeme.tail) := by
    rw [hlexeme]
    exact isTidy_of_not_blank hne hblank
  have hhead : "@" ++ String.ofList keyword.lexeme.tail ≠ "" := by
    rw [← String.toList_inj.ne]
    simp
  cases params with
  | none =>
    refine ⟨?_, ?_, ?_⟩
    · simp [hn, Content.names, htidy]
    · simp [hn, hsource, Content.head, hkeyword, Terminal.startsNode, htext]
    · simp [hn, Content.texts, hkeyword, Terminal.carriesText, htext, Phrase.paramsText, hhead]
  | some p =>
    have hp : p.terminal = .atParams := by simpa using hparams
    have hptidy := ((hcut p (by simp)).exists_blanks (by rw [hp]; rfl)).1
    have hptext : p.text = strip (String.ofList p.lexeme) := by rw [Token.text, hp]
    rw [hptext] at hptidy
    refine ⟨?_, ?_, ?_⟩
    · simp [hn, Content.names, htidy]
    · simp [hn, hsource, Content.head, hkeyword, hp, Terminal.startsNode, htext]
    · simp [hn, Content.texts, hkeyword, hp, Terminal.carriesText, htext, Phrase.paramsText, hhead,
        hptext, hptidy.1]

end AccountsFor

namespace Phrase

mutual

theorem accountsFor (place : Place) (p : Phrase) (h : p.isValid place = true)
    (hcut : ∀ t ∈ p.tokens, t.IsCut) : AccountsFor (Node.preorderAll p.nodes) p.tokens := by
  cases p with
  | declaration name colon value =>
    simp only [isValid, Bool.and_eq_true, beq_iff_eq] at h
    obtain ⟨⟨⟨-, hname⟩, hcolon⟩, hvalue⟩ := h
    exact .declaration hname hcolon hvalue (hcut name (by simp [tokens]))
      (hcut value (by simp [tokens]))
  | semicolon mark =>
    simp only [isValid, Bool.and_eq_true, beq_iff_eq] at h
    exact .mark (by rw [h.2]; rfl)
  | rule selector opening body closing =>
    simp only [isValid, Bool.and_eq_true, beq_iff_eq] at h
    obtain ⟨⟨⟨⟨-, hselector⟩, hopening⟩, hbody⟩, hclosing⟩ := h
    have hbelow := accountsForAll .rule body hbody fun t ht => hcut t (by simp [tokens, ht])
    have hrule := AccountsFor.rule hselector (hcut selector (by simp [tokens])) (nodesAll body)
    have hopen : AccountsFor [] [opening] := .mark (by rw [hopening]; rfl)
    have hclose : AccountsFor [] [closing] := .mark (by rw [hclosing]; rfl)
    have hall := ((hrule.append hopen).append hbelow).append hclose
    simpa [nodes, tokens, Node.preorderAll, Node.preorder] using hall
  | atStatement keyword params ending =>
    simp only [isValid, Bool.and_eq_true, beq_iff_eq] at h
    obtain ⟨⟨⟨-, hkeyword⟩, hparams⟩, hending⟩ := h
    have hat : AccountsFor [_] _ := .atRule hkeyword hparams
      (fun t ht => hcut t (by simp only [tokens, List.mem_cons, List.mem_append] at ht ⊢; tauto))
      (n := .atStatement _ (paramsText params) _) rfl rfl
    have hend : AccountsFor [] [ending] := .mark (by rw [hending]; rfl)
    simpa [nodes, tokens, Node.preorderAll, Node.preorder] using hat.append hend
  | atBlock keyword params opening body closing =>
    simp only [isValid, Bool.and_eq_true, beq_iff_eq] at h
    obtain ⟨⟨⟨⟨⟨-, hkeyword⟩, hparams⟩, hopening⟩, hbody⟩, hclosing⟩ := h
    have hbelow := accountsForAll .block body hbody fun t ht => hcut t (by simp [tokens, ht])
    have hat : AccountsFor [_] _ := .atRule hkeyword hparams
      (fun t ht => hcut t (by simp only [tokens, List.mem_cons, List.mem_append] at ht ⊢; tauto))
      (n := .atBlock _ (paramsText params) _ (nodesAll body)) rfl rfl
    have hopen : AccountsFor [] [opening] := .mark (by rw [hopening]; rfl)
    have hclose : AccountsFor [] [closing] := .mark (by rw [hclosing]; rfl)
    have hall := ((hat.append hopen).append hbelow).append hclose
    simpa [nodes, tokens, Node.preorderAll, Node.preorder] using hall

/-- **The nodes of phrases account for their tokens.** -/
theorem accountsForAll (place : Place) (ps : List Phrase) (h : areValid place ps = true)
    (hcut : ∀ t ∈ tokensAll ps, t.IsCut) :
    AccountsFor (Node.preorderAll (nodesAll ps)) (tokensAll ps) := by
  cases ps with
  | nil => exact .nil
  | cons p ps =>
    rw [areValid, Bool.and_eq_true] at h
    rw [tokensAll, List.forall_mem_append] at hcut
    rw [nodesAll, Node.preorderAll_append, tokensAll]
    exact (accountsFor place p h.1 hcut.1).append (accountsForAll place ps h.2 hcut.2)

end

/-- The phrases of a sheet stand for statements. -/
theorem all_isStatement_nodesAll (ps : List Phrase) (h : areValid .sheet ps = true) :
    (nodesAll ps).all Node.isStatement = true := by
  induction ps with
  | nil => rfl
  | cons p ps ih =>
    rw [areValid, Bool.and_eq_true] at h
    rw [nodesAll, List.all_append, Bool.and_eq_true]
    refine ⟨?_, ih h.2⟩
    have hp := h.1
    cases p <;> simp_all [isValid, nodes, Node.isStatement, Node.isDeclaration]

end Phrase

/-! ## In a store -/

namespace Forest

variable {f : Forest}

theorem eq_of_holds {n : NodeId} {t : Node} (h : f.Holds n t) :
    f.content n = t.content ∧ f.source n = t.source := by
  cases t with
  | declaration | rule | atStatement | atBlock => exact ⟨h.1, h.2.1⟩

mutual

theorem forall₂_holds_of_holds (hf : f.WellFormed) (t : Node) (n : NodeId) (h : f.Holds n t) :
    List.Forall₂ f.Holds (n :: f.walk n) t.preorder := by
  cases t with
  | declaration prop value source =>
    rw [hf.walk_of_no_children h.2.2]
    exact .cons h .nil
  | rule selector source nodes =>
    rw [hf.walk_eq]
    exact .cons h (forall₂_holds_of_holdsAll hf nodes _ h.2.2)
  | atStatement name params source =>
    rw [hf.walk_of_no_children h.2.2]
    exact .cons h .nil
  | atBlock name params source nodes =>
    rw [hf.walk_eq]
    exact .cons h (forall₂_holds_of_holdsAll hf nodes _ h.2.2)

/-- A walk through the store meets the nodes of the trees that it holds, one by one. -/
theorem forall₂_holds_of_holdsAll (hf : f.WellFormed) (ts : List Node) (ns : List NodeId)
    (h : f.HoldsAll ns ts) :
    List.Forall₂ f.Holds (ns.flatMap fun n => n :: f.walk n) (Node.preorderAll ts) := by
  cases ts with
  | nil =>
    cases ns with
    | nil => exact .nil
    | cons n ns => exact absurd h (by simp [HoldsAll])
  | cons t ts =>
    cases ns with
    | nil => exact absurd h (by simp [HoldsAll])
    | cons n ns =>
      rw [List.flatMap_cons, Node.preorderAll]
      exact List.rel_append (forall₂_holds_of_holds hf t n h.1)
        (forall₂_holds_of_holdsAll hf ts ns h.2)

end

theorem forall₂_of_holdsAll {ns : List NodeId} {ts : List Node} (h : f.HoldsAll ns ts) :
    List.Forall₂ f.Holds ns ts := by
  induction ns generalizing ts with
  | nil =>
    cases ts with
    | nil => exact .nil
    | cons t ts => exact absurd h (by simp [HoldsAll])
  | cons n ns ih =>
    cases ts with
    | nil => exact absurd h (by simp [HoldsAll])
    | cons t ts => exact .cons h.1 (ih h.2)

/-- What depends on the content and the place of the nodes only is the same for both. -/
theorem map_of_forall₂ {α : Type} {ns : List NodeId} {ts : List Node}
    (h : List.Forall₂ f.Holds ns ts) (φ : Content → Option Position → α) :
    ns.map (fun n => φ (f.content n) (f.source n)) = ts.map fun t => φ t.content t.source := by
  induction h with
  | nil => rfl
  | cons hn _ ih =>
    obtain ⟨hcontent, hsource⟩ := eq_of_holds hn
    rw [List.map_cons, List.map_cons, ih, hcontent, hsource]

/-- Whether the tree below a node is a sheet that stands in a text, with nothing lost, added or
misplaced. -/
structure IsPlacedIn (f : Forest) (root : NodeId) (css : List Char) : Prop where
  /-- The sheet has rules and at-rules only. -/
  statements : ∀ n ∈ f.children root, (f.content n).isRule = true ∨ (f.content n).isAtRule = true
  /-- Rules have declarations only. -/
  declarations : ∀ n ∈ f.walk root, (f.content n).isRule = true → ∀ d ∈ f.children n,
    (f.content d).isDeclaration = true
  /-- At-rules without a block have no children. -/
  bodyless : ∀ n ∈ f.walk root, ∀ name params, f.content n = .atRule name params true →
    f.children n = []
  /-- Each node knows its container. -/
  parents : ∀ n, ∀ c ∈ f.children n, f.parent c = some n
  /-- Selectors, names and values are there and are trimmed. -/
  tidy : ∀ n ∈ f.walk root, ∀ s ∈ (f.content n).names, IsTidy s
  /-- The nodes stand where their sources say, one behind the other. -/
  offsets : ∃ offsets : List Nat, offsets.Pairwise (· < ·) ∧
    List.Forall₂ (fun n o => f.source n = some (.behind (css.take o)) ∧
      (f.content n).head.toList <+: css.drop o) (f.walk root) offsets
  /-- The text is the texts of the nodes, with fillers between them. -/
  separated : Separated ((f.walk root).flatMap fun n => (f.content n).texts) css

end Forest

/-- The tokens of a text that start nodes stand where they say, and the text goes on with what they
carry. -/
theorem Cut.exists_offsets_of_startsNode {css : List Char} {ts : List Token}
    (h : Cut [] .start css ts) :
    ∃ offsets : List Nat, offsets.Pairwise (· < ·) ∧
      List.Forall₂ (fun (x : Option Position × String) o =>
          x.1 = some (.behind (css.take o)) ∧ x.2.toList <+: css.drop o)
        ((ts.filter (·.terminal.startsNode)).map fun t => (some t.position, t.text)) offsets := by
  obtain ⟨all, hall, hincreasing, -⟩ := @exists_offsets _ _ _ _ h [] rfl
  obtain ⟨offsets, hsub, hstands⟩ := exists_sublist_of_forall₂ hall (·.terminal.startsNode)
  have hblanks : ∀ t ∈ ts.filter (·.terminal.startsNode), ∃ bs, t.lexeme = t.text.toList ++ bs := by
    intro t ht
    obtain ⟨hmem, hstarts⟩ := List.mem_filter.1 ht
    have hcarries : t.terminal.carriesText = true := by
      revert hstarts
      cases t.terminal <;> simp [Terminal.carriesText, Terminal.startsNode]
    obtain ⟨-, bs, -, hlexeme⟩ := (h.isCut t hmem).exists_blanks hcarries
    exact ⟨bs, hlexeme⟩
  refine ⟨offsets, hincreasing.sublist hsub, List.forall₂_map_left_iff.2 ?_⟩
  refine ((List.forall₂_and_left _ _).2 ⟨hblanks, hstands⟩).imp ?_
  rintro t o ⟨⟨bs, hlexeme⟩, hposition, hprefix⟩
  refine ⟨congrArg some hposition, .trans ?_ hprefix⟩
  rw [hlexeme]
  exact List.prefix_append _ _

/-- **Nothing is lost, added or misplaced.** The tree that a sheet that has been read makes in a
store has rules and at-rules at its top, declarations in its rules and trimmed texts in its nodes;
each node stands in the text where it says; and the text is made of the texts of the nodes, in
their order, with nothing but white space, whole comments and marks between them. -/
theorem parse_isPlacedIn {css : String} {name : Option String} {sheet : Sheet}
    (h : Sheet.parse css name = .ok sheet) :
    sheet.session.2.forest.HoldsSheet sheet.session.1 sheet ∧
      sheet.session.2.forest.IsPlacedIn sheet.session.1 css.toList := by
  obtain ⟨hf, hsheet⟩ := sheet.session_ok
  obtain ⟨hnodes, -, -⟩ := (parse_eq_ok_iff css name sheet).1 h
  obtain ⟨ps, ⟨hvalid, hcut⟩, hps⟩ := (parseNodes_eq_ok_iff _ _).1 hnodes
  have haccounts := Phrase.accountsForAll .sheet ps hvalid hcut.isCut
  rw [hps] at haccounts
  have hwalk := Forest.forall₂_holds_of_holdsAll hf _ _ hsheet.nodes
  rw [← hf.walk_eq] at hwalk
  refine ⟨hsheet, ?_⟩
  constructor
  case statements =>
    intro n hn
    obtain ⟨t, ht, hheld⟩ :=
      exists_of_forall₂ (Forest.forall₂_of_holdsAll hsheet.nodes) n hn
    have hstatement := List.all_eq_true.1 (hps ▸ Phrase.all_isStatement_nodesAll ps hvalid) t ht
    rw [(Forest.eq_of_holds hheld).1]
    cases t with
    | declaration => exact absurd hstatement (by simp [Node.isStatement, Node.isDeclaration])
    | rule => exact .inl rfl
    | atStatement | atBlock => exact .inr rfl
  case declarations =>
    intro n hn hrule d hd
    have hrules := hsheet.rulesHoldDeclarations hf (arePlain_of_parse h)
    exact (hrules n (List.mem_filter.2 ⟨hn, hrule⟩) d hd).1
  case bodyless =>
    intro n hn name params hcontent
    obtain ⟨t, -, hheld⟩ := exists_of_forall₂ hwalk n hn
    have hsame := (Forest.eq_of_holds hheld).1.symm.trans hcontent
    cases t with
    | atStatement => exact hheld.2.2
    | declaration | rule | atBlock => exact absurd hsame (by simp [Node.content])
  case parents => exact fun n c hc => hf.parent_of_mem hc
  case tidy =>
    intro n hn
    obtain ⟨t, ht, hheld⟩ := exists_of_forall₂ hwalk n hn
    rw [(Forest.eq_of_holds hheld).1]
    exact haccounts.tidy t ht
  case offsets =>
    obtain ⟨offsets, hincreasing, hstands⟩ := hcut.exists_offsets_of_startsNode
    -- a node of the store says of itself what the token that it starts with says
    have hheads := Forest.map_of_forall₂ hwalk fun content source => (source, content.head)
    rw [← haccounts.heads, ← hheads, List.forall₂_map_left_iff] at hstands
    exact ⟨offsets, hincreasing, hstands⟩
  case separated =>
    refine .of_filter ?_
    have htexts := Forest.map_of_forall₂ hwalk fun content _ => content.texts
    rw [List.flatMap_def, htexts, ← List.flatMap_def, haccounts.texts]
    exact hcut.separated

/-- A sheet with comments and line feeds between its tokens and within them, and delimiters in a
value. -/
def scatteredSheet : String :=
  "/*\n*/ .a,\n.b \x7b c: '\x7b;' ;;\n  d /* ; */ :\te\x7d\n@page /**/ f\n\x7b@g;\x7d"

/-- The sheet is read, and its rule stands in the second line, behind the comment. -/
theorem parse_isPlacedIn_scatteredSheet :
    ∃ sheet, Sheet.parse scatteredSheet none = .ok sheet ∧
      (sheet.session.2.forest.walk sheet.session.1).map sheet.session.2.forest.source =
        [some ⟨2, 4⟩, some ⟨3, 6⟩, some ⟨4, 3⟩, some ⟨5, 1⟩, some ⟨6, 2⟩] ∧
      sheet.session.2.forest.HoldsSheet sheet.session.1 sheet ∧
      sheet.session.2.forest.IsPlacedIn sheet.session.1 scatteredSheet.toList := by
  obtain ⟨sheet, hparse, hsources⟩ : ∃ sheet, Sheet.parse scatteredSheet none = .ok sheet ∧
      (sheet.session.2.forest.walk sheet.session.1).map sheet.session.2.forest.source =
        [some ⟨2, 4⟩, some ⟨3, 6⟩, some ⟨4, 3⟩, some ⟨5, 1⟩, some ⟨6, 2⟩] := by
    decide +kernel
  exact ⟨sheet, hparse, hsources, parse_isPlacedIn hparse⟩

end FluidCss
