import FluidCss.Proofs.Computation
import FluidCss.Proofs.Grammar.Lexeme
import FluidCss.Proofs.Grammar.Reading

set_option autoImplicit false

/-! # Formatting a sheet

A sheet that has been read is printed without its comments and with other white space. The printed
form is read as the same tree, unless a declaration in the block of an at-rule has a value whose
first delimiter is an opening brace: up to that brace it is taken for a selector.

Two things in a sheet depend on a text that may be far behind: whether `url(` is closed, and whether
a comment is. What is printed behind a text therefore must not bring a mark that closes them, if
there was none in what stood behind it when it was read. It does not, because it is made of texts
that did stand there, with characters between them that are in no such mark (`Within`). -/

namespace FluidCss

open Text

/-! ## Texts of a text -/

/-- The characters that the printer puts between the texts of a tree. -/
def isLayout (c : Char) : Bool := c ∈ [' ', '\n', ':', ';', '\x7b', '\x7d']

/-- Whether a text is made of stretches of another one, with characters of the layout between them.
-/
def Within (cs ds : List Char) : Prop :=
  ∀ w, w ≠ [] → (∀ c ∈ w, isLayout c = false) → w <:+: cs → w <:+: ds

section Within

variable {as bs cs ds es : List Char} {c : Char}

theorem within_of_isInfix (h : cs <:+: ds) : Within cs ds := fun _ _ _ hw => hw.trans h

theorem within_nil (ds : List Char) : Within [] ds := within_of_isInfix (List.nil_infix)

theorem Within.trans_isInfix (h : Within cs ds) (hds : ds <:+: es) : Within cs es :=
  fun w hne hw hcs => (h w hne hw hcs).trans hds

/-- A stretch without layout stands on one side of a character of the layout. -/
theorem infix_of_infix_append_cons {w : List Char} (hne : w ≠ []) (hc : c ∉ w)
    (h : w <:+: as ++ c :: bs) : w <:+: as ∨ w <:+: bs := by
  rcases List.infix_append_iff.1 h with h | h | ⟨w₁, w₂, rfl, h₁, h₂⟩
  · exact .inl h
  · rcases List.infix_cons_iff.1 h with h | h
    · obtain ⟨d, w, rfl⟩ := List.exists_cons_of_ne_nil hne
      obtain ⟨rfl, -⟩ := List.cons_prefix_cons.1 h
      exact absurd List.mem_cons_self hc
    · exact .inr h
  · cases w₂ with
    | nil => exact .inl (by simpa using h₁.isInfix)
    | cons d w₂ =>
      obtain ⟨rfl, -⟩ := List.cons_prefix_cons.1 h₂
      exact absurd (by simp) hc

theorem Within.append_layout (has : Within as ds) (hc : isLayout c = true) (hbs : Within bs ds) :
    Within (as ++ c :: bs) ds := by
  intro w hne hw h
  have hnot : c ∉ w := fun hmem => absurd hc (by simp [hw c hmem])
  rcases infix_of_infix_append_cons hne hnot h with h | h
  · exact has w hne hw h
  · exact hbs w hne hw h

theorem Within.layout (hc : isLayout c = true) (hbs : Within bs ds) : Within (c :: bs) ds :=
  (within_nil ds).append_layout hc hbs

theorem Within.indentation (h : Within cs ds) (depth : Nat) :
    Within (indentation depth ++ cs) ds := by
  have hspaces : ∀ k, Within (List.replicate k ' ' ++ cs) ds := by
    intro k
    induction k with
    | zero => exact h
    | succ k ih => exact ih.layout rfl
  exact hspaces _

theorem Within.mem (h : Within cs ds) (hc : isLayout c = false) (hmem : c ∈ cs) : c ∈ ds := by
  obtain ⟨as, bs, rfl⟩ := List.append_of_mem hmem
  have hpart : [c] <:+: ds := h [c] (by simp) (by simpa using hc) ⟨as, bs, by simp⟩
  exact hpart.subset (List.mem_singleton_self c)

end Within

/-! ## Texts of tokens -/

/-- What a text being cut into tokens says about the texts of the tokens: each is cut off somewhere
behind those before it, and parameters are not cut off where a comment is. -/
inductive Lexed : List Char → List Token → Prop
  | nil (cs : List Char) : Lexed cs []
  | token {cs cs' rest : List Char} {t : Token} {ts : List Token} (hcs : cs' <:+ cs)
      (found : t.terminal.split? cs' = some (t.lexeme, rest))
      (noComment : t.terminal = .atParams → Terminal.splitComment? cs' = none)
      (further : Lexed rest ts) : Lexed cs (t :: ts)

theorem Lexed.of_suffix {cs ds : List Char} {ts : List Token} (h : Lexed cs ts) (hcs : cs <:+ ds) :
    Lexed ds ts := by
  cases h with
  | nil => exact .nil ds
  | token hsuffix found noComment further => exact .token (hsuffix.trans hcs) found noComment further

theorem Cut.lexed {before : List Terminal} {here : Position} {cs : List Char} {ts : List Token}
    (h : Cut before here cs ts) : Lexed cs ts := by
  induction h with
  | nil => exact .nil _
  | skip _ _ cs t lexeme rest _ _ found _ _ ih =>
    exact ih.of_suffix ⟨lexeme, (Terminal.split?_append t cs lexeme rest found).1⟩
  | token before here cs t lexeme rest ts _ found first _ ih =>
    refine .token (List.suffix_refl cs) found (fun ht => ?_) ih
    obtain rfl : t = .atParams := ht
    exact first [.selector, .value, .property, .atKeyword, .comment] _ .comment rfl (by simp)
      (.inl rfl)

/-! ## Texts of a tree that has been read -/

/-- Parameters that have been read are read again in front of what is printed behind them. -/
theorem isParamsBefore_of_split? {cs lexeme rest tail : List Char} {d : Char}
    (found : Terminal.splitParams? cs = some (lexeme, rest))
    (noComment : Terminal.splitComment? cs = none) (hd : isLayout d = true)
    (htail : Within tail rest) : IsParamsBefore (trim lexeme) (d :: tail) := by
  obtain ⟨htrim, hplain, bs, -, hbs⟩ := Terminal.isTrimmed_of_splitParams? found
  refine ⟨htrim, hplain, Terminal.splitComment?_eq_none_iff.2 fun x hx hmark => ?_⟩
  obtain rfl := (Terminal.split?_append .atParams _ _ _ found).1
  have hlayout : ∀ c, c = '*' ∨ c = '/' → c ≠ d := by
    rintro c hc rfl
    rcases hc with rfl | rfl <;> exact absurd hd (by decide)
  rcases hp : trim lexeme with _ | ⟨c, _ | ⟨c', p⟩⟩
  · rw [hp, List.nil_append] at hx
    exact hlayout '/' (.inr rfl) (List.cons.inj hx).1.symm
  · rw [hp] at hx
    exact hlayout '*' (.inl rfl) (List.cons.inj (List.cons.inj hx).2).1.symm
  · rw [hp] at hx hbs
    simp only [List.cons_append, List.cons.injEq] at hx
    obtain ⟨rfl, rfl, rfl⟩ := hx
    refine Terminal.splitComment?_eq_none_iff.1 noComment (p ++ bs ++ rest) (by rw [hbs]; simp) ?_
    have hpart : ['*', '/'] <:+: p ∨ ['*', '/'] <:+: tail :=
      infix_of_infix_append_cons (by simp)
        (fun hmem => hlayout d (by simpa using hmem) rfl) hmark
    rcases hpart with h | h
    · exact h.trans ⟨[], bs ++ rest, by simp⟩
    · exact (htail _ (by simp) (by simp [isLayout]) h).trans (List.suffix_append _ _).isInfix

/-- A value that has been read is read again in front of what is printed behind it. -/
theorem isValueBefore_of_split? {cs lexeme rest rest' : List Char}
    (found : Terminal.splitValue? cs = some (lexeme, rest)) (hrest : Within rest' rest) :
    IsValueBefore (trim lexeme) rest' := by
  obtain rfl := (Terminal.split?_append .value _ _ _ found).1
  obtain ⟨⟨c, l, rfl, hc⟩, hpieced⟩ := Terminal.splitValue?_eq_some_iff.1 found
  obtain ⟨bs, hbs, heq⟩ := exists_blanks_trim hc l
  have htrim := trim_cons hc l
  refine ⟨by simp [htrim], isTrimmed_trim_cons hc l, Terminal.splitValue?_eq_some_iff.2 ?_⟩
  exact ⟨⟨c, trimEnd l, htrim, hc⟩, hpieced.transfer (hrest.mem rfl) heq hbs⟩

theorem Lexed.uncons {cs : List Char} {t : Token} {ts : List Token} (h : Lexed cs (t :: ts)) :
    ∃ cs' rest, t.terminal.split? cs' = some (t.lexeme, rest) ∧
      (t.terminal = .atParams → Terminal.splitComment? cs' = none) ∧
      t.lexeme <:+: cs ∧ rest <:+ cs ∧ Lexed rest ts := by
  cases h with
  | @token _ cs' rest _ _ hcs found noComment further =>
    have happ := (Terminal.split?_append _ _ _ _ found).1
    refine ⟨cs', rest, found, noComment, ?_, ?_, further⟩
    · exact List.IsInfix.trans ⟨[], rest, happ⟩ hcs.isInfix
    · exact List.IsSuffix.trans ⟨t.lexeme, happ⟩ hcs

namespace Node

theorem lines_append (depth : Nat) (ns ms : List Node) :
    lines depth (ns ++ ms) = lines depth ns ++ lines depth ms := by
  induction ns with
  | nil => rfl
  | cons n ns ih => simp [lines, ih]

theorem areReadable_append {inBlock : Bool} {depth : Nat} {rest : List Char} (ns ms : List Node) :
    AreReadable inBlock depth rest (ns ++ ms) ↔
      AreReadable inBlock depth (lines depth ms ++ rest) ns ∧ AreReadable inBlock depth rest ms := by
  induction ns with
  | nil => simp [AreReadable]
  | cons n ns ih =>
    rw [List.cons_append, AreReadable, ih, AreReadable, lines_append, List.append_assoc, and_assoc]

theorem areUnambiguous_append (inBlock : Bool) (ns ms : List Node) :
    areUnambiguous inBlock (ns ++ ms) = (areUnambiguous inBlock ns && areUnambiguous inBlock ms) := by
  induction ns with
  | nil => rfl
  | cons n ns ih => rw [List.cons_append, areUnambiguous, areUnambiguous, ih, Bool.and_assoc]

/-- What is known of nodes that have been read off the front of `cs`, up to `rest`: whatever is
printed behind them, if it is made of texts of `rest`, they are printed with texts of `cs` in front
of it and are read again there. -/
def ReadFrom (inBlock : Bool) (cs rest : List Char) (ns : List Node) : Prop :=
  ∀ depth tail, Within tail rest → Within (lines depth ns ++ tail) cs ∧
    (areUnambiguous inBlock ns = true → AreReadable inBlock depth tail ns)

theorem ReadFrom.nil {inBlock : Bool} {cs rest : List Char} (h : rest <:+ cs) :
    ReadFrom inBlock cs rest [] :=
  fun _ _ htail => ⟨htail.trans_isInfix h.isInfix, fun _ => trivial⟩

theorem ReadFrom.append {inBlock : Bool} {cs ds rest : List Char} {ns ms : List Node}
    (hns : ReadFrom inBlock cs ds ns) (hms : ReadFrom inBlock ds rest ms) :
    ReadFrom inBlock cs rest (ns ++ ms) := by
  intro depth tail htail
  obtain ⟨hwithin, hread⟩ := hms depth tail htail
  obtain ⟨hwithin', hread'⟩ := hns depth _ hwithin
  refine ⟨by rwa [lines_append, List.append_assoc], fun h => ?_⟩
  rw [areUnambiguous_append, Bool.and_eq_true] at h
  exact (areReadable_append ns ms).2 ⟨hread' h.1, hread h.2⟩

theorem ReadFrom.mono {inBlock : Bool} {cs ds rest rest' : List Char} {ns : List Node}
    (h : ReadFrom inBlock ds rest ns) (hds : ds <:+: cs) (hrest : rest' <:+: rest) :
    ReadFrom inBlock cs rest' ns := by
  intro depth tail htail
  obtain ⟨hwithin, hread⟩ := h depth tail (htail.trans_isInfix hrest)
  exact ⟨hwithin.trans_isInfix hds, hread⟩

/-- What is known of the parameters of an at-rule that have been read off the front of `cs`, up to
`rest`. -/
structure ReadParams (cs rest params : List Char) : Prop where
  infix_of : params <:+: cs
  isParamsBefore : ∀ c tail, isLayout c = true → Within tail rest → IsParamsBefore params (c :: tail)

theorem ReadParams.mono {cs ds rest rest' params : List Char} (h : ReadParams ds rest params)
    (hds : ds <:+: cs) (hrest : rest' <:+: rest) : ReadParams cs rest' params where
  infix_of := h.infix_of.trans hds
  isParamsBefore c tail hc htail := h.isParamsBefore c tail hc (htail.trans_isInfix hrest)

section Statements

variable {inBlock : Bool} {cs ds rest : List Char} {source : Option Position}
  {name params selector prop : String} {nodes : List Node}

theorem ReadFrom.declaration {value : String} (hprop : isPropertyText prop.toList = true)
    (hpart : prop.toList <:+: cs) (hvalue : value.toList <:+: cs)
    (hbefore : ∀ tail, Within tail rest → IsValueBefore value.toList tail) (hrest : rest <:+ cs) :
    ReadFrom inBlock cs rest [.declaration prop value source] := by
  intro depth tail htail
  constructor
  · have htext : lines depth [.declaration prop value source] ++ tail =
        indentation depth ++ (prop.toList ++ ':' :: ' ' :: (value.toList ++ ';' :: '\n' :: tail)) := by
      simp [lines, text]
    have htail' : Within ('\n' :: tail) cs := .layout rfl (htail.trans_isInfix hrest.isInfix)
    rw [htext]
    refine Within.indentation ((within_of_isInfix hpart).append_layout rfl (.layout rfl ?_)) depth
    exact (within_of_isInfix hvalue).append_layout rfl htail'
  · intro h
    refine ⟨⟨hprop, hbefore _ (htail.layout rfl), ?_⟩, trivial⟩
    rintro rfl
    simpa [areUnambiguous, isUnambiguous] using h

/-- The rest of a block and what closes it. -/
theorem within_closing {tail : List Char} (h : Within tail rest) (depth : Nat) :
    Within (indentation depth ++ '\x7d' :: '\n' :: tail) rest :=
  (Within.layout rfl (h.layout rfl)).indentation depth

theorem ReadFrom.rule (hselector : isSelectorText selector.toList = true)
    (hpart : selector.toList <:+: cs) (hall : ∀ n ∈ nodes, n.isDeclaration = true)
    (hnodes : ReadFrom false cs rest nodes) :
    ReadFrom inBlock cs rest [.rule selector source nodes] := by
  intro depth tail htail
  obtain ⟨hwithin, hread⟩ := hnodes (depth + 1) _ (within_closing htail depth)
  constructor
  · have htext : lines depth [.rule selector source nodes] ++ tail =
        indentation depth ++ (selector.toList ++ ' ' :: '\x7b' :: '\n' ::
          (lines (depth + 1) nodes ++ (indentation depth ++ '\x7d' :: '\n' :: tail))) := by
      simp [lines, text]
    rw [htext]
    refine Within.indentation ((within_of_isInfix hpart).append_layout rfl ?_) depth
    exact .layout rfl (hwithin.layout rfl)
  · intro h
    refine ⟨⟨hselector, hall, hread ?_⟩, trivial⟩
    simpa [areUnambiguous, isUnambiguous] using h

theorem within_atHeader (hname : '@' :: name.toList <:+: cs) (hparams : params.toList <:+: cs) :
    Within (atHeader name params) cs := by
  unfold atHeader
  split
  · exact within_of_isInfix hname
  · exact (within_of_isInfix hname).append_layout rfl (within_of_isInfix hparams)

theorem ReadFrom.atStatement (hname : isKeywordText name.toList = true)
    (hpart : '@' :: name.toList <:+: cs) (hparams : ReadParams cs rest params.toList)
    (hrest : rest <:+ cs) : ReadFrom inBlock cs rest [.atStatement name params source] := by
  intro depth tail htail
  have htail' : Within ('\n' :: tail) rest := htail.layout rfl
  constructor
  · have htext : lines depth [.atStatement name params source] ++ tail =
        indentation depth ++ (atHeader name params ++ ';' :: '\n' :: tail) := by
      simp [lines, text]
    rw [htext]
    refine Within.indentation ?_ depth
    exact (within_atHeader hpart hparams.infix_of).append_layout rfl
      (htail'.trans_isInfix hrest.isInfix)
  · intro _
    exact ⟨⟨hname, hparams.isParamsBefore ';' _ rfl htail'⟩, trivial⟩

theorem ReadFrom.atBlock (hname : isKeywordText name.toList = true)
    (hpart : '@' :: name.toList <:+: cs) (hparams : ReadParams cs ds params.toList)
    (hnodes : ReadFrom true ds rest nodes) (hds : ds <:+ cs) :
    ReadFrom inBlock cs rest [.atBlock name params source nodes] := by
  intro depth tail htail
  obtain ⟨hwithin, hread⟩ := hnodes (depth + 1) _ (within_closing htail depth)
  have hblock : Within ('\x7b' :: '\n' ::
      (lines (depth + 1) nodes ++ (indentation depth ++ '\x7d' :: '\n' :: tail))) ds :=
    .layout rfl (hwithin.layout rfl)
  constructor
  · have htext : lines depth [.atBlock name params source nodes] ++ tail =
        indentation depth ++ (atHeader name params ++ ' ' :: '\x7b' :: '\n' ::
          (lines (depth + 1) nodes ++ (indentation depth ++ '\x7d' :: '\n' :: tail))) := by
      simp [lines, text]
    rw [htext]
    refine Within.indentation ?_ depth
    exact (within_atHeader hpart hparams.infix_of).append_layout rfl
      (hblock.trans_isInfix hds.isInfix)
  · intro h
    refine ⟨⟨hname, hparams.isParamsBefore ' ' _ rfl hblock, hread ?_⟩, trivial⟩
    simpa [areUnambiguous, isUnambiguous] using h

end Statements

end Node

/-! ## From the derivation -/

/-- Phrases stand for nodes that may stand where they stand. -/
theorem Phrase.standsIn_of_mem_nodesAll {place : Place} (ps : List Phrase)
    (h : Phrase.areValid place ps = true) : ∀ n ∈ Phrase.nodesAll ps, n.standsIn place = true := by
  induction ps with
  | nil => simp [Phrase.nodesAll]
  | cons p ps ih =>
    rw [Phrase.areValid, Bool.and_eq_true] at h
    rw [Phrase.nodesAll, List.forall_mem_append]
    refine ⟨?_, ih h.2⟩
    have hp := h.1
    cases p <;> cases place <;>
      simp_all [Phrase.isValid, Phrase.nodes, Node.standsIn, Node.isDeclaration, Node.isStatement]

namespace Lexed

variable {cs : List Char} {t : Token} {ts : List Token}

theorem keyword (h : Lexed cs (t :: ts)) (ht : t.terminal = .atKeyword) :
    isKeywordText t.lexeme.tail = true ∧ '@' :: t.lexeme.tail <:+: cs ∧
      ∃ rest, rest <:+ cs ∧ Lexed rest ts := by
  obtain ⟨cs', rest, found, -, hpart, hrest, hts⟩ := h.uncons
  rw [ht] at found
  obtain ⟨heq, hkeyword⟩ := Terminal.isKeywordText_of_split? found
  exact ⟨hkeyword, heq ▸ hpart, rest, hrest, hts⟩

/-- The parameters of an at-rule, if there are any. -/
theorem params {params : Option Token} (h : Lexed cs (params.toList ++ ts))
    (hparams : params.all (·.terminal == .atParams) = true) :
    ∃ rest, rest <:+ cs ∧ Lexed rest ts ∧
      Node.ReadParams cs rest (Phrase.paramsText params).toList := by
  cases params with
  | none =>
    refine ⟨cs, List.suffix_refl cs, h, ⟨List.nil_infix, fun c tail hc _ => ⟨rfl, rfl, ?_⟩⟩⟩
    refine Terminal.splitComment?_eq_none fun cs' heq => ?_
    obtain ⟨rfl, -⟩ := List.cons.inj heq
    exact absurd hc (by decide)
  | some t =>
    obtain ⟨cs', rest, found, noComment, hpart, hrest, hts⟩ := h.uncons
    have ht : t.terminal = .atParams := by simpa using hparams
    rw [ht] at found
    rw [Phrase.paramsText, toList_strip]
    refine ⟨rest, hrest, hts, (trim_isInfix _).trans hpart, fun c tail hc htail => ?_⟩
    exact isParamsBefore_of_split? found (noComment ht) hc htail

mutual

/-- **What a phrase stands for is read again where it is printed.** -/
theorem readFrom_nodes (p : Phrase) {place : Place} (hp : p.isValid place = true) {cs : List Char}
    {ts : List Token} (h : Lexed cs (p.tokens ++ ts)) :
    ∃ rest, rest <:+ cs ∧ Lexed rest ts ∧ Node.ReadFrom (place == .block) cs rest p.nodes := by
  cases p with
  | declaration name colon value =>
    simp only [Phrase.isValid, Bool.and_eq_true, beq_iff_eq] at hp
    obtain ⟨⟨⟨-, hname⟩, -⟩, hvalue⟩ := hp
    obtain ⟨_, r₁, found, -, hpart, hr₁, h₁⟩ := h.uncons
    rw [hname] at found
    obtain ⟨_, r₂, -, -, -, hr₂, h₂⟩ := h₁.uncons
    obtain ⟨_, rest, found', -, hpart', hrest, hts⟩ := h₂.uncons
    rw [hvalue] at found'
    have hr : r₂ <:+ cs := hr₂.trans hr₁
    refine ⟨rest, hrest.trans hr, hts, .declaration ?_ ?_ ?_ (fun tail htail => ?_)
      (hrest.trans hr)⟩
    · rw [String.toList_ofList]
      exact Terminal.isPropertyText_of_split? found
    · rwa [String.toList_ofList]
    · rw [toList_strip]
      exact ((trim_isInfix _).trans hpart').trans hr.isInfix
    · rw [toList_strip]
      exact isValueBefore_of_split? found' htail
  | semicolon mark =>
    obtain ⟨_, rest, -, -, -, hrest, hts⟩ := h.uncons
    exact ⟨rest, hrest, hts, .nil hrest⟩
  | rule selector opening body closing =>
    simp only [Phrase.isValid, Bool.and_eq_true, beq_iff_eq] at hp
    obtain ⟨⟨⟨⟨-, hselector⟩, -⟩, hbody⟩, -⟩ := hp
    rw [Phrase.tokens, List.cons_append, List.cons_append, List.append_assoc] at h
    obtain ⟨_, r₁, found, -, hpart, hr₁, h₁⟩ := h.uncons
    rw [hselector] at found
    obtain ⟨_, r₂, -, -, -, hr₂, h₂⟩ := h₁.uncons
    obtain ⟨r₃, hr₃, h₃, hread⟩ := readFrom_nodesAll body hbody h₂
    obtain ⟨_, rest, -, -, -, hrest, hts⟩ := h₃.uncons
    have hr : r₂ <:+ cs := hr₂.trans hr₁
    refine ⟨rest, (hrest.trans hr₃).trans hr, hts, .rule ?_ ?_
      (Phrase.standsIn_of_mem_nodesAll body hbody) (hread.mono hr.isInfix hrest.isInfix)⟩
    · rw [toList_strip]
      exact Terminal.isSelectorText_of_split? found
    · rw [toList_strip]
      exact (trim_isInfix _).trans hpart
  | atStatement keyword params ending =>
    simp only [Phrase.isValid, Bool.and_eq_true, beq_iff_eq] at hp
    obtain ⟨⟨⟨-, hkeyword⟩, hparams⟩, -⟩ := hp
    rw [Phrase.tokens, List.cons_append, List.append_assoc] at h
    obtain ⟨hname, hpart, r₁, hr₁, h₁⟩ := h.keyword hkeyword
    obtain ⟨r₂, hr₂, h₂, hread⟩ := h₁.params hparams
    obtain ⟨_, rest, -, -, -, hrest, hts⟩ := h₂.uncons
    have hr : rest <:+ cs := (hrest.trans hr₂).trans hr₁
    refine ⟨rest, hr, hts, .atStatement ?_ ?_ (hread.mono hr₁.isInfix hrest.isInfix) hr⟩
    · rwa [String.toList_ofList]
    · rwa [String.toList_ofList]
  | atBlock keyword params opening body closing =>
    simp only [Phrase.isValid, Bool.and_eq_true, beq_iff_eq] at hp
    obtain ⟨⟨⟨⟨⟨-, hkeyword⟩, hparams⟩, -⟩, hbody⟩, -⟩ := hp
    rw [Phrase.tokens, List.cons_append, List.append_assoc, List.cons_append,
      List.append_assoc] at h
    obtain ⟨hname, hpart, r₁, hr₁, h₁⟩ := h.keyword hkeyword
    obtain ⟨r₂, hr₂, h₂, hread⟩ := h₁.params hparams
    obtain ⟨_, r₃, -, -, -, hr₃, h₃⟩ := h₂.uncons
    obtain ⟨r₄, hr₄, h₄, hreads⟩ := readFrom_nodesAll body hbody h₃
    obtain ⟨_, rest, -, -, -, hrest, hts⟩ := h₄.uncons
    have hr : r₃ <:+ cs := (hr₃.trans hr₂).trans hr₁
    refine ⟨rest, (hrest.trans hr₄).trans hr, hts, .atBlock ?_ ?_
      (hread.mono hr₁.isInfix hr₃.isInfix) (hreads.mono (List.infix_refl _) hrest.isInfix) hr⟩
    · rwa [String.toList_ofList]
    · rwa [String.toList_ofList]

theorem readFrom_nodesAll (ps : List Phrase) {place : Place}
    (hps : Phrase.areValid place ps = true) {cs : List Char} {ts : List Token}
    (h : Lexed cs (Phrase.tokensAll ps ++ ts)) :
    ∃ rest, rest <:+ cs ∧ Lexed rest ts ∧
      Node.ReadFrom (place == .block) cs rest (Phrase.nodesAll ps) := by
  cases ps with
  | nil => exact ⟨cs, List.suffix_refl cs, h, .nil (List.suffix_refl cs)⟩
  | cons p ps =>
    rw [Phrase.areValid, Bool.and_eq_true] at hps
    rw [Phrase.tokensAll, List.append_assoc] at h
    obtain ⟨ds, hds, hts, hp⟩ := readFrom_nodes p hps.1 h
    obtain ⟨rest, hrest, hts', hps⟩ := readFrom_nodesAll ps hps.2 hts
    exact ⟨rest, hrest.trans hds, hts', hp.append hps⟩

end

end Lexed

namespace Node

/-- A statement of a sheet is printed in front of the rest of the sheet as a line of a block is. -/
theorem readFrom_singleton {cs rest tail : List Char} {n : Node}
    (h : ReadFrom false cs rest [n]) (htail : Within tail rest) :
    Within (n.text 0 ++ '\n' :: tail) cs ∧
      (n.isUnambiguous false = true → n.IsReadable false 0 ('\n' :: tail)) := by
  obtain ⟨hwithin, hread⟩ := h 0 tail htail
  refine ⟨by simpa [lines] using hwithin, fun hn => ?_⟩
  exact (hread (by rw [areUnambiguous, hn]; rfl)).1

end Node

/-- Every phrase of a sheet stands for one node. -/
theorem Phrase.exists_nodes_eq {p : Phrase} (h : p.isValid .sheet = true) :
    ∃ n, p.nodes = [n] := by
  cases p with
  | declaration name colon value => exact absurd h (by simp [isValid])
  | semicolon mark => exact absurd h (by simp [isValid])
  | _ => exact ⟨_, rfl⟩

/-- What the phrases of a sheet stand for is read again where it is printed. -/
theorem Lexed.isReadableSheet (ps : List Phrase) (hps : Phrase.areValid .sheet ps = true)
    {cs : List Char} (h : Lexed cs (Phrase.tokensAll ps)) :
    Within (Node.sheetText (Phrase.nodesAll ps)) cs ∧
      (Node.areUnambiguous false (Phrase.nodesAll ps) = true →
        Node.IsReadableSheet (Phrase.nodesAll ps)) := by
  induction ps generalizing cs with
  | nil => exact ⟨within_nil cs, fun _ => trivial⟩
  | cons p ps ih =>
    rw [Phrase.areValid, Bool.and_eq_true] at hps
    obtain ⟨n, hn⟩ := Phrase.exists_nodes_eq hps.1
    obtain ⟨rest, -, hrest, hread⟩ := readFrom_nodes p hps.1 h
    obtain ⟨hwithin, hreads⟩ := ih hps.2 hrest
    rw [hn] at hread
    rw [Phrase.nodesAll, hn, List.singleton_append, Node.areUnambiguous, Bool.and_eq_true]
    cases hns : Phrase.nodesAll ps with
    | nil =>
      obtain ⟨hwithin', hread'⟩ := Node.readFrom_singleton hread (within_nil rest)
      exact ⟨hwithin', fun h => hread' h.1⟩
    | cons m ms =>
      rw [hns] at hwithin hreads
      obtain ⟨hwithin', hread'⟩ := Node.readFrom_singleton hread (hwithin.layout (c := '\n') rfl)
      exact ⟨hwithin', fun h => ⟨hread' h.1, hreads h.2⟩⟩

/-! ## Printing forgets the places -/

namespace Node

mutual

theorem text_forgetSource (n : Node) (depth : Nat) : n.forgetSource.text depth = n.text depth := by
  cases n with
  | declaration prop value source => rfl
  | rule selector source nodes => rw [forgetSource, text, text, lines_forgetSources nodes]
  | atStatement name params source => rfl
  | atBlock name params source nodes => rw [forgetSource, text, text, lines_forgetSources nodes]

theorem lines_forgetSources (ns : List Node) (depth : Nat) :
    lines depth (forgetSources ns) = lines depth ns := by
  cases ns with
  | nil => rfl
  | cons n ns => rw [forgetSources, lines, lines, text_forgetSource n, lines_forgetSources ns]

end

theorem sheetText_forgetSources (ns : List Node) : sheetText (forgetSources ns) = sheetText ns := by
  fun_induction sheetText ns with
  | case1 => rfl
  | case2 n => simp [forgetSources, sheetText, text_forgetSource]
  | case3 n ns hne ih =>
    cases ns with
    | nil => exact absurd rfl hne
    | cons m ms =>
      rw [forgetSources] at ih ⊢
      simp only [forgetSources, sheetText, text_forgetSource] at ih ⊢
      rw [ih]

/-- Trees that differ in places only are printed alike. -/
theorem toCss_congr {ns ms : List Node} (h : forgetSources ns = forgetSources ms) :
    toCss ns = toCss ms := by
  rw [toCss, toCss, ← sheetText_forgetSources, h, sheetText_forgetSources]

end Node

/-! ## Reading again what has been printed -/

/-- **The printed form of a readable sheet is read as the same tree**, places apart. -/
theorem parse_of_isReadableSheet {nodes : List Node} (name : Option String)
    (stands : ∀ n ∈ nodes, n.isStatement = true) (h : Node.IsReadableSheet nodes) :
    ∃ parsed, Sheet.parse (Node.toCss nodes) name = .ok ⟨parsed, some (Node.toCss nodes), name⟩ ∧
      Node.forgetSources parsed = Node.forgetSources nodes := by
  obtain ⟨ns, gap, here, last, hns, hgap, hread⟩ :=
    Unfinished.empty.read_sheetText_of_isReadableSheet nodes .start .start [] Unfinished.ready_empty
      rfl stands h rfl
  obtain ⟨here', hskip⟩ := (Unfinished.empty.tookAll ns).read_gap here last gap [] hgap (by simp)
  rw [List.nil_append] at hread
  rw [List.append_nil] at hskip
  refine ⟨ns, (parse_eq_ok_iff _ _ _).2 ⟨?_, rfl, rfl⟩, hns⟩
  rw [Sheet.parseNodes, Node.toCss, String.toList_ofList, hread, hskip, Unfinished.read,
    if_pos List.isEmpty_nil, Unfinished.finish?_tookAll_empty]

/-- A sheet that has been read is readable where it is printed, if it is unambiguous. -/
theorem isReadableSheet_of_parse {css : String} {name : Option String} {sheet : Sheet}
    (h : Sheet.parse css name = .ok sheet)
    (unambiguous : Node.areUnambiguous false sheet.nodes = true) :
    (∀ n ∈ sheet.nodes, n.isStatement = true) ∧ Node.IsReadableSheet sheet.nodes := by
  obtain ⟨hnodes, -, -⟩ := (parse_eq_ok_iff css name sheet).1 h
  obtain ⟨ps, ⟨hvalid, hcut⟩, hps⟩ := (parseNodes_eq_ok_iff _ _).1 hnodes
  rw [← hps] at unambiguous ⊢
  exact ⟨Phrase.standsIn_of_mem_nodesAll ps hvalid,
    (Lexed.isReadableSheet ps hvalid hcut.lexed).2 unambiguous⟩

/-- **Formatting keeps an unambiguous sheet.** If no declaration directly in the block of an at-rule
has a value whose first delimiter is an opening brace, the printed form of a sheet that has been read
is read as the same tree, places apart, and is printed as the same text. -/
theorem parse_toCss_of_areUnambiguous {css : String} {name : Option String} {sheet : Sheet}
    (h : Sheet.parse css name = .ok sheet)
    (unambiguous : Node.areUnambiguous false sheet.nodes = true) (name' : Option String) :
    ∃ again, Sheet.parse sheet.toCss name' = .ok again ∧
      Node.forgetSources again.nodes = Node.forgetSources sheet.nodes ∧
      again.toCss = sheet.toCss := by
  obtain ⟨stands, readable⟩ := isReadableSheet_of_parse h unambiguous
  obtain ⟨parsed, hparsed, hsame⟩ := parse_of_isReadableSheet name' stands readable
  exact ⟨_, hparsed, hsame, Node.toCss_congr hsame⟩

/-- A sheet with a comment and a `url(` that are not closed, and with delimiters in strings. -/
def unclosedMarks : String :=
  "/*;*/ @x /* \x7b .a \x7b b: url(c; d: '\x7b' \x7d e: '\x7d' \x7d"

/-- That sheet as it is printed. -/
def unclosedMarksPrinted : String :=
  "@x /* \x7b\n  .a \x7b\n    b: url(c;\n    d: '\x7b';\n  \x7d\n  e: '\x7d';\n\x7d\n"

/-- What is not closed is read again although it takes all that it can. -/
theorem parse_toCss_of_areUnambiguous_unclosedMarks :
    ∃ sheet, Sheet.parse unclosedMarks none = .ok sheet ∧
      sheet.toCss = unclosedMarksPrinted ∧
      ∃ again, Sheet.parse sheet.toCss none = .ok again ∧ again.toCss = sheet.toCss := by
  obtain ⟨sheet, hsheet, htext, hunambiguous⟩ :
      ∃ sheet, Sheet.parse unclosedMarks none = .ok sheet ∧
        sheet.toCss = unclosedMarksPrinted ∧
        Node.areUnambiguous false sheet.nodes = true := by
    decide +kernel
  obtain ⟨again, hagain, -, hsame⟩ := parse_toCss_of_areUnambiguous hsheet hunambiguous none
  exact ⟨sheet, hsheet, htext, again, hagain, hsame⟩

/-- A declaration in the block of an at-rule that is no rule only because of a comment. -/
theorem parse_toCss_bracedString :
    ∃ sheet, Sheet.parse "@media \x7b a/*;*/: \x22x\x7by\x22; \x7d" none = .ok sheet ∧
      ∃ e, Sheet.parse sheet.toCss none = .error e := by
  decide +kernel

end FluidCss
