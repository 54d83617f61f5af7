import FluidCss.Proofs.Grammar.Lexeme
import Mathlib.Data.List.Forall2

set_option autoImplicit false

/-! # How a text is laid out

A text that is cut into tokens consists of the texts that the tokens carry, with nothing between
them but fillers: white space, whole comments and marks (`Cut.separated`). Each token stands at an
offset of the text at which the text goes on with it, and the offsets increase (`Cut.exists_offsets`).
Line and column are worked out from the offset by counting in the text before it
(`Position.behind`). -/

namespace FluidCss

open Text

/-! ## Offsets and positions -/

namespace Position

/-- The place behind a text: its line feeds are counted for the line, and its characters behind the
last line feed for the column. -/
def behind (before : List Char) : Position :=
  ⟨before.count '\n' + 1, (before.reverse.takeWhile (· != '\n')).length + 1⟩

theorem behind_concat (before : List Char) (c : Char) :
    behind (before ++ [c]) = (behind before).next c := by
  by_cases hc : c = '\n'
  · simp [behind, next, hc]
  · simp [behind, next, hc]

theorem after_behind (before cs : List Char) :
    (behind before).after cs = behind (before ++ cs) := by
  induction cs generalizing before with
  | nil => rw [List.append_nil]; rfl
  | cons c cs ih =>
    have hstep : (behind before).after (c :: cs) = ((behind before).next c).after cs := rfl
    rw [hstep, ← behind_concat, ih, List.append_assoc, List.singleton_append]

/-- Counting on from the start of a text is counting in what is behind. -/
theorem start_after (cs : List Char) : start.after cs = behind cs := after_behind [] cs

end Position

/-! ## Fillers -/

/-- Whether a text is made of white space, whole comments and marks. A comment is whole if it goes
up to the first mark that closes it. -/
inductive IsFiller : List Char → Prop
  | nil : IsFiller []
  | blank {c : Char} {cs : List Char} (hc : isBlank c = true) (h : IsFiller cs) : IsFiller (c :: cs)
  | mark {c : Char} {cs : List Char} (hc : c ∈ ['\x7b', '\x7d', ';', ':']) (h : IsFiller cs) :
      IsFiller (c :: cs)
  | comment {x cs : List Char} (hx : ¬ ['*', '/'] <:+: x ++ ['*']) (h : IsFiller cs) :
      IsFiller ('/' :: '*' :: (x ++ '*' :: '/' :: cs))

theorem IsFiller.append {cs ds : List Char} (hcs : IsFiller cs) (hds : IsFiller ds) :
    IsFiller (cs ++ ds) := by
  induction hcs with
  | nil => exact hds
  | blank hc _ ih => exact .blank hc ih
  | mark hc _ ih => exact .mark hc ih
  | comment hx _ ih =>
    rw [List.cons_append, List.cons_append, List.append_assoc]
    exact .comment hx ih

theorem IsFiller.of_blanks {bs : List Char} (h : ∀ b ∈ bs, isBlank b = true) : IsFiller bs := by
  induction bs with
  | nil => exact .nil
  | cons b bs ih => exact .blank (h b (by simp)) (ih fun c hc => h c (by simp [hc]))

/-- Whether a text consists of the given texts, in order, with fillers before, between and behind
them. -/
inductive Separated : List String → List Char → Prop
  | nil {gap : List Char} (hgap : IsFiller gap) : Separated [] gap
  | cons {gap rest : List Char} {text : String} {texts : List String} (hgap : IsFiller gap)
      (hrest : Separated texts rest) : Separated (text :: texts) (gap ++ (text.toList ++ rest))

namespace Separated

theorem prepend {gap cs : List Char} {texts : List String} (hgap : IsFiller gap)
    (h : Separated texts cs) : Separated texts (gap ++ cs) := by
  cases h with
  | nil hgap' => exact .nil (hgap.append hgap')
  | cons hgap' hrest =>
    rw [← List.append_assoc]
    exact .cons (hgap.append hgap') hrest

/-- Empty texts take no room. -/
theorem of_filter {cs : List Char} {texts : List String}
    (h : Separated (texts.filter (· != "")) cs) : Separated texts cs := by
  induction texts generalizing cs with
  | nil => exact h
  | cons text texts ih =>
    by_cases htext : text = ""
    · subst htext
      exact .cons .nil (ih h)
    · rw [List.filter_cons_of_pos (by simpa using htext)] at h
      cases h with
      | cons hgap hrest => exact .cons hgap (ih hrest)

end Separated

namespace Terminal

/-- A comment goes up to the first mark that closes it. -/
theorem exists_append_of_commentRest? {cs lexeme rest : List Char}
    (h : commentRest? cs = some (lexeme, rest)) :
    ∃ x, lexeme = x ++ ['*', '/'] ∧ ¬ ['*', '/'] <:+: x ++ ['*'] := by
  fun_induction commentRest? cs generalizing lexeme rest with
  | case1 cs =>
    obtain ⟨rfl, -⟩ := Prod.mk.inj (Option.some.inj h)
    exact ⟨[], rfl, by decide⟩
  | case2 => exact absurd h (by simp)
  | case3 c cs hne ih =>
    obtain ⟨⟨l, r⟩, hl, heq⟩ := Option.map_eq_some_iff.1 h
    obtain ⟨rfl, rfl⟩ := Prod.mk.inj heq
    obtain ⟨x, rfl, hx⟩ := ih hl
    refine ⟨c :: x, rfl, ?_⟩
    rw [List.cons_append, List.infix_cons_iff, not_or]
    refine ⟨?_, hx⟩
    -- the closing mark would have been found here
    rintro ⟨tail, htail⟩
    obtain ⟨rfl, hhead⟩ := List.cons.inj htail
    rcases x with _ | ⟨d, x⟩
    · exact absurd hhead (by simp)
    · obtain ⟨rfl, -⟩ := List.cons.inj hhead
      exact hne _ rfl (commentRest?_append _ _ _ hl).symm

theorem isFiller_of_split? {t : Terminal} {cs lexeme rest : List Char}
    (skipped : t.isSkipped = true)
    (h : t.split? cs = some (lexeme, rest)) : IsFiller lexeme := by
  cases t with
  | comment =>
    change splitComment? cs = some (lexeme, rest) at h
    unfold splitComment? at h
    split at h
    · obtain ⟨⟨l, r⟩, hl, heq⟩ := Option.map_eq_some_iff.1 h
      obtain ⟨rfl, -⟩ := Prod.mk.inj heq
      obtain ⟨x, rfl, hx⟩ := exists_append_of_commentRest? hl
      exact .comment hx .nil
    · exact absurd h (by simp)
  | blank =>
    change run? isGap cs = some (lexeme, rest) at h
    unfold run? at h
    dsimp only at h
    split at h
    · exact absurd h (by simp)
    · obtain ⟨rfl, -⟩ := Prod.mk.inj (Option.some.inj h)
      exact .of_blanks fun b hb => isBlank_of_isGap (List.mem_takeWhile_imp hb)
  | _ => exact absurd skipped (by simp [isSkipped])

theorem eq_of_mark? {mark : Char} {cs lexeme rest : List Char}
    (h : mark? mark cs = some (lexeme, rest)) : lexeme = [mark] := by
  unfold mark? at h
  split at h
  · exact absurd h (by simp)
  · split at h
    · next hc =>
      obtain ⟨rfl, -⟩ := Prod.mk.inj (Option.some.inj h)
      rw [hc]
    · exact absurd h (by simp)

/-! ## The texts that tokens carry -/

/-- Whether tokens of the kind carry a text into the tree. -/
def carriesText : Terminal → Bool
  | selector | value | property | atKeyword | atParams => true
  | _ => false

/-- Whether a node of the tree starts with a token of the kind. -/
def startsNode : Terminal → Bool
  | selector | property | atKeyword => true
  | _ => false

theorem isFiller_of_not_carriesText {t : Terminal} {cs lexeme rest : List Char}
    (ht : t.carriesText = false) (h : t.split? cs = some (lexeme, rest)) : IsFiller lexeme := by
  cases t with
  | comment | blank => exact isFiller_of_split? rfl h
  | colon | openBrace | closeBrace | semicolon =>
    rw [eq_of_mark? h]
    exact .mark (by simp) .nil
  | _ => exact absurd ht (by simp [carriesText])

end Terminal

namespace Token

/-- The text that a token carries: its lexeme, without white space at the end where the kind of token
may have some. -/
def text (t : Token) : String :=
  match t.terminal with
  | .selector | .value | .atParams => strip (String.ofList t.lexeme)
  | _ => String.ofList t.lexeme

/-- Whether a token can be cut off a text. -/
def IsCut (t : Token) : Prop :=
  ∃ rest, t.terminal.split? (t.lexeme ++ rest) = some (t.lexeme, rest)

end Token

/-! ## Names and trimmed texts -/

theorem trim_of_not_blank {cs : List Char} (h : ∀ c ∈ cs, isBlank c = false) : trim cs = cs := by
  have hend : ∀ ds : List Char, (∀ c ∈ ds, isBlank c = false) → trimEnd ds = ds := by
    intro ds hds
    induction ds with
    | nil => rfl
    | cons c ds ih => rw [trimEnd_cons (hds c (by simp)), ih fun d hd => hds d (by simp [hd])]
  cases cs with
  | nil => rfl
  | cons c cs => rw [trim_cons (h c (by simp)), hend cs fun d hd => h d (by simp [hd])]

/-- Whether a text is non-empty and has no white space at its ends. -/
def IsTidy (s : String) : Prop := s ≠ "" ∧ strip s = s

theorem isTidy_of_not_blank {cs : List Char} (hne : cs ≠ []) (h : ∀ c ∈ cs, isBlank c = false) :
    IsTidy (String.ofList cs) := by
  refine ⟨by simpa using hne, ?_⟩
  rw [strip, String.toList_ofList, trim_of_not_blank h]

/-- What starts with no blank is not empty when it is trimmed. -/
theorem isTidy_strip {c : Char} (hc : isBlank c = false) (cs : List Char) :
    IsTidy (strip (String.ofList (c :: cs))) := by
  have htrim := isTrimmed_trim_cons hc cs
  rw [isTrimmed, beq_iff_eq] at htrim
  rw [strip, String.toList_ofList]
  refine ⟨?_, by rw [strip, String.toList_ofList, htrim]⟩
  rw [trim_cons hc]
  simp

namespace Terminal

theorem not_isBlank_of_isAlphanum {c : Char} (h : c.isAlphanum = true) : isBlank c = false := by
  have hclass : (decide (c.val ≥ 65 ∧ c.val ≤ 90) || c.val ≥ 97 && c.val ≤ 122 ||
      c.val ≥ 48 && c.val ≤ 57) = true := h
  simp only [Bool.or_eq_true, Bool.and_eq_true, decide_eq_true_eq, ge_iff_le,
    UInt32.le_iff_toNat_le] at hclass
  have hn : 48 ≤ c.toNat ∧ c.toNat ≤ 57 ∨ 65 ≤ c.toNat ∧ c.toNat ≤ 90 ∨
      97 ≤ c.toNat ∧ c.toNat ≤ 122 := by
    rcases hclass with (⟨h, h'⟩ | ⟨h, h'⟩) | ⟨h, h'⟩
    · exact .inr (.inl ⟨h, h'⟩)
    · exact .inr (.inr ⟨h, h'⟩)
    · exact .inl ⟨h, h'⟩
  simp only [isBlank, Bool.or_eq_false_iff, Bool.and_eq_false_iff, decide_eq_false_iff_not,
    beq_eq_false_iff_ne]
  omega

theorem not_isBlank_of_isNamePart {c : Char} (h : isNamePart c = true) : isBlank c = false := by
  simp only [isNamePart, Bool.or_eq_true, beq_iff_eq] at h
  rcases h with (h | rfl) | rfl
  · exact not_isBlank_of_isAlphanum h
  · rfl
  · rfl

theorem isNamePart_of_isNameStart {c : Char} (h : isNameStart c = true) : isNamePart c = true := by
  simp only [isNameStart, Bool.or_eq_true, beq_iff_eq] at h
  rcases h with h | rfl
  · simp [isNamePart, Char.isAlphanum, h]
  · rfl

theorem not_isBlank_of_isKeywordPart {c : Char} (h : isKeywordPart c = true) :
    isBlank c = false := by
  refine not_isBlank_of_isNamePart ?_
  simp only [isKeywordPart, Bool.or_eq_true, beq_iff_eq] at h
  rcases h with h | rfl
  · simp [isNamePart, h]
  · rfl

/-- The characters of a name that starts and goes on with characters of two classes. -/
theorem forall_of_headed? {p head tail : Char → Bool} {cs lexeme rest : List Char}
    (h : headed? head tail cs = some (lexeme, rest)) (hhead : ∀ c, head c = true → p c = true)
    (htail : ∀ c, tail c = true → p c = true) : ∀ c ∈ lexeme, p c = true := by
  obtain ⟨c, l, rfl, hc, hl⟩ := all_of_headed? (headed?_lexeme h)
  intro d hd
  rcases List.mem_cons.1 hd with rfl | hd
  · exact hhead _ hc
  · exact htail _ (List.all_eq_true.1 hl d hd)

theorem forall_isNamePart_of_splitProperty? {cs lexeme rest : List Char}
    (h : splitProperty? cs = some (lexeme, rest)) : ∀ c ∈ lexeme, isNamePart c = true := by
  have hname : ∀ {cs l r : List Char}, headed? isNameStart isNamePart cs = some (l, r) →
      ∀ c ∈ l, isNamePart c = true := fun h =>
    forall_of_headed? h (fun _ => isNamePart_of_isNameStart) fun _ => id
  unfold splitProperty? at h
  split at h
  · obtain ⟨⟨l, r⟩, hl, heq⟩ := Option.map_eq_some_iff.1 h
    obtain ⟨rfl, rfl⟩ := Prod.mk.inj heq
    simpa [isNamePart] using hname hl
  · obtain ⟨⟨l, r⟩, hl, heq⟩ := Option.map_eq_some_iff.1 h
    obtain ⟨rfl, rfl⟩ := Prod.mk.inj heq
    simpa [isNamePart] using hname hl
  · exact hname h

/-- The keyword of an at-rule is an at sign and a name. -/
theorem exists_name_of_splitKeyword? {cs lexeme rest : List Char}
    (h : splitKeyword? cs = some (lexeme, rest)) :
    ∃ name, lexeme = '@' :: name ∧ name ≠ [] ∧ ∀ c ∈ name, isBlank c = false := by
  unfold splitKeyword? at h
  split at h
  · obtain ⟨⟨l, r⟩, hl, heq⟩ := Option.map_eq_some_iff.1 h
    obtain ⟨rfl, rfl⟩ := Prod.mk.inj heq
    refine ⟨l, rfl, (headed?_append _ _ _ _ _ hl).2, fun c hc => ?_⟩
    refine not_isBlank_of_isKeywordPart (forall_of_headed? hl ?_ (fun _ => id) c hc)
    intro d hd
    simp [isKeywordPart, Char.isAlphanum, hd]
  · exact absurd h (by simp)

/-- Selectors, values and parameters start with no blank. -/
theorem exists_cons_of_split? {t : Terminal} (ht : t = .selector ∨ t = .value ∨ t = .atParams)
    {lexeme rest : List Char} (h : t.split? (lexeme ++ rest) = some (lexeme, rest)) :
    ∃ c l, lexeme = c :: l ∧ isBlank c = false := by
  rcases ht with rfl | rfl | rfl
  · change splitSelector? _ = _ at h
    unfold splitSelector? at h
    split at h
    · next hs =>
      obtain ⟨rfl, -⟩ := Prod.mk.inj (Option.some.inj h)
      obtain ⟨c, l, rfl, hc, -⟩ := all_of_headed? (headed?_lexeme hs)
      simp only [Bool.and_eq_true, Bool.not_eq_true'] at hc
      exact ⟨c, l, rfl, hc.1.1.1⟩
    · exact absurd h (by simp)
  · exact (splitValue?_eq_some_iff.1 h).1
  · obtain ⟨c, l, rfl, hc, -⟩ := all_of_headed? (headed?_lexeme h)
    rw [Bool.and_eq_true, Bool.not_eq_true'] at hc
    exact ⟨c, l, rfl, hc.1⟩

end Terminal

namespace Token

variable {t : Token}

/-- **A token that carries a text is this text with white space behind it.** -/
theorem IsCut.exists_blanks (h : t.IsCut) (ht : t.terminal.carriesText = true) :
    IsTidy t.text ∧ ∃ bs, (∀ b ∈ bs, isBlank b = true) ∧ t.lexeme = t.text.toList ++ bs := by
  obtain ⟨terminal, lexeme, position⟩ := t
  obtain ⟨rest, hsplit⟩ := h
  dsimp only at ht hsplit ⊢
  have hstripped : (terminal = .selector ∨ terminal = .value ∨ terminal = .atParams) →
      IsTidy (strip (String.ofList lexeme)) ∧ ∃ bs, (∀ b ∈ bs, isBlank b = true) ∧
        lexeme = (strip (String.ofList lexeme)).toList ++ bs := by
    intro hterminal
    obtain ⟨c, l, rfl, hc⟩ := Terminal.exists_cons_of_split? hterminal hsplit
    refine ⟨isTidy_strip hc l, ?_⟩
    rw [toList_strip]
    exact exists_blanks_trim hc l
  have hname : lexeme ≠ [] → (∀ c ∈ lexeme, isBlank c = false) →
      IsTidy (String.ofList lexeme) ∧ ∃ bs, (∀ b ∈ bs, isBlank b = true) ∧
        lexeme = (String.ofList lexeme).toList ++ bs := fun hne hblank =>
    ⟨isTidy_of_not_blank hne hblank, [], by simp, by simp⟩
  have hne := (Terminal.split?_append _ _ _ _ hsplit).2
  cases terminal with
  | selector | value | atParams => exact hstripped (by simp)
  | property =>
    refine hname hne fun c hc => Terminal.not_isBlank_of_isNamePart ?_
    exact Terminal.forall_isNamePart_of_splitProperty? hsplit c hc
  | atKeyword =>
    obtain ⟨name, rfl, -, hblank⟩ := Terminal.exists_name_of_splitKeyword? hsplit
    exact hname hne (List.forall_mem_cons.2 ⟨rfl, hblank⟩)
  | _ => exact absurd ht (by simp [Terminal.carriesText])

end Token

/-! ## Texts that are cut -/

/-- In a list that is related to another one, each element is related to one of the other. -/
theorem exists_of_forall₂ {α β : Type} {R : α → β → Prop} {xs : List α} {ys : List β}
    (h : List.Forall₂ R xs ys) : ∀ x ∈ xs, ∃ y ∈ ys, R x y := by
  induction h with
  | nil => simp
  | @cons x y xs ys hxy _ ih =>
    intro z hz
    rcases List.mem_cons.1 hz with rfl | hz
    · exact ⟨y, List.mem_cons_self, hxy⟩
    · obtain ⟨y', hy', hzy⟩ := ih z hz
      exact ⟨y', List.mem_cons_of_mem y hy', hzy⟩

/-- In a list that is related to another one, what is left by a filter is related to a part of the
other. -/
theorem exists_sublist_of_forall₂ {α β : Type} {R : α → β → Prop} {xs : List α} {ys : List β}
    (h : List.Forall₂ R xs ys) (p : α → Bool) :
    ∃ zs, zs.Sublist ys ∧ List.Forall₂ R (xs.filter p) zs := by
  induction h with
  | nil => exact ⟨[], .refl [], .nil⟩
  | @cons x y xs ys hxy _ ih =>
    obtain ⟨zs, hsub, hzs⟩ := ih
    by_cases hx : p x = true
    · rw [List.filter_cons_of_pos hx]
      exact ⟨y :: zs, hsub.cons_cons y, .cons hxy hzs⟩
    · rw [List.filter_cons_of_neg hx]
      exact ⟨zs, hsub.cons y, hzs⟩

/-- Whether a text goes on with a token at an offset, and the token knows the place. -/
def Token.StandsAt (t : Token) (css : List Char) (offset : Nat) : Prop :=
  t.position = .behind (css.take offset) ∧ t.lexeme <+: css.drop offset

namespace Cut

variable {before : List Terminal} {here : Position} {cs : List Char} {ts : List Token}

theorem isCut (h : Cut before here cs ts) : ∀ t ∈ ts, t.IsCut := by
  induction h with
  | nil => simp
  | skip _ _ _ _ _ _ _ _ _ _ _ ih => exact ih
  | token before here cs t lexeme rest ts follows found first further ih =>
    refine List.forall_mem_cons.2 ⟨⟨rest, ?_⟩, ih⟩
    rw [(Terminal.split?_append _ _ _ _ found).1, found]

/-- **Nothing stands between the texts of the tokens but fillers.** -/
theorem separated (h : Cut before here cs ts) :
    Separated ((ts.filter (·.terminal.carriesText)).map Token.text) cs := by
  induction h with
  | nil => exact .nil .nil
  | skip before here cs t lexeme rest ts skipped found first further ih =>
    rw [← (Terminal.split?_append _ _ _ _ found).1]
    exact ih.prepend (Terminal.isFiller_of_split? skipped found)
  | token before here cs t lexeme rest ts follows found first further ih =>
    have happend := (Terminal.split?_append _ _ _ _ found).1
    by_cases ht : t.carriesText = true
    · rw [List.filter_cons_of_pos (by simpa using ht), List.map_cons]
      have hcut : (⟨t, lexeme, here⟩ : Token).IsCut := ⟨rest, by rw [happend, found]⟩
      obtain ⟨-, bs, hbs, hlexeme⟩ := hcut.exists_blanks ht
      -- the blanks behind the text go to the filler behind it
      have hcs : cs = [] ++ ((⟨t, lexeme, here⟩ : Token).text.toList ++ (bs ++ rest)) := by
        rw [List.nil_append, ← List.append_assoc, ← hlexeme, happend]
      rw [hcs]
      exact .cons .nil (ih.prepend (.of_blanks hbs))
    · rw [List.filter_cons_of_neg (by simpa using ht), ← happend]
      exact ih.prepend (Terminal.isFiller_of_not_carriesText (by simpa using ht) found)

/-- **Each token stands at an offset of its own**, in the order of the tokens. -/
theorem exists_offsets (h : Cut before here cs ts) {front : List Char}
    (hhere : here = .behind front) :
    ∃ offsets, List.Forall₂ (fun t o => t.StandsAt (front ++ cs) o) ts offsets ∧
      offsets.Pairwise (· < ·) ∧ ∀ o ∈ offsets, front.length ≤ o := by
  induction h generalizing front with
  | nil => exact ⟨[], .nil, .nil, by simp⟩
  | skip before here cs t lexeme rest ts skipped found first further ih =>
    have happend := (Terminal.split?_append _ _ _ _ found).1
    obtain ⟨offsets, hstands, hincreasing, hfrom⟩ :=
      @ih (front ++ lexeme) (by rw [hhere, Position.after_behind])
    rw [List.append_assoc, happend] at hstands
    refine ⟨offsets, hstands, hincreasing, fun o ho => ?_⟩
    have hle := hfrom o ho
    rw [List.length_append] at hle
    omega
  | token before here cs t lexeme rest ts follows found first further ih =>
    obtain ⟨happend, hne⟩ := Terminal.split?_append _ _ _ _ found
    obtain ⟨offsets, hstands, hincreasing, hfrom⟩ :=
      @ih (front ++ lexeme) (by rw [hhere, Position.after_behind])
    rw [List.append_assoc, happend] at hstands
    have hlength := List.length_pos_iff.2 hne
    have hlt : ∀ o ∈ offsets, front.length < o := by
      intro o ho
      have hle := hfrom o ho
      rw [List.length_append] at hle
      omega
    refine ⟨front.length :: offsets, .cons ⟨?_, ?_⟩ hstands, .cons hlt hincreasing,
      List.forall_mem_cons.2 ⟨Nat.le_refl _, fun o ho => Nat.le_of_lt (hlt o ho)⟩⟩
    · rw [List.take_left]
      exact hhere
    · rw [List.drop_left, ← happend]
      exact List.prefix_append _ _

end Cut

end FluidCss
